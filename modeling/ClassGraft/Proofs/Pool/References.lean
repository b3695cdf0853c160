import ClassGraft.Proofs.Transfer.Alike
import Mathlib.Logic.Relation

/-!
# References between entries

A reference is fulfilled when it leads to an entry of the kind that it asks for.  A pool is closed when all references
of its entries are fulfilled, and it is closed from an index on when this holds of all that can be reached from there.
References of a closed part lead to closed parts (`Pool.closedFrom_iff`), and as they lead to constants of smaller
depth, no chain of fulfilled references returns to where it started, however the indices are wired.
-/

namespace ClassGraft

theorem Constant.eq_classInfo_of_tag {constant : Constant} (h : constant.tag = .classInfo) :
    ∃ name, constant = .named .classInfo name := by
  cases constant with
  | named kind name =>
    cases kind with
    | classInfo => exact ⟨name, rfl⟩
    | _ => cases h
  | member kind _ _ => cases kind <;> cases h
  | dynamic kind _ _ => cases kind <;> cases h
  | _ => cases h

theorem Constant.eq_nameAndType_of_tag {constant : Constant} (h : constant.tag = .nameAndType) :
    ∃ name descriptor, constant = .nameAndType name descriptor := by
  cases constant with
  | nameAndType name descriptor => exact ⟨name, descriptor, rfl⟩
  | named kind _ => cases kind <;> cases h
  | member kind _ _ => cases kind <;> cases h
  | dynamic kind _ _ => cases kind <;> cases h
  | _ => cases h

theorem Constant.eq_member_of_tag {constant : Constant} {kind : MemberKind} (h : constant.tag = kind.tag) :
    ∃ kind owner signature, constant = .member kind owner signature := by
  cases constant with
  | member kind owner signature => exact ⟨kind, owner, signature, rfl⟩
  | named found _ => cases found <;> cases kind <;> cases h
  | dynamic found _ _ => cases found <;> cases kind <;> cases h
  | _ => cases kind <;> cases h

/-- The references of a renamed constant are its references, renamed. -/
theorem Constant.references_renamed (constant : Constant) (place : Index → Index) :
    (constant.renamed place).references =
      constant.references.map fun reference => (reference.1, place reference.2) := by
  cases constant <;> rfl

namespace Pool

/-- A reference leads to an entry of the kind that it asks for. -/
def Fulfils (pool : Pool) (reference : Expectation × Index) : Prop :=
  ∃ constant, pool.get reference.2 = .ok constant ∧ reference.1.Admits constant.tag

/-- Every reference of every entry leads to an entry of the kind that it asks for. -/
def Closed (pool : Pool) : Prop :=
  ∀ entry ∈ pool.entries, ∀ reference ∈ entry.2.references, pool.Fulfils reference

/-- The entry at one index has a reference to another. -/
def Refers (pool : Pool) (index next : Index) : Prop :=
  ∃ constant expected, pool.get index = .ok constant ∧ (expected, next) ∈ constant.references

/-- An index is reached from another through references. -/
abbrev Reaches (pool : Pool) : Index → Index → Prop := Relation.ReflTransGen pool.Refers

/-- An index leads to an entry, and every reference of every entry that is reached from it leads to an entry of the kind
that it asks for. -/
structure ClosedFrom (pool : Pool) (index : Index) : Prop where
  leads : ∃ constant, pool.get index = .ok constant
  fulfilled : ∀ next constant, pool.Reaches index next → pool.get next = .ok constant →
    ∀ reference ∈ constant.references, pool.Fulfils reference

variable {pool larger : Pool}

theorem WellFormed.closed_iff (h : pool.WellFormed) :
    pool.Closed ↔ ∀ index constant, pool.get index = .ok constant →
      ∀ reference ∈ constant.references, pool.Fulfils reference := by
  constructor
  · exact fun hclosed index constant hget => hclosed (index, constant) (h.mem_entries_iff.2 hget)
  · exact fun hclosed entry hmem => hclosed entry.1 entry.2 (h.mem_entries_iff.1 hmem)

/-- References stay fulfilled when a pool is extended. -/
theorem Extends.fulfils (h : larger.Extends pool) (hlarger : larger.WellFormed) (hpool : pool.WellFormed)
    {reference : Expectation × Index} (hreference : pool.Fulfils reference) : larger.Fulfils reference := by
  obtain ⟨constant, hget, hadmits⟩ := hreference
  exact ⟨constant, h.get hlarger hpool hget, hadmits⟩

theorem fulfils_of_text {index : Index} {text : String} (h : pool.text index = .ok text) :
    pool.Fulfils (.entry .utf8, index) := by
  obtain ⟨stored, hget, -⟩ := text_eq_ok_iff.1 h
  exact ⟨_, hget, rfl⟩

theorem fulfils_of_className {index : Index} {name : String} (h : pool.className index = .ok name) :
    pool.Fulfils (.entry .classInfo, index) := by
  obtain ⟨text, hget, -⟩ := className_eq_ok_iff.1 h
  exact ⟨_, hget, rfl⟩

theorem fulfils_of_nameAndType {index : Index} {texts : String × String} (h : pool.nameAndType index = .ok texts) :
    pool.Fulfils (.entry .nameAndType, index) := by
  obtain ⟨name, descriptor, hget, -⟩ := nameAndType_eq_ok_iff.1 h
  exact ⟨_, hget, rfl⟩

/-- A closed pool stays closed when an entry is added whose references it fulfils. -/
theorem Closed.push (hclosed : pool.Closed) (hpool : pool.WellFormed) {constant : Constant}
    (hgenuine : constant.Genuine) (hroom : pool.hasRoom constant = true)
    (hreferences : ∀ reference ∈ constant.references, pool.Fulfils reference) : (pool.push constant).Closed := by
  have hlarger := hpool.push hgenuine hroom
  rw [hlarger.closed_iff]
  intro index found hget reference hmem
  refine (extends_push pool constant).fulfils hlarger hpool ?_
  rcases (hpool.get_push_iff hgenuine hroom).1 hget with hold | ⟨-, rfl⟩
  · exact hpool.closed_iff.1 hclosed index found hold reference hmem
  · exact hreferences reference hmem

/-- A pool is closed from an index on when it fulfils the references of the entry there and is closed from each of
them on. -/
theorem closedFrom_iff {index : Index} :
    pool.ClosedFrom index ↔ ∃ constant, pool.get index = .ok constant ∧
      ∀ reference ∈ constant.references, pool.Fulfils reference ∧ pool.ClosedFrom reference.2 := by
  constructor
  · rintro ⟨⟨constant, hget⟩, hfulfilled⟩
    refine ⟨constant, hget, fun reference hmem => ?_⟩
    obtain ⟨found, hfound, hadmits⟩ := hfulfilled index constant .refl hget reference hmem
    refine ⟨⟨found, hfound, hadmits⟩, ⟨found, hfound⟩, fun next reached hreaches => ?_⟩
    exact hfulfilled next reached (.head ⟨constant, reference.1, hget, hmem⟩ hreaches)
  · rintro ⟨constant, hget, hreferences⟩
    refine ⟨⟨constant, hget⟩, fun next found hreaches hfound reference hmem => ?_⟩
    -- what is reached is the entry itself, or it is reached from one of its references
    rcases hreaches.cases_head with rfl | ⟨middle, ⟨first, expected, hfirst, hrefers⟩, hrest⟩
    · rw [hget] at hfound
      cases hfound
      exact (hreferences reference hmem).1
    · rw [hget] at hfirst
      cases hfirst
      exact (hreferences _ hrefers).2.fulfilled next found hrest hfound reference hmem

theorem exists_text_of_fulfils {index : Index} (h : pool.Fulfils (.entry .utf8, index)) :
    ∃ text, pool.text index = .ok text := by
  obtain ⟨constant, hget, htag⟩ := h
  obtain ⟨stored, rfl⟩ := Constant.eq_utf8_of_tag htag
  exact ⟨stored.text, text_eq_ok_iff.2 ⟨stored, hget, rfl⟩⟩

/-- A class from which a pool is closed has a name. -/
theorem ClosedFrom.exists_className {index : Index} (h : pool.ClosedFrom index)
    (hclass : pool.Fulfils (.entry .classInfo, index)) : ∃ name, pool.className index = .ok name := by
  obtain ⟨constant, hget, htag⟩ := hclass
  obtain ⟨text, rfl⟩ := Constant.eq_classInfo_of_tag htag
  have hfulfils := h.fulfilled index _ .refl hget (.entry .utf8, text) (by simp [Constant.references])
  obtain ⟨name, hname⟩ := exists_text_of_fulfils hfulfils
  exact ⟨name, className_eq_ok_iff.2 ⟨text, hget, hname⟩⟩

/-- A name and type from which a pool is closed has both texts. -/
theorem ClosedFrom.exists_nameAndType {index : Index} (h : pool.ClosedFrom index)
    (hpair : pool.Fulfils (.entry .nameAndType, index)) : ∃ texts, pool.nameAndType index = .ok texts := by
  obtain ⟨constant, hget, htag⟩ := hpair
  obtain ⟨name, descriptor, rfl⟩ := Constant.eq_nameAndType_of_tag htag
  have htext : ∀ text, (.entry .utf8, text) ∈ (Constant.nameAndType name descriptor).references →
      ∃ shown, pool.text text = .ok shown :=
    fun text hmem => exists_text_of_fulfils (h.fulfilled index _ .refl hget _ hmem)
  obtain ⟨nameText, hname⟩ := htext name (by simp [Constant.references])
  obtain ⟨descriptorText, hdescriptor⟩ := htext descriptor (by simp [Constant.references])
  exact ⟨(nameText, descriptorText), nameAndType_eq_ok_iff.2 ⟨name, descriptor, hget, hname, hdescriptor⟩⟩

end Pool

end ClassGraft
