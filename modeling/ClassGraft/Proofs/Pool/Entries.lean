import ClassGraft.Pool.Basic
import ClassGraft.Proofs.Codec.Constant
import ClassGraft.Proofs.OffsetTable

/-!
# Entries of constant pools

A well-formed pool has been filled from the front with genuine constants for which there was room.  Its indices lead
to exactly the entries that were added (`get_eq_ok_iff`), at the indices that the pool had reached (`get_push_iff`),
and never to index zero.  A pool extends another when the other's entries stand at its front.
-/

namespace ClassGraft.Pool

/-- Pools that are filled from the front with genuine constants, as long as there is room. -/
inductive WellFormed : Pool → Prop
  | empty : WellFormed .empty
  | push {pool : Pool} {constant : Constant} (h : WellFormed pool) (hgenuine : constant.Genuine)
      (hroom : pool.hasRoom constant = true) : WellFormed (pool.push constant)

@[simp]
theorem toList_push (pool : Pool) (constant : Constant) :
    (pool.push constant).table.toList = pool.table.toList ++ [(pool.count, constant)] :=
  OffsetTable.toList_push pool.table constant.width constant

theorem hasRoom_iff {pool : Pool} {constant : Constant} :
    pool.hasRoom constant = true ↔ pool.count + constant.width ≤ 65535 := by
  simp [hasRoom]

namespace WellFormed

theorem ordered {pool : Pool} (h : pool.WellFormed) : pool.table.Ordered := by
  induction h with
  | empty => exact OffsetTable.ordered_startingAt 1
  | push _ _ _ ih => exact ih.push (Constant.width_pos _) _

theorem count_pos {pool : Pool} (h : pool.WellFormed) : 0 < pool.count := by
  induction h with
  | empty => exact Nat.one_pos
  | push _ _ _ ih =>
    rw [count_push]
    omega

theorem count_le {pool : Pool} (h : pool.WellFormed) : pool.count ≤ 65535 := by
  cases h with
  | empty => decide
  | push _ _ hroom =>
    rw [count_push]
    exact hasRoom_iff.1 hroom

/-- An entry takes up indices from one on that the pool has passed. -/
theorem offset_bounds {pool : Pool} (h : pool.WellFormed) {offset : Nat} {constant : Constant}
    (hmem : (offset, constant) ∈ pool.table.toList) : 0 < offset ∧ offset + constant.width ≤ pool.count := by
  induction h with
  | empty => cases hmem
  | push hpool _ _ ih =>
    rw [toList_push, List.mem_append, List.mem_singleton] at hmem
    rw [count_push]
    rcases hmem with hmem | hlast
    · have := ih hmem
      omega
    · cases hlast
      exact ⟨hpool.count_pos, Nat.le_refl _⟩

theorem offset_lt {pool : Pool} (h : pool.WellFormed) {offset : Nat} {constant : Constant}
    (hmem : (offset, constant) ∈ pool.table.toList) : offset < 65536 := by
  have := (h.offset_bounds hmem).2
  have := h.count_le
  omega

theorem genuine_of_mem {pool : Pool} (h : pool.WellFormed) {offset : Nat} {constant : Constant}
    (hmem : (offset, constant) ∈ pool.table.toList) : constant.Genuine := by
  induction h with
  | empty => cases hmem
  | push _ hgenuine _ ih =>
    rw [toList_push, List.mem_append, List.mem_singleton] at hmem
    rcases hmem with hmem | hlast
    · exact ih hmem
    · cases hlast
      exact hgenuine

/-- An index leads to the entry that stands there. -/
theorem get_eq_ok_iff {pool : Pool} (h : pool.WellFormed) {index : Index} {constant : Constant} :
    pool.get index = .ok constant ↔ (index.toNat, constant) ∈ pool.table.toList := by
  rw [← OffsetTable.get?_eq_some_iff h.ordered, Pool.get]
  cases pool.table.get? index.toNat <;> simp

theorem genuine {pool : Pool} (h : pool.WellFormed) {index : Index} {constant : Constant}
    (hget : pool.get index = .ok constant) : constant.Genuine :=
  h.genuine_of_mem (h.get_eq_ok_iff.1 hget)

theorem index_ne_zero {pool : Pool} (h : pool.WellFormed) {index : Index} {constant : Constant}
    (hget : pool.get index = .ok constant) : index ≠ 0 := by
  rintro rfl
  exact Nat.lt_irrefl 0 (h.offset_bounds (h.get_eq_ok_iff.1 hget)).1

/-- The next index as a word. -/
theorem toNat_count {pool : Pool} (h : pool.WellFormed) : (UInt16.ofNat pool.count).toNat = pool.count := by
  have hlt : pool.count < 65536 := Nat.lt_succ_of_le h.count_le
  exact UInt16.toNat_ofNat_of_lt' hlt

/-- The entries listed with their indices are those that the indices lead to. -/
theorem mem_entries_iff {pool : Pool} (h : pool.WellFormed) {index : Index} {constant : Constant} :
    (index, constant) ∈ pool.entries ↔ pool.get index = .ok constant := by
  rw [h.get_eq_ok_iff, entries, List.mem_map]
  constructor
  · rintro ⟨⟨offset, found⟩, hmem, heq⟩
    cases heq
    rwa [UInt16.toNat_ofNat_of_lt' (h.offset_lt hmem)]
  · intro hmem
    exact ⟨(index.toNat, constant), hmem, by simp⟩

theorem entries_increasing {pool : Pool} (h : pool.WellFormed) : pool.entries.Pairwise fun a b => a.1 < b.1 := by
  rw [entries, List.pairwise_map]
  refine h.ordered.increasing.imp_of_mem ?_
  intro a b ha hb hlt
  rw [UInt16.lt_iff_toNat_lt, UInt16.toNat_ofNat_of_lt' (h.offset_lt ha), UInt16.toNat_ofNat_of_lt' (h.offset_lt hb)]
  exact hlt

/-- After adding an entry, the old indices lead where they led, and the next one leads to the new entry. -/
theorem get_push_iff {pool : Pool} (h : pool.WellFormed) {new : Constant} (hgenuine : new.Genuine)
    (hroom : pool.hasRoom new = true) {index : Index} {constant : Constant} :
    (pool.push new).get index = .ok constant ↔
      pool.get index = .ok constant ∨ index = UInt16.ofNat pool.count ∧ constant = new := by
  rw [(h.push hgenuine hroom).get_eq_ok_iff, h.get_eq_ok_iff, toList_push, List.mem_append, List.mem_singleton,
    Prod.mk.injEq, ← UInt16.toNat_inj, h.toNat_count]

end WellFormed

/-! ### Extensions -/

/-- The entries of a pool stand at the front of another. -/
def Extends (new old : Pool) : Prop := old.table.toList <+: new.table.toList

theorem Extends.refl (pool : Pool) : pool.Extends pool := List.prefix_refl _

theorem Extends.trans {a b c : Pool} (hcb : c.Extends b) (hba : b.Extends a) : c.Extends a :=
  List.IsPrefix.trans hba hcb

theorem extends_push (pool : Pool) (constant : Constant) : (pool.push constant).Extends pool := by
  rw [Extends, toList_push]
  exact List.prefix_append _ _

/-- The indices of a pool lead to the same entries in its extensions. -/
theorem Extends.get {new old : Pool} (h : new.Extends old) (hnew : new.WellFormed) (hold : old.WellFormed)
    {index : Index} {constant : Constant} (hget : old.get index = .ok constant) : new.get index = .ok constant := by
  rw [hnew.get_eq_ok_iff]
  exact h.subset (hold.get_eq_ok_iff.1 hget)

/-- What an extension has before an entry of the pool has been in the pool. -/
theorem Extends.get_of_le {new old : Pool} (h : new.Extends old) (hnew : new.WellFormed) (hold : old.WellFormed)
    {index place : Index} {constant found : Constant} (hget : old.get index = .ok constant)
    (hfound : new.get place = .ok found) (hle : place ≤ index) : old.get place = .ok found := by
  rw [hold.get_eq_ok_iff] at hget ⊢
  rw [hnew.get_eq_ok_iff] at hfound
  have hincreasing := hnew.ordered.increasing
  obtain ⟨added, hadded⟩ := h
  rw [← hadded] at hfound hincreasing
  rcases List.mem_append.1 hfound with hmem | hlater
  · exact hmem
  · -- what has been added stands after all entries of the pool
    have hlt := (List.pairwise_append.1 hincreasing).2.2 _ hget _ hlater
    rw [UInt16.le_iff_toNat_le] at hle
    exact absurd hlt (Nat.not_lt.2 hle)

/-! ### Texts, classes and signatures -/

private theorem bind_ok_iff {ε α β : Type} {x : Except ε α} {f : α → Except ε β} {b : β} :
    (x >>= f) = .ok b ↔ ∃ a, x = .ok a ∧ f a = .ok b := by
  cases x with
  | error error => exact iff_of_false (fun h => by cases h) (by rintro ⟨_, h, _⟩; cases h)
  | ok a =>
    constructor
    · exact fun h => ⟨a, rfl, h⟩
    · rintro ⟨_, h, hf⟩
      cases h
      exact hf

theorem text_eq_ok_iff {pool : Pool} {index : Index} {text : String} :
    pool.text index = .ok text ↔ ∃ stored, pool.get index = .ok (.utf8 stored) ∧ stored.text = text := by
  rw [Pool.text, bind_ok_iff]
  constructor
  · rintro ⟨constant, hget, hmatch⟩
    split at hmatch
    · cases hmatch
      exact ⟨_, hget, rfl⟩
    · cases hmatch
  · rintro ⟨stored, hget, rfl⟩
    exact ⟨_, hget, rfl⟩

/-- An index that leads to a text leads to it in every extension. -/
theorem Extends.text {new old : Pool} (h : new.Extends old) (hnew : new.WellFormed) (hold : old.WellFormed)
    {index : Index} {text : String} (htext : old.text index = .ok text) : new.text index = .ok text := by
  obtain ⟨stored, hget, hshown⟩ := text_eq_ok_iff.1 htext
  exact text_eq_ok_iff.2 ⟨stored, h.get hnew hold hget, hshown⟩

theorem className_eq_ok_iff {pool : Pool} {index : Index} {name : String} :
    pool.className index = .ok name ↔
      ∃ text, pool.get index = .ok (.named .classInfo text) ∧ pool.text text = .ok name := by
  rw [className, bind_ok_iff]
  constructor
  · rintro ⟨constant, hget, hmatch⟩
    split at hmatch
    · exact ⟨_, hget, hmatch⟩
    · cases hmatch
  · rintro ⟨text, hget, htext⟩
    exact ⟨_, hget, htext⟩

theorem nameAndType_eq_ok_iff {pool : Pool} {index : Index} {texts : String × String} :
    pool.nameAndType index = .ok texts ↔ ∃ name descriptor, pool.get index = .ok (.nameAndType name descriptor) ∧
      pool.text name = .ok texts.1 ∧ pool.text descriptor = .ok texts.2 := by
  rw [nameAndType, bind_ok_iff]
  constructor
  · rintro ⟨constant, hget, hmatch⟩
    split at hmatch
    · obtain ⟨nameText, hname, hmatch⟩ := bind_ok_iff.1 hmatch
      obtain ⟨descriptorText, hdescriptor, hmatch⟩ := bind_ok_iff.1 hmatch
      cases hmatch
      exact ⟨_, _, hget, hname, hdescriptor⟩
    · cases hmatch
  · rintro ⟨name, descriptor, hget, hname, hdescriptor⟩
    refine ⟨_, hget, bind_ok_iff.2 ⟨_, hname, bind_ok_iff.2 ⟨_, hdescriptor, rfl⟩⟩⟩

end ClassGraft.Pool
