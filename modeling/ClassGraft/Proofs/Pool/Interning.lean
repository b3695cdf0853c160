import ClassGraft.Pool.Interner
import ClassGraft.Proofs.Codec.Pool
import Std.Data.HashMap.Lemmas

/-!
# Interning constants

An interner is sound when its table names, for the bytes of every entry, the first index with these bytes, and nothing
else.  A fresh interner is sound (`sound_ofPool`), and interning a genuine constant keeps it so, only ever adds an
entry at the end, and gives an index that leads to this constant (`Sound.intern`).  Pools that are read, or that grow by
interning, are well-formed (`Pool.Made.wellFormed`).
-/

namespace ClassGraft.Interner

/-- The table of an interner names the first index of every encoding in its pool, and nothing else. -/
structure Sound (interner : Interner) : Prop where
  pool : interner.pool.WellFormed
  named : ∀ key index, interner.firstIndex[key]? = some index →
    ∃ constant, interner.pool.get index = .ok constant ∧ constant.bytes = key
  first : ∀ index constant, interner.pool.get index = .ok constant →
    ∃ least, interner.firstIndex[constant.bytes]? = some least ∧ least ≤ index

/-! ### A fresh interner -/

/-- Names the entries in order, each unless one with the same bytes has been named before. -/
private def nameAll (known : Std.HashMap Bytes Index) (entries : List (Index × Constant)) : Std.HashMap Bytes Index :=
  entries.foldl (fun known entry => known.insertIfNew entry.2.bytes entry.1) known

private theorem getElem?_nameAll (known : Std.HashMap Bytes Index) (entries : List (Index × Constant)) (key : Bytes) :
    (nameAll known entries)[key]? =
      known[key]?.or ((entries.find? fun entry => entry.2.bytes = key).map Prod.fst) := by
  induction entries generalizing known with
  | nil => simp [nameAll]
  | cons entry entries ih =>
    rw [nameAll, List.foldl_cons, ← nameAll, ih, Std.HashMap.getElem?_insertIfNew, List.find?_cons]
    by_cases hkey : entry.2.bytes = key
    · subst hkey
      cases hknown : known[entry.2.bytes]? with
      | none =>
        have hnot : entry.2.bytes ∉ known := by simpa using hknown
        simp [hnot]
      | some index =>
        have hmem : entry.2.bytes ∈ known := by
          rw [Std.HashMap.mem_iff_isSome_getElem?, hknown]
          rfl
        simp [hmem]
    · simp [hkey]

/-- In an increasing list, the first entry with a property comes before all entries with it. -/
private theorem find?_least {entries : List (Index × Constant)} (h : entries.Pairwise fun a b => a.1 < b.1)
    (wanted : Index × Constant → Bool) {entry : Index × Constant} (hmem : entry ∈ entries)
    (hwanted : wanted entry = true) :
    ∃ found, entries.find? wanted = some found ∧ found.1 ≤ entry.1 := by
  induction entries with
  | nil => cases hmem
  | cons head tail ih =>
    rw [List.pairwise_cons] at h
    by_cases hhead : wanted head = true
    · refine ⟨head, List.find?_cons_of_pos hhead, ?_⟩
      rcases List.mem_cons.1 hmem with rfl | htail
      · exact UInt16.le_refl _
      · exact UInt16.le_of_lt (h.1 entry htail)
    · rcases List.mem_cons.1 hmem with rfl | htail
      · exact absurd hwanted hhead
      · obtain ⟨found, hfound, hle⟩ := ih h.2 htail
        exact ⟨found, by rw [List.find?_cons_of_neg hhead, hfound], hle⟩

theorem sound_ofPool {pool : Pool} (h : pool.WellFormed) : (ofPool pool).Sound := by
  have hlookup : ∀ key, (ofPool pool).firstIndex[key]? =
      (pool.entries.find? fun entry => entry.2.bytes = key).map Prod.fst := by
    intro key
    rw [show (ofPool pool).firstIndex = nameAll ∅ pool.entries from rfl, getElem?_nameAll]
    simp
  refine ⟨h, ?_, ?_⟩
  · intro key index hindex
    rw [hlookup, Option.map_eq_some_iff] at hindex
    obtain ⟨⟨index, constant⟩, hfind, rfl⟩ := hindex
    exact ⟨constant, h.mem_entries_iff.1 (List.mem_of_find?_eq_some hfind), by simpa using List.find?_some hfind⟩
  · intro index constant hget
    obtain ⟨found, hfind, hle⟩ := find?_least h.entries_increasing (fun entry => entry.2.bytes = constant.bytes)
      (h.mem_entries_iff.2 hget) (by simp)
    exact ⟨found.1, by rw [hlookup, hfind]; rfl, hle⟩

/-! ### Interning -/

theorem run_intern (constant : Constant) (interner : Interner) :
    (intern constant).run.run interner =
      match interner.firstIndex[constant.bytes]? with
      | some index => (.ok index, interner)
      | none =>
        if interner.pool.hasRoom constant then (.ok (UInt16.ofNat interner.pool.count), interner.add constant)
        else (.error ⟨constant, interner.pool.count⟩, interner) := rfl

/-- What interning a constant does: it finds the bytes, or adds the constant where there is room, or fails. -/
theorem intern_cases (constant : Constant) (interner : Interner) :
    (∃ index, interner.firstIndex[constant.bytes]? = some index ∧
        (intern constant).run.run interner = (.ok index, interner)) ∨
      interner.firstIndex[constant.bytes]? = none ∧
        (interner.pool.hasRoom constant = true ∧
            (intern constant).run.run interner = (.ok (UInt16.ofNat interner.pool.count), interner.add constant) ∨
          interner.pool.hasRoom constant = false ∧
            (intern constant).run.run interner = (.error ⟨constant, interner.pool.count⟩, interner)) := by
  rw [run_intern]
  cases hindex : interner.firstIndex[constant.bytes]? with
  | some index => exact .inl ⟨index, rfl, rfl⟩
  | none =>
    cases hroom : interner.pool.hasRoom constant with
    | true => exact .inr ⟨rfl, .inl ⟨rfl, rfl⟩⟩
    | false => exact .inr ⟨rfl, .inr ⟨rfl, rfl⟩⟩

theorem unchanged_of_error {constant : Constant} {interner after : Interner} {overflow : PoolOverflow}
    (hrun : (intern constant).run.run interner = (.error overflow, after)) : after = interner := by
  rcases intern_cases constant interner with ⟨_, _, hfound⟩ | ⟨_, ⟨_, hadded⟩ | ⟨_, hfailed⟩⟩
  · rw [hfound] at hrun
    cases hrun
  · rw [hadded] at hrun
    cases hrun
  · rw [hfailed] at hrun
    cases hrun
    rfl

theorem Sound.add {interner : Interner} (h : interner.Sound) {constant : Constant} (hgenuine : constant.Genuine)
    (hnew : interner.firstIndex[constant.bytes]? = none) (hroom : interner.pool.hasRoom constant = true) :
    (interner.add constant).Sound := by
  have hget : ∀ index found, (interner.add constant).pool.get index = .ok found ↔
      interner.pool.get index = .ok found ∨ index = UInt16.ofNat interner.pool.count ∧ found = constant :=
    fun _ _ => h.pool.get_push_iff hgenuine hroom
  have hlookup : ∀ key, (interner.add constant).firstIndex[key]? =
      if constant.bytes = key then some (UInt16.ofNat interner.pool.count) else interner.firstIndex[key]? := by
    intro key
    rw [Interner.add, Std.HashMap.getElem?_insert]
    simp only [beq_iff_eq]
  refine ⟨h.pool.push hgenuine hroom, ?_, ?_⟩
  · intro key index hindex
    rw [hlookup] at hindex
    split at hindex
    · rename_i hkey
      cases hindex
      exact ⟨constant, (hget _ _).2 (.inr ⟨rfl, rfl⟩), hkey⟩
    · obtain ⟨found, hfound, hkey⟩ := h.named key index hindex
      exact ⟨found, (hget _ _).2 (.inl hfound), hkey⟩
  · intro index found hfound
    rw [hlookup]
    rcases (hget _ _).1 hfound with hold | ⟨rfl, rfl⟩
    · obtain ⟨least, hleast, hle⟩ := h.first index found hold
      -- the bytes of an old entry have a name, those of the new one had none
      have hne : constant.bytes ≠ found.bytes := by
        intro heq
        rw [heq, hleast] at hnew
        cases hnew
      exact ⟨least, by rw [if_neg hne, hleast], hle⟩
    · exact ⟨_, if_pos rfl, UInt16.le_refl _⟩

/-- Interning a genuine constant keeps an interner sound and its entries in place, and gives an index that leads to the
constant. -/
theorem Sound.intern {interner : Interner} (h : interner.Sound) {constant : Constant} (hgenuine : constant.Genuine)
    {outcome : Except PoolOverflow Index} {after : Interner}
    (hrun : (Interner.intern constant).run.run interner = (outcome, after)) :
    after.Sound ∧ after.pool.Extends interner.pool ∧
      ∀ index, outcome = .ok index → after.pool.get index = .ok constant := by
  rcases intern_cases constant interner with ⟨known, hknown, hfound⟩ | ⟨hnew, ⟨hroom, hadded⟩ | ⟨hfull, hfailed⟩⟩
  · rw [hfound] at hrun
    cases hrun
    refine ⟨h, .refl _, fun index hindex => ?_⟩
    cases hindex
    obtain ⟨found, hget, hbytes⟩ := h.named _ _ hknown
    rwa [Constant.eq_of_bytes (h.pool.genuine hget) hgenuine hbytes] at hget
  · rw [hadded] at hrun
    cases hrun
    refine ⟨h.add hgenuine hnew hroom, Pool.extends_push _ _, fun index hindex => ?_⟩
    cases hindex
    exact (h.pool.get_push_iff hgenuine hroom).2 (.inr ⟨rfl, rfl⟩)
  · rw [hfailed] at hrun
    cases hrun
    exact ⟨h, .refl _, fun index hindex => by cases hindex⟩

/-- After a constant has been interned, the table names the index that was given. -/
theorem firstIndex_of_intern {interner after : Interner} {constant : Constant} {index : Index}
    (hrun : (Interner.intern constant).run.run interner = (.ok index, after)) :
    after.firstIndex[constant.bytes]? = some index := by
  rcases intern_cases constant interner with ⟨known, hknown, hfound⟩ | ⟨-, ⟨-, hadded⟩ | ⟨-, hfailed⟩⟩
  · rw [hfound] at hrun
    cases hrun
    exact hknown
  · rw [hadded] at hrun
    cases hrun
    exact Std.HashMap.getElem?_insert_self
  · rw [hfailed] at hrun
    cases hrun

/-- The first index with certain bytes stays the first in every extension of the pool. -/
theorem Sound.firstIndex_of_extends {interner larger : Interner} (h : interner.Sound) (hlarger : larger.Sound)
    (hextends : larger.pool.Extends interner.pool) {key : Bytes} {index : Index}
    (hindex : interner.firstIndex[key]? = some index) : larger.firstIndex[key]? = some index := by
  obtain ⟨constant, hget, rfl⟩ := h.named key index hindex
  obtain ⟨least, hleast, hle⟩ := hlarger.first index constant (hextends.get hlarger.pool h.pool hget)
  obtain ⟨found, hfound, hbytes⟩ := hlarger.named _ _ hleast
  -- An earlier entry with these bytes would have been in the pool, and been the first there.
  have hold := hextends.get_of_le hlarger.pool h.pool hget hfound hle
  obtain ⟨first, hfirst, hle'⟩ := h.first least found hold
  rw [hbytes, hindex] at hfirst
  cases hfirst
  rw [hleast, UInt16.le_antisymm hle hle']

/-- Interning a constant that can be stored leaves a pool of such constants. -/
theorem storable_of_intern {interner after : Interner} (h : interner.pool.Storable) {constant : Constant}
    (hconstant : constant.Storable) {outcome : Except PoolOverflow Index}
    (hrun : (Interner.intern constant).run.run interner = (outcome, after)) : after.pool.Storable := by
  rcases intern_cases constant interner with ⟨_, _, hfound⟩ | ⟨_, ⟨_, hadded⟩ | ⟨_, hfailed⟩⟩
  · rw [hfound] at hrun
    cases hrun
    exact h
  · rw [hadded] at hrun
    cases hrun
    exact Pool.storable_push_iff.2 ⟨h, hconstant⟩
  · rw [hfailed] at hrun
    cases hrun
    exact h

/-- Interns constants one after the other, passing over those for which there is no room. -/
def internAll (constants : List Constant) (interner : Interner) : Interner :=
  constants.foldl (fun interner constant => ((Interner.intern constant).run.run interner).2) interner

theorem Sound.internAll {interner : Interner} (h : interner.Sound) {constants : List Constant}
    (hgenuine : ∀ constant ∈ constants, constant.Genuine) :
    (interner.internAll constants).Sound ∧ (interner.internAll constants).pool.Extends interner.pool := by
  induction constants generalizing interner with
  | nil => exact ⟨h, .refl _⟩
  | cons constant constants ih =>
    obtain ⟨hafter, hextends, -⟩ := h.intern (hgenuine constant List.mem_cons_self) rfl
    obtain ⟨hlast, hextends'⟩ := ih hafter fun c hc => hgenuine c (List.mem_cons_of_mem _ hc)
    exact ⟨hlast, hextends'.trans hextends⟩

end ClassGraft.Interner

namespace ClassGraft.Pool

/-- Pools that are read, or that an interner makes of others. -/
inductive Made : Pool → Prop
  | empty : Made .empty
  | parsed {input rest : Bytes} {pool : Pool} (h : Pool.read input = .ok (pool, rest)) : Made pool
  | interned {pool : Pool} (h : Made pool) {constants : List Constant}
      (hgenuine : ∀ constant ∈ constants, constant.Genuine) : Made ((Interner.ofPool pool).internAll constants).pool

theorem Made.wellFormed {pool : Pool} (h : pool.Made) : pool.WellFormed := by
  induction h with
  | empty => exact .empty
  | parsed h => exact (read_eq_ok_iff.1 h).1
  | interned _ hgenuine ih => exact ((Interner.sound_ofPool ih).internAll hgenuine).1.pool

theorem WellFormed.made {pool : Pool} (h : pool.WellFormed) (hstorable : pool.Storable) : pool.Made :=
  .parsed (h.read_bytes hstorable [])

end ClassGraft.Pool
