import ClassGraft.Proofs.Pool.Answers
import ClassGraft.Proofs.Pool.References
import Mathlib.Data.List.Nodup
import Mathlib.Data.Set.Basic

/-!
# Adding what is missing

What an interner has added to a pool stands at its end, and is none of it twice: neither among itself nor with the
entries that were there (`Interner.AddsMissing`).  When each constant is interned after what it refers to, nothing is
added in vain either: every entry was there or is reached from the indices that were asked for (`Pool.GrownFrom`).
-/

namespace ClassGraft

/-- The indices that a constant refers to. -/
def Constant.targets (constant : Constant) : Set Index := {index | ∃ expected, (expected, index) ∈ constant.references}

namespace Pool

theorem entries_push (pool : Pool) (constant : Constant) :
    (pool.push constant).entries = pool.entries ++ [(UInt16.ofNat pool.count, constant)] := by
  rw [entries, toList_push, List.map_append]
  rfl

/-- What is reached stays so in an extension. -/
theorem Extends.reaches {larger pool : Pool} (h : larger.Extends pool) (hlarger : larger.WellFormed)
    (hpool : pool.WellFormed) {index next : Index} (hreaches : pool.Reaches index next) :
    larger.Reaches index next := by
  have hrefers : pool.Refers ≤ larger.Refers := fun _ _ ⟨constant, expected, hget, hmem⟩ =>
    ⟨constant, expected, h.get hlarger hpool hget, hmem⟩
  exact Relation.ReflTransGen.mono hrefers _ _ hreaches

/-- Every entry of a pool was in an older one, or is reached from one of certain indices. -/
def GrownFrom (pool old : Pool) (roots : Set Index) : Prop :=
  ∀ index constant, pool.get index = .ok constant →
    old.get index = .ok constant ∨ ∃ root ∈ roots, pool.Reaches root index

theorem GrownFrom.refl (pool : Pool) : pool.GrownFrom pool ∅ := fun _ _ hget => .inl hget

theorem GrownFrom.mono {pool old : Pool} {roots roots' : Set Index} (h : pool.GrownFrom old roots)
    (hsubset : roots ⊆ roots') : pool.GrownFrom old roots' := by
  intro index constant hget
  rcases h index constant hget with hold | ⟨root, hroot, hreaches⟩
  · exact .inl hold
  · exact .inr ⟨root, hsubset hroot, hreaches⟩

end Pool

namespace Interner

/-- What an interner has added to a pool: entries at its end, which it has counted, all with different bytes, and none
with the bytes of an entry that was there. -/
def AddsMissing (interner : Interner) (pool : Pool) : Prop :=
  ∃ appended, interner.pool.entries = pool.entries ++ appended ∧ interner.added = appended.length ∧
    (appended.map fun new => new.2.bytes).Nodup ∧
    ∀ new ∈ appended, ∀ old ∈ pool.entries, old.2.bytes ≠ new.2.bytes

theorem addsMissing_ofPool (pool : Pool) : (ofPool pool).AddsMissing pool :=
  ⟨[], (List.append_nil _).symm, rfl, List.nodup_nil, fun _ hmem => absurd hmem List.not_mem_nil⟩

variable {interner after : Interner} {constant : Constant} {outcome : Except PoolOverflow Index}

/-- A constant is added only when its bytes are missing. -/
theorem Sound.addsMissing_intern (h : interner.Sound) {pool : Pool} (hadds : interner.AddsMissing pool)
    (hrun : (Interner.intern constant).run.run interner = (outcome, after)) : after.AddsMissing pool := by
  obtain ⟨appended, hentries, hcount, hnodup, hdifferent⟩ := hadds
  cases h.answered hrun with
  | known _ | refused _ _ => exact ⟨appended, hentries, hcount, hnodup, hdifferent⟩
  | added hlacks _ _ hpool hadded =>
    have hnew : ∀ entry ∈ interner.pool.entries, entry.2.bytes ≠ constant.bytes :=
      fun entry hmem => hlacks entry.1 entry.2 (h.pool.mem_entries_iff.1 hmem)
    rw [hentries] at hnew
    refine ⟨appended ++ [(UInt16.ofNat interner.pool.count, constant)], ?_, ?_, ?_, fun new hmem old hold => ?_⟩
    · rw [hpool, Pool.entries_push, hentries, List.append_assoc]
    · rw [hadded, hcount, List.length_append, List.length_singleton]
    · rw [List.map_append, List.nodup_append]
      refine ⟨hnodup, List.nodup_singleton _, fun key hkey last hlast => ?_⟩
      obtain ⟨entry, hentry, rfl⟩ := List.mem_map.1 hkey
      rw [List.mem_singleton.1 hlast]
      exact hnew entry (List.mem_append_right _ hentry)
    · rcases List.mem_append.1 hmem with hmem | hlast
      · exact hdifferent new hmem old hold
      · rw [List.mem_singleton.1 hlast]
        exact hnew old (List.mem_append_left _ hold)

/-- After a constant has been interned, an index leads to what it led to before, or is the one that was given. -/
theorem Sound.get_of_intern (h : interner.Sound) (hgenuine : constant.Genuine) {place : Index}
    (hrun : (Interner.intern constant).run.run interner = (.ok place, after)) {index : Index} {found : Constant}
    (hget : after.pool.get index = .ok found) : interner.pool.get index = .ok found ∨ index = place := by
  cases h.answered hrun with
  | known _ => exact .inl hget
  | added _ hroom hplace hpool _ =>
    rw [hpool, h.pool.get_push_iff hgenuine (Pool.hasRoom_iff.2 hroom)] at hget
    refine hget.imp_right fun ⟨hindex, _⟩ => ?_
    rw [hindex, ← hplace, UInt16.ofNat_toNat]

/-- When a pool has grown from what a constant refers to, it grows from the constant when this is interned. -/
theorem Sound.grownFrom_intern (h : interner.Sound) (hgenuine : constant.Genuine) {place : Index}
    (hrun : (Interner.intern constant).run.run interner = (.ok place, after)) {old : Pool} {roots : Set Index}
    (hgrown : interner.pool.GrownFrom old (roots ∪ constant.targets)) :
    after.pool.GrownFrom old (roots ∪ {place}) := by
  obtain ⟨hafter, hextends, hplace⟩ := h.intern hgenuine hrun
  intro index found hget
  rcases h.get_of_intern hgenuine hrun hget with hbefore | rfl
  · refine (hgrown index found hbefore).imp_right ?_
    rintro ⟨root, hroot | ⟨expected, hmem⟩, hreaches⟩
    · exact ⟨root, .inl hroot, hextends.reaches hafter.pool h.pool hreaches⟩
    · exact ⟨place, .inr rfl, .head ⟨constant, expected, hplace place rfl, hmem⟩
        (hextends.reaches hafter.pool h.pool hreaches)⟩
  · exact .inr ⟨index, .inr rfl, .refl⟩

end Interner

end ClassGraft
