import ClassGraft.Proofs.OffsetTable.Calls
import ClassGraft.Proofs.Pool.Interning

/-!
# Indices of constant pools

The table of a pool holds its constants with the numbers of indices that they take up (`WellFormed.holds`), and all its
offsets fit into an index.  So what is known of lookups in tables tells which indices of a pool lead nowhere: zero, the
second index of an eight-byte literal, and those from the next index on (`WellFormed.get_eq_error_iff`).  Every other
index leads to the one entry that is listed with it (`lookup_by_widths`).
-/

namespace ClassGraft.Pool

open OffsetTable (Stands Inside totalWidth)

/-- The constants of a pool, in order, with the numbers of indices that they take up. -/
def sized (pool : Pool) : List (Nat × Constant) := pool.table.toList.map fun (_, constant) => (constant.width, constant)

/-- The second of the two indices that an eight-byte literal takes up. -/
def IsSecondIndex (pool : Pool) (index : Index) : Prop :=
  ∃ first literal, (first, literal) ∈ pool.entries ∧
    ((∃ value, literal = .long value) ∨ ∃ bits, literal = .double bits) ∧ index.toNat = first.toNat + 1

/-- An index with which no entry is listed: zero, the second index of a literal, or one that no entry has reached. -/
def LeadsNowhere (pool : Pool) (index : Index) : Prop :=
  index = 0 ∨ pool.IsSecondIndex index ∨ pool.count ≤ index.toNat

theorem sized_push (pool : Pool) (constant : Constant) :
    (pool.push constant).sized = pool.sized ++ [(constant.width, constant)] := by
  rw [sized, toList_push, List.map_append]
  rfl

theorem width_of_mem_sized {pool : Pool} {width : Nat} {constant : Constant} (h : (width, constant) ∈ pool.sized) :
    width = constant.width := by
  obtain ⟨_, -, heq⟩ := List.mem_map.1 h
  cases heq
  rfl

namespace WellFormed

variable {pool : Pool} {index : Index}

/-- The table of a pool holds its constants, from index one on. -/
theorem holds (h : pool.WellFormed) : pool.table.Holds 1 pool.sized := by
  induction h with
  | empty => exact OffsetTable.holds_startingAt 1
  | @push pool constant _ _ _ ih =>
    rw [sized_push]
    exact ih.push constant.width_pos constant

/-- The entries are listed with the offsets at which they stand. -/
theorem mem_entries_iff_stands (h : pool.WellFormed) {constant : Constant} :
    (index, constant) ∈ pool.entries ↔ Stands 1 pool.sized index.toNat constant.width constant := by
  rw [h.mem_entries_iff, h.get_eq_ok_iff, h.holds.mem_iff]
  constructor
  · rintro ⟨width, hstands⟩
    rwa [← width_of_mem_sized hstands.mem]
  · exact fun hstands => ⟨_, hstands⟩

/-- Only eight-byte literals are wide, and they take up just one more index. -/
theorem inside_iff (h : pool.WellFormed) : Inside 1 pool.sized index.toNat ↔ pool.IsSecondIndex index := by
  constructor
  · rintro ⟨first, width, constant, hstands, hbehind, hend⟩
    have hword : (UInt16.ofNat first).toNat = first :=
      UInt16.toNat_ofNat_of_lt' (Nat.lt_trans hbehind index.toNat_lt)
    obtain rfl := width_of_mem_sized hstands.mem
    have hwidth := constant.width_le_two
    refine ⟨UInt16.ofNat first, constant, ?_, Constant.width_eq_two_iff.1 (by omega), by omega⟩
    rw [h.mem_entries_iff_stands, hword]
    exact hstands
  · rintro ⟨first, literal, hmem, hliteral, hindex⟩
    have hwidth := Constant.width_eq_two_iff.2 hliteral
    exact ⟨first.toNat, literal.width, literal, h.mem_entries_iff_stands.1 hmem, by omega, by omega⟩

/-- The indices that lead nowhere. -/
theorem get_eq_error_iff (h : pool.WellFormed) :
    pool.get index = .error (.outOfRange index) ↔ pool.LeadsNowhere index := by
  have hcount : pool.count = 1 + totalWidth pool.sized := h.holds.next_eq
  have hzero : index.toNat < 1 ↔ index = 0 := by
    rw [Nat.lt_one_iff, ← UInt16.toNat_inj]
    rfl
  rw [LeadsNowhere, hcount, ← hzero, ← h.inside_iff, ← (h.holds.finds index.toNat).nothing, Pool.get]
  cases pool.table.get? index.toNat <;> simp

/-- Every other index leads to an entry. -/
theorem exists_get (h : pool.WellFormed) (hleads : ¬pool.LeadsNowhere index) :
    ∃ constant, pool.get index = .ok constant := by
  rw [← h.get_eq_error_iff, Pool.get] at hleads
  cases hfound : pool.table.get? index.toNat with
  | none =>
    rw [hfound] at hleads
    exact absurd rfl hleads
  | some constant => exact ⟨constant, by rw [Pool.get, hfound]⟩

end WellFormed

/-- Calls that add elements of any widths from one on to a table, and look offsets up in between, are all answered: a new
element gets the start plus the widths of the elements before it, and a lookup finds exactly the element that stands at
the offset, and nothing before the start, inside a wide element and from the end on.  The offsets that the table lists
increase strictly.  In words of 64 bits the answers are the same, as long as the offset after the last element fits.

In a pool, which is such a table, exactly index zero, the second index of an eight-byte literal and the indices from the
next one on are out of range.  Every other index leads to the one entry that is listed with it. -/
theorem lookup_by_widths {α : Type} (start : Nat) {calls : List (OffsetTable.Call α)}
    (hwidths : ∀ width a, .push width a ∈ calls → 1 ≤ width) {pool : Pool} (hpool : pool.Made) :
    (∃ answers table, OffsetTable.performAll calls (.startingAt start) = (answers, table) ∧
      answers.map Prod.fst = calls ∧ OffsetTable.AnsweredAll start [] answers ∧
      table.toList.Pairwise (fun a b => a.1 < b.1) ∧
      (∀ offset a, (offset, a) ∈ table.toList ↔ ∃ width, Stands start (OffsetTable.added calls) offset width a) ∧
      table.next = start + totalWidth (OffsetTable.added calls) ∧
      (table.next < 2 ^ 64 → OffsetTable.performAllInWords calls (.startingAt start) = some (answers, table))) ∧
    pool.entries.Pairwise (fun a b => a.1 < b.1) ∧
    ∀ index, (pool.get index = .error (.outOfRange index) ↔ pool.LeadsNowhere index) ∧
      (¬pool.LeadsNowhere index → ∃ constant, pool.get index = .ok constant ∧
        ∀ other, (index, other) ∈ pool.entries ↔ other = constant) := by
  have hadded : ∀ call ∈ calls, ∀ element ∈ call.added, 1 ≤ element.1 := by
    rintro (⟨width, a⟩ | offset) hmem element helement
    · obtain rfl := List.mem_singleton.1 helement
      exact hwidths width a hmem
    · cases helement
  have hwellFormed := hpool.wellFormed
  obtain ⟨hanswers, hholds⟩ := (OffsetTable.holds_startingAt start).performAll hadded
  refine ⟨⟨_, _, rfl, OffsetTable.map_fst_performAll _ _, hanswers, hholds.ordered.increasing, hholds.mem_iff,
    hholds.next_eq, fun hfits => ?_⟩, hwellFormed.entries_increasing, fun index => ⟨hwellFormed.get_eq_error_iff, ?_⟩⟩
  · rw [hholds.next_eq] at hfits
    exact OffsetTable.performAllInWords_eq hfits
  · intro hleads
    obtain ⟨constant, hget⟩ := hwellFormed.exists_get hleads
    refine ⟨constant, hget, fun other => ?_⟩
    rw [hwellFormed.mem_entries_iff, hget, Except.ok.injEq, eq_comm]

/-- Calls that add a wide element between two others and look up offsets in all parts of the table. -/
def wideCalls : List (OffsetTable.Call Char) :=
  [.push 1 'a', .lookup 6, .push 2 'b', .lookup 6, .lookup 7, .push 1 'c', .lookup 8, .lookup 9, .lookup 4]

/-- A pool with an eight-byte literal in front of another literal. -/
def widePool : Pool := (Pool.empty.push (.long 7)).push (.integer 5)

theorem widePool_made : widePool.Made := by
  have hwellFormed : widePool.WellFormed :=
    .push (.push .empty trivial (by decide +kernel)) trivial (by decide +kernel)
  refine hwellFormed.made (storable_push_iff.2 ⟨storable_push_iff.2 ⟨fun _ hmem => ?_, trivial⟩, trivial⟩)
  cases hmem

/-- The answers of a table that starts at offset five, where nothing is found inside the wide element; in a pool the
second index of the literal is out of range, and the next one leads to the other literal. -/
theorem lookup_by_widths_wide :
    (∀ width a, .push width a ∈ wideCalls → 1 ≤ width) ∧ widePool.Made ∧
      OffsetTable.AnsweredAll 5 [] [(.push 1 'a', .placed 5), (.lookup 6, .found none), (.push 2 'b', .placed 6),
        (.lookup 6, .found (some 'b')), (.lookup 7, .found none), (.push 1 'c', .placed 8),
        (.lookup 8, .found (some 'c')), (.lookup 9, .found none), (.lookup 4, .found none)] ∧
      widePool.get 2 = .error (.outOfRange 2) ∧ widePool.get 3 = .ok (.integer 5) := by
  have hwidths : ∀ width a, .push width a ∈ wideCalls → 1 ≤ width := by
    intro width a hmem
    simp only [wideCalls, List.mem_cons, OffsetTable.Call.push.injEq, reduceCtorEq, List.not_mem_nil, false_or,
      or_false] at hmem
    rcases hmem with ⟨rfl, -⟩ | ⟨rfl, -⟩ | ⟨rfl, -⟩ <;> decide
  obtain ⟨⟨answers, table, hrun, -, hanswers, -⟩, -, hindices⟩ := lookup_by_widths 5 hwidths widePool_made
  have hthree : ¬widePool.LeadsNowhere 3 := by
    rw [← (hindices 3).1]
    decide +kernel
  obtain ⟨constant, hget, honly⟩ := (hindices 3).2 hthree
  obtain rfl := (honly (.integer 5)).1 (by decide +kernel)
  refine ⟨hwidths, widePool_made, ?_, (hindices 2).1.2 (.inr (.inl ⟨1, .long 7, ?_, .inl ⟨7, rfl⟩, rfl⟩)), hget⟩
  · obtain rfl : (OffsetTable.performAll wideCalls (.startingAt 5)).1 = answers := congrArg Prod.fst hrun
    convert hanswers using 1
    decide +kernel
  · decide +kernel

end ClassGraft.Pool
