import ClassGraft.OffsetTable

/-!
# Lookups in offset tables

In a table whose offsets increase strictly, bisection ends at the last element whose offset does not exceed the one
asked for (`lastUpTo_spec`), so a lookup finds exactly the elements that were put into the table, each at its own
offset (`get?_eq_some_iff`).
-/

namespace ClassGraft.OffsetTable

variable {α : Type}

/-- The offsets of the elements increase strictly and stay below the offset of the next one. -/
structure Ordered (table : OffsetTable α) : Prop where
  increasing : table.toList.Pairwise fun a b => a.1 < b.1
  below_next : ∀ entry ∈ table.toList, entry.1 < table.next

@[simp]
theorem toList_startingAt (start : Nat) : (startingAt start : OffsetTable α).toList = [] := rfl

@[simp]
theorem toList_push (table : OffsetTable α) (width : Nat) (a : α) :
    (table.push width a).toList = table.toList ++ [(table.next, a)] := by
  simp [toList, push]

theorem ordered_startingAt (start : Nat) : (startingAt start : OffsetTable α).Ordered := by
  constructor <;> simp

/-- Adding an element that takes up space keeps a table ordered. -/
theorem Ordered.push {table : OffsetTable α} (h : table.Ordered) {width : Nat} (hwidth : 0 < width) (a : α) :
    (table.push width a).Ordered := by
  constructor
  · rw [toList_push, List.pairwise_append]
    refine ⟨h.increasing, List.pairwise_singleton _ _, ?_⟩
    intro entry hentry last hlast
    obtain rfl := List.mem_singleton.1 hlast
    exact h.below_next entry hentry
  · intro entry hentry
    rw [toList_push, List.mem_append, List.mem_singleton] at hentry
    show entry.1 < table.next + width
    rcases hentry with hentry | rfl
    · have := h.below_next entry hentry
      omega
    · show table.next < table.next + width
      omega

private theorem Ordered.lt_of_lt {table : OffsetTable α} (h : table.Ordered) {i j : Nat} {a b : Nat × α}
    (hij : i < j) (ha : table.entries[i]? = some a) (hb : table.entries[j]? = some b) : a.1 < b.1 := by
  rw [← Array.getElem?_toList] at ha hb
  obtain ⟨hi, rfl⟩ := List.getElem?_eq_some_iff.1 ha
  obtain ⟨hj, rfl⟩ := List.getElem?_eq_some_iff.1 hb
  exact List.pairwise_iff_getElem.1 h.increasing i j hi hj hij

private theorem isSome_entryUpTo?_iff {table : OffsetTable α} {offset position : Nat} :
    (table.entryUpTo? offset position).isSome ↔
      ∃ entry, table.entries[position]? = some entry ∧ entry.1 ≤ offset := by
  rw [entryUpTo?, Option.isSome_iff_exists]
  simp only [Option.filter_eq_some_iff, decide_eq_true_eq]

/-- What bisection ends with: a position of its range that is its start or holds an offset up to the one asked for,
while all later positions of the range are past it. -/
structure IsLastUpTo (table : OffsetTable α) (offset base count last : Nat) : Prop where
  lower : base ≤ last
  upper : last ≤ base + count
  reached : last = base ∨ ∃ entry, table.entries[last]? = some entry ∧ entry.1 ≤ offset
  past : ∀ position entry, last < position → position ≤ base + count →
    table.entries[position]? = some entry → offset < entry.1

theorem lastUpTo_spec {table : OffsetTable α} (h : table.Ordered) (offset base count : Nat) :
    table.IsLastUpTo offset base count (table.lastUpTo offset base count) := by
  induction count using Nat.strongRecOn generalizing base with
  | ind count ih =>
    rw [lastUpTo]
    split
    · rename_i hcount
      refine ⟨Nat.le_refl _, Nat.le_add_right _ _, .inl rfl, ?_⟩
      intro position entry hlt hle
      omega
    rename_i hcount
    dsimp only
    split
    · rename_i hmiddle
      have inner := ih (count - (count + 1) / 2) (by omega) (base + (count + 1) / 2)
      have hlower := inner.lower
      have hupper := inner.upper
      refine ⟨by omega, by omega, .inr ?_, ?_⟩
      · rcases inner.reached with hstart | hreached
        · rw [hstart]
          exact isSome_entryUpTo?_iff.1 hmiddle
        · exact hreached
      · intro position entry hlt hle
        exact inner.past position entry hlt (by omega)
    · rename_i hmiddle
      have inner := ih ((count + 1) / 2 - 1) (by omega) base
      have hupper := inner.upper
      refine ⟨inner.lower, by omega, inner.reached, ?_⟩
      intro position entry hlt hle hentry
      by_cases hbefore : position ≤ base + ((count + 1) / 2 - 1)
      · exact inner.past position entry hlt hbefore hentry
      -- the middle entry is past the offset already, and later ones are further on
      rw [isSome_entryUpTo?_iff] at hmiddle
      obtain ⟨hsize, -⟩ := Array.getElem?_eq_some_iff.1 hentry
      have hmid := Array.getElem?_eq_getElem
        (show base + (count + 1) / 2 < table.entries.size by omega)
      have hgt := Nat.lt_of_not_le fun hle => hmiddle ⟨_, hmid, hle⟩
      by_cases hat : position = base + (count + 1) / 2
      · rw [hat, hmid, Option.some.injEq] at hentry
        rwa [hentry] at hgt
      · exact Nat.lt_trans hgt (h.lt_of_lt (by omega) hmid hentry)

/-- A lookup finds the element that stands at the offset, and nothing at any other offset. -/
theorem get?_eq_some_iff {table : OffsetTable α} (h : table.Ordered) {offset : Nat} {a : α} :
    table.get? offset = some a ↔ (offset, a) ∈ table.toList := by
  constructor
  · intro hget
    unfold get? at hget
    split at hget
    · rename_i entry hentry
      split at hget
      · rename_i hoffset
        obtain rfl := Option.some.inj hget
        rw [← hoffset]
        exact Array.mem_toList_iff.2 (Array.mem_of_getElem? hentry)
      · cases hget
    · cases hget
  · intro hmem
    obtain ⟨position, hposition⟩ := List.mem_iff_getElem?.1 hmem
    rw [toList, Array.getElem?_toList] at hposition
    obtain ⟨hsize, -⟩ := Array.getElem?_eq_some_iff.1 hposition
    have last := lastUpTo_spec h offset 0 (table.size - 1)
    have hupper := last.upper
    have hsize' : table.size = table.entries.size := rfl
    have hle : position ≤ table.lastUpTo offset 0 (table.size - 1) := by
      refine Nat.le_of_not_lt fun hlt => ?_
      exact Nat.lt_irrefl offset (last.past position _ hlt (by omega) hposition)
    have hge : table.lastUpTo offset 0 (table.size - 1) ≤ position := by
      rcases last.reached with hstart | ⟨entry, hentry, hoffset⟩
      · omega
      · refine Nat.le_of_not_lt fun hlt => ?_
        exact Nat.not_lt.2 hoffset (h.lt_of_lt hlt hposition hentry)
    rw [get?, Nat.le_antisymm hge hle, hposition]
    exact if_pos rfl

end ClassGraft.OffsetTable
