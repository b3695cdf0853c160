import ClassGraft.Proofs.OffsetTable
import Mathlib.Algebra.Group.Nat.Defs
import Mathlib.Data.List.Induction

/-!
# Calls on offset tables

A table takes elements, each of some width, and is asked in between for the element at an offset.  An element stands at
the start plus the widths of the elements pushed before it (`Stands`).  Elements lie one behind the other and leave no
gap (`Stands.end_le`, `exists_stands`), so an offset at which none stands is before the start, inside an element or past
the end (`not_stands_iff`).

A table holds the elements that were pushed and nothing else (`Holds`).  Every call keeps this and is answered as the
elements pushed so far say (`Holds.perform`), and so are all calls of a sequence (`Holds.performAll`).  Offsets have no
bound here; computed in words of 64 bits they are the same, as long as the offset after the last element fits into a word
(`performAllInWords_eq`).
-/

namespace ClassGraft.OffsetTable

variable {α : Type}

/-! ### Where elements stand -/

/-- The sum of the widths of some elements. -/
def totalWidth : List (Nat × α) → Nat
  | [] => 0
  | (width, _) :: pushed => width + totalWidth pushed

/-- An element of some width that was pushed stands at an offset: the start and the widths of all elements before it. -/
def Stands (start : Nat) (pushed : List (Nat × α)) (offset width : Nat) (a : α) : Prop :=
  ∃ before after, pushed = before ++ (width, a) :: after ∧ offset = start + totalWidth before

/-- An offset that a wide element takes up behind its own. -/
def Inside (start : Nat) (pushed : List (Nat × α)) (offset : Nat) : Prop :=
  ∃ first width a, Stands start pushed first width a ∧ first < offset ∧ offset < first + width

section Elements

variable {start offset width : Nat} {pushed : List (Nat × α)} {a : α}

@[simp]
theorem totalWidth_nil : totalWidth ([] : List (Nat × α)) = 0 := rfl

@[simp]
theorem totalWidth_cons (element : Nat × α) (pushed : List (Nat × α)) :
    totalWidth (element :: pushed) = element.1 + totalWidth pushed := rfl

@[simp]
theorem totalWidth_append (pushed more : List (Nat × α)) :
    totalWidth (pushed ++ more) = totalWidth pushed + totalWidth more := by
  induction pushed with
  | nil => exact (Nat.zero_add _).symm
  | cons element pushed ih => rw [List.cons_append, totalWidth_cons, totalWidth_cons, ih, Nat.add_assoc]

theorem not_stands_nil : ¬Stands start [] offset width a := by
  rintro ⟨before, after, heq, -⟩
  exact List.append_ne_nil_of_right_ne_nil before (List.cons_ne_nil _ after) heq.symm

/-- With one more element, the old ones stand where they stood and the new one behind them. -/
theorem stands_append_iff {newWidth : Nat} {new : α} :
    Stands start (pushed ++ [(newWidth, new)]) offset width a ↔
      Stands start pushed offset width a ∨ offset = start + totalWidth pushed ∧ width = newWidth ∧ a = new := by
  constructor
  · rintro ⟨before, after, heq, rfl⟩
    rcases after.eq_nil_or_concat with rfl | ⟨inner, last, rfl⟩
    · obtain ⟨rfl, hlast⟩ := List.append_inj' heq rfl
      cases hlast
      exact .inr ⟨rfl, rfl, rfl⟩
    · rw [List.concat_eq_append, ← List.cons_append, ← List.append_assoc] at heq
      obtain ⟨rfl, -⟩ := List.append_inj' heq rfl
      exact .inl ⟨before, inner, rfl, rfl⟩
  · rintro (⟨before, after, rfl, rfl⟩ | ⟨rfl, rfl, rfl⟩)
    · exact ⟨before, after ++ [(newWidth, new)], by rw [List.append_assoc, List.cons_append], rfl⟩
    · exact ⟨pushed, [], rfl, rfl⟩

theorem Stands.mem (h : Stands start pushed offset width a) : (width, a) ∈ pushed := by
  obtain ⟨before, after, rfl, -⟩ := h
  exact List.mem_append_right _ List.mem_cons_self

theorem Stands.bounds (h : Stands start pushed offset width a) :
    start ≤ offset ∧ offset + width ≤ start + totalWidth pushed := by
  obtain ⟨before, after, rfl, rfl⟩ := h
  rw [totalWidth_append, totalWidth_cons]
  omega

/-- An element ends before the elements that stand behind it. -/
theorem Stands.end_le {first second other : Nat} {b : α} (h : Stands start pushed first width a)
    (h' : Stands start pushed second other b) (hlt : first < second) : first + width ≤ second := by
  induction pushed using List.reverseRecOn with
  | nil => exact absurd h not_stands_nil
  | append_singleton pushed last ih =>
    rcases stands_append_iff.1 h with hold | ⟨hfirst, -, -⟩
    · rcases stands_append_iff.1 h' with hold' | ⟨hsecond, -, -⟩
      · exact ih hold hold'
      · rw [hsecond]
        exact hold.bounds.2
    · -- nothing stands behind the last element
      rcases stands_append_iff.1 h' with hold' | ⟨hsecond, -, -⟩
      · have := hold'.bounds.2
        omega
      · omega

/-- Every offset from the start to the end belongs to an element. -/
theorem exists_stands (hlow : start ≤ offset) (hhigh : offset < start + totalWidth pushed) :
    ∃ first width a, Stands start pushed first width a ∧ first ≤ offset ∧ offset < first + width := by
  induction pushed using List.reverseRecOn with
  | nil => exact absurd hhigh (Nat.not_lt.2 hlow)
  | append_singleton pushed last ih =>
    by_cases hold : offset < start + totalWidth pushed
    · obtain ⟨first, width, a, hstands, hfirst, hend⟩ := ih hold
      exact ⟨first, width, a, stands_append_iff.2 (.inl hstands), hfirst, hend⟩
    · refine ⟨_, last.1, last.2, stands_append_iff.2 (.inr ⟨rfl, rfl, rfl⟩), Nat.le_of_not_lt hold, ?_⟩
      rw [totalWidth_append, totalWidth_cons, totalWidth_nil] at hhigh
      omega

/-- The offsets at which no element stands. -/
theorem not_stands_iff (hwidths : ∀ element ∈ pushed, 1 ≤ element.1) :
    (¬∃ width a, Stands start pushed offset width a) ↔
      offset < start ∨ Inside start pushed offset ∨ start + totalWidth pushed ≤ offset := by
  constructor
  · intro hnone
    by_cases hlow : offset < start
    · exact .inl hlow
    by_cases hhigh : start + totalWidth pushed ≤ offset
    · exact .inr (.inr hhigh)
    obtain ⟨first, width, a, hstands, hfirst, hend⟩ := exists_stands (Nat.le_of_not_lt hlow) (Nat.lt_of_not_le hhigh)
    rcases Nat.eq_or_lt_of_le hfirst with rfl | hbehind
    · exact absurd ⟨width, a, hstands⟩ hnone
    · exact .inr (.inl ⟨first, width, a, hstands, hbehind, hend⟩)
  · rintro hgap ⟨width, a, hstands⟩
    have hbounds := hstands.bounds
    have hwidth := hwidths _ hstands.mem
    rcases hgap with hlow | ⟨first, other, b, hother, hfirst, hend⟩ | hhigh
    · omega
    · have := hother.end_le hstands hfirst
      omega
    · omega

end Elements

/-! ### What is asked and answered -/

/-- What a table is called for: to take an element of some width, or for the element at an offset. -/
inductive Call (α : Type) where
  | push (width : Nat) (a : α)
  | lookup (offset : Nat)
deriving DecidableEq

/-- What a table answers: the offset that an element got, or what was found. -/
inductive Answer (α : Type) where
  | placed (offset : Nat)
  | found (element : Option α)
deriving DecidableEq

/-- The element that a call adds, with its width. -/
def Call.added : Call α → List (Nat × α)
  | .push width a => [(width, a)]
  | .lookup _ => []

/-- The answer to a call, and the table after it. -/
def Call.perform : Call α → OffsetTable α → Answer α × OffsetTable α
  | .push width a, table => (.placed table.next, table.push width a)
  | .lookup offset, table => (.found (table.get? offset), table)

/-- The calls with their answers, and the table after them. -/
def performAll : List (Call α) → OffsetTable α → List (Call α × Answer α) × OffsetTable α
  | [], table => ([], table)
  | call :: calls, table =>
    let (answer, next) := call.perform table
    let (answers, after) := performAll calls next
    ((call, answer) :: answers, after)

/-- The elements that calls add, in order, with their widths. -/
def added (calls : List (Call α)) : List (Nat × α) := calls.flatMap Call.added

/-- What a lookup finds among the elements pushed: the element that stands at the offset, and nothing at just those
offsets that are before the start, inside a wide element or not before the end. -/
structure Finds (start : Nat) (pushed : List (Nat × α)) (offset : Nat) (found : Option α) : Prop where
  element : ∀ a, found = some a ↔ ∃ width, Stands start pushed offset width a
  nothing : found = none ↔ offset < start ∨ Inside start pushed offset ∨ start + totalWidth pushed ≤ offset

/-- How a call is answered after certain elements were pushed: a new element is placed behind all of them, and a lookup
tells what is to be found among them. -/
inductive Answered (start : Nat) (pushed : List (Nat × α)) : Call α → Answer α → Prop
  | push (width : Nat) (a : α) : Answered start pushed (.push width a) (.placed (start + totalWidth pushed))
  | lookup {offset : Nat} {found : Option α} (h : Finds start pushed offset found) :
      Answered start pushed (.lookup offset) (.found found)

/-- Calls with their answers, each given after the elements that the calls before it have added. -/
inductive AnsweredAll (start : Nat) : List (Nat × α) → List (Call α × Answer α) → Prop
  | nil (pushed : List (Nat × α)) : AnsweredAll start pushed []
  | cons {pushed : List (Nat × α)} {call : Call α} {answer : Answer α} {answers : List (Call α × Answer α)}
      (hfirst : Answered start pushed call answer) (hrest : AnsweredAll start (pushed ++ call.added) answers) :
      AnsweredAll start pushed ((call, answer) :: answers)

/-- Every call gets one answer. -/
theorem map_fst_performAll (calls : List (Call α)) (table : OffsetTable α) :
    (performAll calls table).1.map Prod.fst = calls := by
  induction calls generalizing table with
  | nil => rfl
  | cons call calls ih =>
    rw [performAll]
    exact congrArg (call :: ·) (ih _)

/-! ### What tables hold -/

/-- A table holds the elements that were pushed, from the start on, and nothing else. -/
structure Holds (table : OffsetTable α) (start : Nat) (pushed : List (Nat × α)) : Prop where
  ordered : table.Ordered
  widths : ∀ element ∈ pushed, 1 ≤ element.1
  next_eq : table.next = start + totalWidth pushed
  mem_iff : ∀ offset a, (offset, a) ∈ table.toList ↔ ∃ width, Stands start pushed offset width a

theorem holds_startingAt (start : Nat) : (startingAt start : OffsetTable α).Holds start [] := by
  refine ⟨ordered_startingAt start, fun _ => (absurd · List.not_mem_nil), rfl, fun offset a => ?_⟩
  refine iff_of_false (by rw [toList_startingAt]; exact List.not_mem_nil) ?_
  rintro ⟨width, hstands⟩
  exact not_stands_nil hstands

namespace Holds

variable {table : OffsetTable α} {start : Nat} {pushed : List (Nat × α)}

/-- Adding an element adds it behind all others. -/
theorem push (h : table.Holds start pushed) {width : Nat} (hwidth : 1 ≤ width) (a : α) :
    (table.push width a).Holds start (pushed ++ [(width, a)]) := by
  refine ⟨h.ordered.push hwidth a, ?_, ?_, fun offset b => ?_⟩
  · intro element hmem
    rcases List.mem_append.1 hmem with hold | hlast
    · exact h.widths element hold
    · obtain rfl := List.mem_singleton.1 hlast
      exact hwidth
  · show table.next + width = _
    rw [h.next_eq, totalWidth_append, totalWidth_cons, totalWidth_nil]
    omega
  · rw [toList_push, List.mem_append, List.mem_singleton, h.mem_iff, Prod.mk.injEq, h.next_eq]
    simp only [stands_append_iff, exists_or]
    refine or_congr_right ⟨?_, ?_⟩
    · rintro ⟨hoffset, rfl⟩
      exact ⟨width, hoffset, rfl, rfl⟩
    · rintro ⟨_, hoffset, -, rfl⟩
      exact ⟨hoffset, rfl⟩

/-- A lookup tells what is to be found among the elements that the table holds. -/
theorem finds (h : table.Holds start pushed) (offset : Nat) : Finds start pushed offset (table.get? offset) := by
  have helement : ∀ a, table.get? offset = some a ↔ ∃ width, Stands start pushed offset width a :=
    fun a => (get?_eq_some_iff h.ordered).trans (h.mem_iff offset a)
  refine ⟨helement, ?_⟩
  rw [← not_stands_iff h.widths, exists_comm, Option.eq_none_iff_forall_ne_some]
  simp only [ne_eq, helement, not_exists]

/-- A call is answered as the elements say that the table holds, and adds its own. -/
theorem perform (h : table.Holds start pushed) {call : Call α} (hcall : ∀ element ∈ call.added, 1 ≤ element.1) :
    Answered start pushed call (call.perform table).1 ∧
      (call.perform table).2.Holds start (pushed ++ call.added) := by
  cases call with
  | push width a =>
    refine ⟨?_, h.push (hcall _ List.mem_cons_self) a⟩
    rw [Call.perform, h.next_eq]
    exact .push width a
  | lookup offset =>
    rw [Call.added, List.append_nil]
    exact ⟨.lookup (h.finds offset), h⟩

/-- Calls are answered one after the other as the elements say that have been pushed by then. -/
theorem performAll (h : table.Holds start pushed) {calls : List (Call α)}
    (hcalls : ∀ call ∈ calls, ∀ element ∈ call.added, 1 ≤ element.1) :
    AnsweredAll start pushed (OffsetTable.performAll calls table).1 ∧
      (OffsetTable.performAll calls table).2.Holds start (pushed ++ added calls) := by
  induction calls generalizing table pushed with
  | nil =>
    rw [added, List.flatMap_nil, List.append_nil]
    exact ⟨.nil pushed, h⟩
  | cons call calls ih =>
    obtain ⟨hfirst, hnext⟩ := h.perform (hcalls call List.mem_cons_self)
    obtain ⟨hrest, hafter⟩ := ih hnext fun c hc => hcalls c (List.mem_cons_of_mem _ hc)
    rw [List.append_assoc] at hafter
    exact ⟨.cons hfirst hrest, hafter⟩

end Holds

/-! ### In words -/

/-- A call in words of 64 bits, which gives nothing when the offset after a new element does not fit into a word. -/
def Call.performInWords : Call α → OffsetTable α → Option (Answer α × OffsetTable α)
  | .push width a, table => if table.next + width < 2 ^ 64 then some ((Call.push width a).perform table) else none
  | .lookup offset, table => some ((Call.lookup offset).perform table)

/-- Calls in words of 64 bits. -/
def performAllInWords : List (Call α) → OffsetTable α → Option (List (Call α × Answer α) × OffsetTable α)
  | [], table => some ([], table)
  | call :: calls, table => do
    let (answer, next) ← call.performInWords table
    let (answers, after) ← performAllInWords calls next
    return ((call, answer) :: answers, after)

theorem Call.performInWords_eq {call : Call α} {table : OffsetTable α}
    (h : table.next + totalWidth call.added < 2 ^ 64) : call.performInWords table = some (call.perform table) := by
  cases call with
  | push width a => exact if_pos h
  | lookup offset => rfl

theorem Call.next_perform (call : Call α) (table : OffsetTable α) :
    (call.perform table).2.next = table.next + totalWidth call.added := by
  cases call <;> rfl

/-- As long as the offset after the last element fits into a word, calls are answered in words as in numbers. -/
theorem performAllInWords_eq {calls : List (Call α)} {table : OffsetTable α}
    (h : table.next + totalWidth (added calls) < 2 ^ 64) :
    performAllInWords calls table = some (performAll calls table) := by
  induction calls generalizing table with
  | nil => rfl
  | cons call calls ih =>
    rw [added, List.flatMap_cons, totalWidth_append, ← added] at h
    have hnext : (call.perform table).2.next + totalWidth (added calls) < 2 ^ 64 := by
      rw [call.next_perform]
      omega
    rw [performAllInWords, Call.performInWords_eq (by omega)]
    show (performAllInWords calls (call.perform table).2 >>= _) = _
    rw [ih hnext]
    rfl

end ClassGraft.OffsetTable
