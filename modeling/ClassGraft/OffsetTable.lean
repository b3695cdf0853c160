/-!
# Offset tables

A table whose elements are addressed by the sum of the widths of the elements before them, counted from a start.
Elements are found by bisection: `lastUpTo` narrows a range of positions to the last one whose offset does not exceed
the one asked for.
-/

namespace ClassGraft

/-- Elements with their offsets, and the offset that the next element gets. -/
structure OffsetTable (α : Type) where
  entries : Array (Nat × α)
  next : Nat
deriving DecidableEq, Repr

namespace OffsetTable

variable {α : Type}

/-- The table without elements whose first element gets the offset `start`. -/
def startingAt (start : Nat) : OffsetTable α := ⟨#[], start⟩

/-- The number of elements. -/
def size (table : OffsetTable α) : Nat := table.entries.size

/-- Whether there is no element. -/
def isEmpty (table : OffsetTable α) : Bool := table.entries.isEmpty

/-- The elements with their offsets, in order. -/
def toList (table : OffsetTable α) : List (Nat × α) := table.entries.toList

/-- Adds an element of the given width at the end, at offset `table.next`. -/
def push (table : OffsetTable α) (width : Nat) (a : α) : OffsetTable α :=
  ⟨table.entries.push (table.next, a), table.next + width⟩

/-- The entry at a position, if its offset is at most `offset`. -/
def entryUpTo? (table : OffsetTable α) (offset position : Nat) : Option (Nat × α) :=
  table.entries[position]?.filter fun entry => entry.1 ≤ offset

/-- Narrows the `count + 1` positions from `base` on to the last whose offset is at most `offset`, or to `base`. -/
def lastUpTo (table : OffsetTable α) (offset base count : Nat) : Nat :=
  if count = 0 then base
  else
    let half := (count + 1) / 2
    if (table.entryUpTo? offset (base + half)).isSome then lastUpTo table offset (base + half) (count - half)
    else lastUpTo table offset base (half - 1)
termination_by count

/-- The element at an offset; nothing before the start, inside a wide element and past the end. -/
def get? (table : OffsetTable α) (offset : Nat) : Option α :=
  match table.entries[table.lastUpTo offset 0 (table.size - 1)]? with
  | some entry => if entry.1 = offset then some entry.2 else none
  | none => none

/-- A table shown as a list of numbered elements. -/
def describe (describeElement : α → String) (table : OffsetTable α) : String :=
  "[" ++ ", ".intercalate (table.toList.map fun (offset, a) => s!"#{offset} = {describeElement a}") ++ "]"

end OffsetTable

end ClassGraft
