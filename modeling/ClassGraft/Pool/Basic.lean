import ClassGraft.Constant.Codec
import ClassGraft.OffsetTable

/-!
# Constant pools

A pool is an offset table of constants that starts at index one, so the index after an eight-byte literal leads nowhere.
Entries are only ever added at the end, and the index of the next entry, which is written in two bytes, stays below
65536.
-/

namespace ClassGraft

/-- The constants of a class by index. -/
structure Pool where
  table : OffsetTable Constant
deriving DecidableEq, Repr

namespace Pool

/-- The pool without entries. -/
def empty : Pool := ⟨.startingAt 1⟩

/-- The number of entries. -/
def size (pool : Pool) : Nat := pool.table.size

/-- The index that the next entry gets. -/
def count (pool : Pool) : Nat := pool.table.next

/-- The entries with their indices, in order. -/
def entries (pool : Pool) : List (Index × Constant) :=
  pool.table.toList.map fun (offset, constant) => (UInt16.ofNat offset, constant)

/-- The entry at an index. -/
def get (pool : Pool) (index : Index) : Except IndexError Constant :=
  match pool.table.get? index.toNat with
  | some constant => .ok constant
  | none => .error (.outOfRange index)

/-- Whether the index after a new entry would still fit into two bytes. -/
def hasRoom (pool : Pool) (constant : Constant) : Bool := pool.count + constant.width ≤ 65535

/-- Adds an entry at the end. -/
def push (pool : Pool) (constant : Constant) : Pool := ⟨pool.table.push constant.width constant⟩

/-- Whether two pools have equal entries at equal indices when floating-point literals are compared as numbers. -/
def sameValues (a b : Pool) : Bool :=
  a.table.size == b.table.size &&
    (a.table.toList.zip b.table.toList).all fun (x, y) => x.1 == y.1 && x.2.sameValue y.2

/-- The text at an index. -/
def text (pool : Pool) (index : Index) : Except IndexError String := do
  match ← pool.get index with
  | .utf8 stored => return stored.text
  | other => throw (.wrongTag index (.entry .utf8) other.tag)

/-- The name of the class at an index. -/
def className (pool : Pool) (index : Index) : Except IndexError String := do
  match ← pool.get index with
  | .named .classInfo name => pool.text name
  | other => throw (.wrongTag index (.entry .classInfo) other.tag)

/-- The name and the descriptor of the entry at an index. -/
def nameAndType (pool : Pool) (index : Index) : Except IndexError (String × String) := do
  match ← pool.get index with
  | .nameAndType name descriptor => return (← pool.text name, ← pool.text descriptor)
  | other => throw (.wrongTag index (.entry .nameAndType) other.tag)

theorem count_push (pool : Pool) (constant : Constant) :
    (pool.push constant).count = pool.count + constant.width := rfl

end Pool

end ClassGraft
