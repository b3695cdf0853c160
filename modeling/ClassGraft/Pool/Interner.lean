import ClassGraft.Pool.Basic
import Std.Data.HashMap

/-!
# Adding constants to a pool

An interner gives a constant the first index whose entry has the same bytes and adds an entry only when there is none.
It counts what it adds.
-/

namespace ClassGraft

/-- A pool that grows, with the first index of each encoding in it and the number of entries added. -/
structure Interner where
  pool : Pool
  firstIndex : Std.HashMap Bytes Index
  added : Nat

namespace Interner

/-- Starts with a pool to which nothing has been added. -/
def ofPool (pool : Pool) : Interner where
  pool := pool
  firstIndex := pool.entries.foldl (fun known entry => known.insertIfNew entry.2.bytes entry.1) ∅
  added := 0

/-- Adds an entry that the pool does not hold. -/
def add (interner : Interner) (constant : Constant) : Interner where
  firstIndex := interner.firstIndex.insert constant.bytes (UInt16.ofNat interner.pool.count)
  pool := interner.pool.push constant
  added := interner.added + 1

/-- The index of a constant, added at the end if the pool does not hold it. -/
def intern (constant : Constant) : ExceptT PoolOverflow (StateM Interner) Index := fun interner =>
  match interner.firstIndex[constant.bytes]? with
  | some index => (.ok index, interner)
  | none =>
    if interner.pool.hasRoom constant then (.ok (UInt16.ofNat interner.pool.count), interner.add constant)
    else (.error ⟨constant, interner.pool.count⟩, interner)

/-- The index of a text in its shortest form, added at the end if the pool does not hold it. -/
def internText (text : String) : ExceptT PoolOverflow (StateM Interner) Index :=
  intern (.utf8 (.ofText text))

end Interner

end ClassGraft
