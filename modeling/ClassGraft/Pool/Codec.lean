import ClassGraft.Pool.Basic

/-!
# Constant pools as bytes

A pool is written as the index that the next entry would get, in two bytes, and its entries.  Reading stops as soon as
that index is reached or, if the last entry takes two indices, passed.
-/

namespace ClassGraft.Pool

/-- The bytes of a pool. -/
def bytes (pool : Pool) : Bytes :=
  bigEndian 2 pool.count ++ pool.table.toList.flatMap fun (_, constant) => constant.bytes

/-- Takes entries until the pool reaches the limit. -/
def readEntries (limit : Nat) (pool : Pool) : Reader Pool := fun input =>
  if pool.count < limit then
    match Constant.read (UInt16.ofNat pool.count) input with
    | .error error => .error error
    | .ok (constant, rest) =>
      if pool.hasRoom constant then readEntries limit (pool.push constant) rest
      else .error (.poolOverflow ⟨constant, pool.count⟩)
  else .ok (pool, input)
termination_by limit - pool.count
decreasing_by
  have := constant.width_pos
  rw [count_push]
  omega

/-- Takes a pool. -/
def read : Reader Pool := do
  let limit ← Reader.u16
  readEntries limit.toNat empty

end ClassGraft.Pool
