import ClassGraft.Alignment
import ClassGraft.Proofs.Codec.Member
import Mathlib.Data.List.Basic

/-!
# Methods in pairs

Two methods seen together as far as they are paired: at every level the attributes at the first positions of both, up
to the smaller of the two numbers, and on each side whatever follows.  Everything that the sides may differ in is a
function of the side.  The names and the contents of the two are written independently, so the method that has the names
of one side and the contents of the other is the same pair, written with two different sides.
-/

namespace ClassGraft.Alignment

/-- The attributes at one position of the two methods: both kept as bytes, or both with code, of which the nested
attributes are paired as far as there are any on both sides. -/
inductive Pair where
  | raw (name : Side → Index) (info : Side → Bytes)
  | code (name : Side → Index) (body : Side → CodeBody) (count : Side → UInt16) (nested : List Pair)
      (tail : Side → Bytes)

/-- The two methods: their attributes are paired as far as there are any on both sides. -/
structure MethodPair where
  accessFlags : Side → UInt16
  name : Side → Index
  descriptor : Side → Index
  count : Side → UInt16
  attributes : List Pair
  tail : Side → Bytes

/-- What is on the one side and what is on the other. -/
def sides {α : Type} (patched base : α) : Side → α
  | .patched => patched
  | .base => base

/-- The number of fields that differ between the sides, of one. -/
def differs (index : Side → Index) : Nat := if index .patched = index .base then 0 else 1

namespace Pair

/-- The index of the name on each side. -/
def name : Pair → Side → Index
  | .raw name _ => name
  | .code name _ _ _ _ => name

mutual

/-- The contents of one side, with the names of nested attributes of another. -/
def info (names contents : Side) : Pair → Bytes
  | .raw _ info => info contents
  | .code _ body count nested tail =>
    (body contents).bytes ++ u16Bytes (count contents) ++ bytesOfAll names contents nested ++ tail contents

/-- The attributes of one side one after the other, with the names of another. -/
def bytesOfAll (names contents : Side) : List Pair → Bytes
  | [] => []
  | first :: rest => Attribute.bytes ⟨first.name names, first.info names contents⟩ ++ bytesOfAll names contents rest

end

/-- The bytes of the attribute of one side, with the names of another. -/
def bytes (names contents : Side) (pair : Pair) : Bytes :=
  Attribute.bytes ⟨pair.name names, pair.info names contents⟩

mutual

/-- The number of pairs, nested ones included. -/
def total : Pair → Nat
  | .raw _ _ => 1
  | .code _ _ _ nested _ => 1 + totalOf nested

/-- The number of pairs, nested ones included. -/
def totalOf : List Pair → Nat
  | [] => 0
  | first :: rest => total first + totalOf rest

end

mutual

/-- The number of pairs with different names, nested ones included. -/
def differing : Pair → Nat
  | .raw name _ => differs name
  | .code name _ _ nested _ => differs name + differingOf nested

/-- The number of pairs with different names, nested ones included. -/
def differingOf : List Pair → Nat
  | [] => 0
  | first :: rest => differing first + differingOf rest

end

/-- A pair that fits together: the name of the base resolves, and says whether there is code; lengths fit into their
fields, and nested attributes are paired up to the smaller of the two numbers. -/
inductive Matched (pool : Pool) : Pair → Prop
  | raw {name : Side → Index} {info : Side → Bytes} {text : String} (hname : pool.text (name .base) = .ok text)
      (hne : text ≠ codeName) (hfits : ∀ side, (info side).length < 4294967296) : Matched pool (.raw name info)
  | code {name : Side → Index} {body : Side → CodeBody} {count : Side → UInt16} {nested : List Pair}
      {tail : Side → Bytes} (hname : pool.text (name .base) = .ok codeName) (hbody : ∀ side, (body side).Fits)
      (hcount : nested.length = min (count .patched).toNat (count .base).toNat)
      (hnested : ∀ pair ∈ nested, Matched pool pair)
      (hfits : ∀ side, (info side side (.code name body count nested tail)).length < 4294967296) :
      Matched pool (.code name body count nested tail)

mutual

/-- The length of the contents does not depend on the names. -/
theorem length_info (names names' contents : Side) :
    (pair : Pair) → (pair.info names contents).length = (pair.info names' contents).length
  | .raw _ _ => rfl
  | .code _ _ _ nested _ => by
    simp only [info, List.length_append, length_bytesOfAll names names' contents nested]

theorem length_bytesOfAll (names names' contents : Side) : (pairs : List Pair) →
    (bytesOfAll names contents pairs).length = (bytesOfAll names' contents pairs).length
  | [] => rfl
  | first :: rest => by
    rw [bytesOfAll, bytesOfAll, List.length_append, List.length_append, length_bytesOfAll names names' contents rest,
      Attribute.length_bytes, Attribute.length_bytes, length_info names names' contents first]

end

end Pair

namespace MethodPair

/-- The bytes of one of the two methods, with the names of another. -/
def bytes (names contents : Side) (method : MethodPair) : Bytes :=
  u16Bytes (method.accessFlags contents) ++ u16Bytes (method.name names) ++ u16Bytes (method.descriptor names) ++
    u16Bytes (method.count contents) ++ Pair.bytesOfAll names contents method.attributes ++ method.tail contents

/-- The number of name and descriptor fields that differ, at all levels. -/
def differing (method : MethodPair) : Nat :=
  differs method.name + differs method.descriptor + Pair.differingOf method.attributes

/-- Two methods that fit together: their attributes are paired up to the smaller of the two numbers. -/
structure Matched (pool : Pool) (method : MethodPair) : Prop where
  count : method.attributes.length = min (method.count .patched).toNat (method.count .base).toNat
  attributes : ∀ pair ∈ method.attributes, pair.Matched pool

end MethodPair

end ClassGraft.Alignment
