import ClassGraft.Pool.Codec

/-!
# Attributes

An attribute is a name and bytes whose meaning depends on it.  The name is an index into the pool of the class, and
the number of bytes is written in four bytes.
-/

namespace ClassGraft

/-- The name of the attribute that holds the instructions of a method. -/
def codeName : String := "Code"

/-- An attribute with its contents as bytes. -/
structure Attribute where
  nameIndex : Index
  info : Bytes
deriving DecidableEq, Repr

namespace Attribute

/-- The bytes of an attribute. -/
def bytes (entry : Attribute) : Bytes :=
  u16Bytes entry.nameIndex ++ bigEndian 4 entry.info.length ++ entry.info

/-- Takes an attribute. -/
def read : Reader Attribute := do
  let nameIndex ← Reader.u16
  let info ← Reader.sized
  return ⟨nameIndex, info⟩

/-- Whether the name leads to the given text. -/
def isNamed (pool : Pool) (name : String) (entry : Attribute) : Bool :=
  match pool.text entry.nameIndex with
  | .ok found => found = name
  | .error _ => false

theorem length_of_read {entry : Attribute} {bytes rest : Bytes} (h : read bytes = .ok (entry, rest)) :
    bytes.length = 6 + entry.info.length + rest.length := by
  obtain ⟨nameIndex, middle, hname, h⟩ := Reader.bind_eq_ok_iff.1 h
  obtain ⟨info, last, hinfo, h⟩ := Reader.bind_eq_ok_iff.1 h
  obtain ⟨rfl, rfl⟩ := Reader.pure_eq_ok_iff.1 h
  have := Reader.length_of_u16 hname
  have := Reader.length_of_sized hinfo
  simp only
  omega

end Attribute

end ClassGraft
