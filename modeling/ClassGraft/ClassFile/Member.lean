import ClassGraft.ClassFile.Attribute

/-!
# Fields and methods

The members of a class.  Fields and methods have one form: flags, the indices of a name and a descriptor, and
attributes.
-/

namespace ClassGraft

/-- A field or a method of a class. -/
structure Member where
  accessFlags : UInt16
  nameIndex : Index
  descriptorIndex : Index
  attributes : List Attribute
deriving DecidableEq, Repr

/-- A field of a class. -/
abbrev Field := Member

/-- A method of a class. -/
abbrev Method := Member

namespace Member

/-- The bytes of a member. -/
def bytes (member : Member) : Bytes :=
  u16Bytes member.accessFlags ++ u16Bytes member.nameIndex ++ u16Bytes member.descriptorIndex ++
    countedBytes Attribute.bytes member.attributes

/-- Takes a member. -/
def read : Reader Member := do
  let accessFlags ← Reader.u16
  let nameIndex ← Reader.u16
  let descriptorIndex ← Reader.u16
  let attributes ← Reader.counted Attribute.read
  return ⟨accessFlags, nameIndex, descriptorIndex, attributes⟩

/-- The name of a member. -/
def name (pool : Pool) (member : Member) : Except IndexError String := pool.text member.nameIndex

/-- The descriptor of a member. -/
def descriptor (pool : Pool) (member : Member) : Except IndexError String := pool.text member.descriptorIndex

/-- The position of the first code attribute. -/
def codePosition? (pool : Pool) (member : Member) : Option Nat :=
  member.attributes.findIdx? (Attribute.isNamed pool codeName)

end Member

end ClassGraft
