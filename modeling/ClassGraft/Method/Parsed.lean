import ClassGraft.ClassFile.Code
import ClassGraft.ClassFile.Member

/-!
# Decoded methods

A method whose attributes have been looked up by name in some pool, with code attributes decoded at every level and
the others kept as bytes.  `ParsedMethod.toMethod` writes it with the indices that it was read with.
-/

namespace ClassGraft

/-- An attribute of a known name: a code attribute with the length it was declared with, or bytes. -/
inductive ParsedAttribute where
  | raw (nameIndex : Index) (name : String) (info : Bytes)
  | code (nameIndex : Index) (declaredLength : Nat) (body : CodeBody) (attributes : List ParsedAttribute)
deriving Repr

/-- A method with its name, its descriptor and the names of its attributes looked up. -/
structure ParsedMethod where
  accessFlags : UInt16
  nameIndex : Index
  descriptorIndex : Index
  name : String
  descriptor : String
  attributes : List ParsedAttribute
deriving Repr

namespace ParsedAttribute

/-- The index of the name. -/
def nameIndex : ParsedAttribute → Index
  | .raw nameIndex _ _ => nameIndex
  | .code nameIndex _ _ _ => nameIndex

/-- The name. -/
def name : ParsedAttribute → String
  | .raw _ name _ => name
  | .code _ _ _ _ => codeName

/-- The length that the attribute was declared with. -/
def declaredLength : ParsedAttribute → Nat
  | .raw _ _ info => info.length
  | .code _ declaredLength _ _ => declaredLength

/-- Whether the attribute is a decoded code attribute. -/
def isCode : ParsedAttribute → Bool
  | .raw _ _ _ => false
  | .code _ _ _ _ => true

mutual

/-- The contents as bytes. -/
def info : ParsedAttribute → Bytes
  | .raw _ _ info => info
  | .code _ _ body attributes => body.bytes ++ countBytes attributes ++ bytesOfAll attributes

/-- Attributes one after the other as bytes. -/
def bytesOfAll : List ParsedAttribute → Bytes
  | [] => []
  | first :: rest => Attribute.bytes ⟨first.nameIndex, first.info⟩ ++ bytesOfAll rest

end

/-- The attribute as a class file holds it. -/
def toAttribute (parsed : ParsedAttribute) : Attribute := ⟨parsed.nameIndex, parsed.info⟩

theorem bytesOfAll_eq_flatMap (attributes : List ParsedAttribute) :
    bytesOfAll attributes = attributes.flatMap fun parsed => parsed.toAttribute.bytes := by
  induction attributes with
  | nil => rfl
  | cons first rest ih => rw [bytesOfAll, ih]; rfl

end ParsedAttribute

namespace ParsedMethod

/-- The first code attribute. -/
def codeAttribute? (method : ParsedMethod) : Option ParsedAttribute :=
  method.attributes.find? ParsedAttribute.isCode

/-- Whether there is a code attribute. -/
def hasCode (method : ParsedMethod) : Bool := method.attributes.any ParsedAttribute.isCode

/-- The method as a class file holds it. -/
def toMethod (method : ParsedMethod) : Method :=
  ⟨method.accessFlags, method.nameIndex, method.descriptorIndex,
    method.attributes.map ParsedAttribute.toAttribute⟩

/-- The name and the descriptor together. -/
def signature (method : ParsedMethod) : String := method.name ++ method.descriptor

end ParsedMethod

end ClassGraft
