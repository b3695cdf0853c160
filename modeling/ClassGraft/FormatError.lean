import ClassGraft.Constant.Describe
import ClassGraft.Instruction

/-!
# Errors of the class file format

Why bytes are no class file, and why an index leads to no entry of the kind that is needed.
-/

namespace ClassGraft

/-- A constant that does not fit into a pool, with the index that it would get. -/
structure PoolOverflow where
  constant : Constant
  offset : Nat
deriving DecidableEq, Repr

/-- The wording of a pool overflow. -/
def PoolOverflow.message (overflow : PoolOverflow) : String :=
  s!"constant pool overflow inserting {overflow.constant.describe} at #{overflow.offset}"

/-- Why bytes are not in the class file format. -/
inductive FormatError where
  | endOfInput
  | badMagic (found : Nat)
  | unknownTag (tag : UInt8) (index : Index)
  | malformedText (index : Index)
  | unknownHandleKind (kind : UInt8) (index : Index)
  | poolOverflow (overflow : PoolOverflow)
deriving DecidableEq, Repr

/-- The wording of a format error. -/
def FormatError.message : FormatError → String
  | endOfInput => "class file is truncated"
  | badMagic found => s!"bad magic number 0x{(paddedHex 8 found).toUpper}"
  | unknownTag tag index => s!"unknown constant pool tag {tag} at #{index}"
  | malformedText index => s!"constant #{index} is not valid modified UTF-8"
  | unknownHandleKind kind index => s!"unknown method handle kind {kind} at #{index}"
  | poolOverflow overflow => overflow.message

/-- The kind of entry that an index has to lead to. -/
inductive Expectation where
  | entry (tag : Tag)
  | memberRef
deriving DecidableEq, Repr

/-- The words for an expected kind of entry. -/
def Expectation.label : Expectation → String
  | entry tag => tag.label
  | memberRef => "Fieldref or Methodref"

/-- Why an index does not lead to an entry of the expected kind. -/
inductive IndexError where
  | outOfRange (index : Index)
  | wrongTag (index : Index) (expected : Expectation) (found : Tag)
deriving DecidableEq, Repr

namespace IndexError

/-- The index that does not lead to the expected entry. -/
def index : IndexError → Index
  | outOfRange index => index
  | wrongTag index _ _ => index

/-- The wording of an index error. -/
def message : IndexError → String
  | outOfRange index => s!"constant pool index #{index} is out of range"
  | wrongTag index expected found =>
    s!"constant pool index #{index} is {found.label} (expected {expected.label})"

end IndexError

end ClassGraft
