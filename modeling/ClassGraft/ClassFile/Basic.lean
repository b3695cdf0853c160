import ClassGraft.AccessFlags
import ClassGraft.ClassFile.Code
import ClassGraft.ClassFile.Member

/-!
# Class files

A class file with its attributes as bytes, so that reading and writing it changes nothing in them.
-/

namespace ClassGraft

/-- The version of the format that a class file uses. -/
structure Version where
  major : UInt16
  minor : UInt16
deriving DecidableEq, Repr

/-- A class. -/
structure ClassFile where
  version : Version
  pool : Pool
  accessFlags : AccessFlags
  thisClass : Index
  superClass : Index
  interfaces : List Index
  fields : List Field
  methods : List Method
  attributes : List Attribute
deriving DecidableEq, Repr

namespace Version

/-- The bytes of a version, the minor number first. -/
def bytes (version : Version) : Bytes := u16Bytes version.minor ++ u16Bytes version.major

/-- Takes a version. -/
def read : Reader Version := do
  let minor ← Reader.u16
  let major ← Reader.u16
  return ⟨major, minor⟩

/-- Whether the type checker of this version needs stack map frames at every branch target. -/
def requiresFrames (version : Version) : Bool := 50 < version.major

/-- A version as the two numbers with a point between them. -/
def text (version : Version) : String := s!"{version.major}.{version.minor}"

end Version

namespace ClassFile

/-- The number in the first four bytes of every class file. -/
def magic : Nat := 0xCAFEBABE

/-- The bytes of a class file. -/
def bytes (file : ClassFile) : Bytes :=
  bigEndian 4 magic ++ file.version.bytes ++ file.pool.bytes ++ u16Bytes file.accessFlags ++
    u16Bytes file.thisClass ++ u16Bytes file.superClass ++ countedBytes u16Bytes file.interfaces ++
    countedBytes Member.bytes file.fields ++ countedBytes Member.bytes file.methods ++
    countedBytes Attribute.bytes file.attributes

/-- Takes a class file. -/
def read : Reader ClassFile := do
  let found ← Reader.number 4
  if found ≠ magic then throw (.badMagic found)
  let version ← Version.read
  let pool ← Pool.read
  let accessFlags ← Reader.u16
  let thisClass ← Reader.u16
  let superClass ← Reader.u16
  let interfaces ← Reader.counted Reader.u16
  let fields ← Reader.counted Member.read
  let methods ← Reader.counted Member.read
  let attributes ← Reader.counted Attribute.read
  return ⟨version, pool, accessFlags, thisClass, superClass, interfaces, fields, methods, attributes⟩

/-- Reads a class file, noting bytes left over. -/
def parse (bytes : Bytes) : LoggedExcept FormatError ClassFile := do
  match read bytes with
  | .error error => throw error
  | .ok (file, []) => return file
  | .ok (file, leftOver) =>
    note .warning
      s!"Not all bytes were consumed when parsing class file, {leftOver.length} bytes remaining"
    return file

/-- The name of a class. -/
def name (file : ClassFile) : Except IndexError String := file.pool.className file.thisClass

end ClassFile

end ClassGraft
