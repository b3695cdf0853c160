import ClassGraft.Method.Parsed

/-!
# Decoding methods

Reads the bytes of a method against a pool.  The header has to be complete; after it, attributes that make no sense
are noted and skipped, and one that runs past the end stops the reading.  Strict decoding refuses a name or a
descriptor that leads nowhere, and lenient decoding puts a placeholder there.
-/

namespace ClassGraft

/-- What to do about a name or a descriptor that leads nowhere. -/
inductive Strictness where
  | strict
  | lenient
deriving DecidableEq, Repr

/-- Why bytes are no method. -/
inductive MethodError where
  | truncated (field : String) (offset : Nat)
  | unresolved (error : IndexError)
deriving DecidableEq, Repr

/-- The word for a strictness in messages. -/
def Strictness.label : Strictness → String
  | strict => "Strict"
  | lenient => "Lenient"

/-- The wording of a method error. -/
def MethodError.message : MethodError → String
  | truncated field offset => s!"method bytes end before {field} (offset {offset})"
  | unresolved error => s!"original method doesn't resolve in target class: {error.message}"

namespace ParsedMethod

/-- The name of a method whose name leads nowhere. -/
def unknownName : String := "UnknownName"

/-- The descriptor of a method whose descriptor leads nowhere. -/
def unknownDescriptor : String := "UnknownDesc"

/-- The fixed fields at the front of a method. -/
structure Header where
  accessFlags : UInt16
  nameIndex : Index
  descriptorIndex : Index
  attributeCount : Nat
deriving DecidableEq, Repr

/-- The fields of the header, in order, with their offsets. -/
def headerFields : List (String × Nat) :=
  [("access_flags", 0), ("name_index", 2), ("descriptor_index", 4), ("attributes_count", 6)]

/-- Takes the header, naming the first field that is not all there. -/
def readHeader (bytes : Bytes) : Except MethodError (Header × Bytes) :=
  match bytes with
  | a :: b :: c :: d :: e :: f :: g :: h :: rest =>
    let word (high low : UInt8) : UInt16 := UInt16.ofNat (ofBigEndian [high, low])
    .ok (⟨word a b, word c d, word e f, (word g h).toNat⟩, rest)
  | _ =>
    let (field, offset) := headerFields.getD (bytes.length / 2) ("attributes_count", 6)
    .error (.truncated field offset)

/-- The text at an index, or what the strictness says when there is none. -/
def headerText (pool : Pool) (strictness : Strictness) (placeholder : String) (index : Index) :
    LoggedExcept MethodError String :=
  match pool.text index, strictness with
  | .ok text, _ => return text
  | .error error, .strict => throw (.unresolved error)
  | .error error, .lenient => do
    note .warning s!"Using {placeholder} in place of unresolvable {error.message}"
    return placeholder

end ParsedMethod

namespace ParsedAttribute

/-- Takes what stands before the nested attributes of a code attribute, and their number. -/
def readCodeStart : Reader (CodeBody × UInt16) := do
  let body ← CodeBody.read
  let count ← Reader.u16
  return (body, count)

theorem shrinks_readCodeStart : Reader.Shrinks readCodeStart :=
  CodeBody.shrinks_read.bind fun _ => Reader.shrinks_u16.bind fun _ => Reader.shrinks_pure _

/-- Decodes up to `count` attributes at an offset of their buffer and puts them after those found so far (last one
first), together with the bytes left over. -/
def decodeOnto (pool : Pool) (count offset : Nat) (bytes : Bytes) (found : List ParsedAttribute) :
    Logged (List ParsedAttribute × Bytes) :=
  match count with
  | 0 => return (found.reverse, bytes)
  | count + 1 =>
    match _hread : Attribute.read bytes with
    | .error _ => do
      note .warning s!"Stopping attribute parsing: attribute at offset {offset} is truncated"
      return (found.reverse, [])
    | .ok (entry, rest) => do
      let after := offset + 6 + entry.info.length
      match pool.text entry.nameIndex with
      | .error error =>
        note .warning s!"Skipping attribute: attribute at offset {offset} has no usable name: {error.message}"
        decodeOnto pool count after rest found
      | .ok name =>
        note .debug s!"Attribute {name} ({entry.info.length} bytes) at offset {offset}"
        if name = codeName then
          match _hcode : readCodeStart entry.info with
          | .error error =>
            note .warning s!"Skipping attribute: Code attribute at offset {offset} is malformed: {error.message}"
            decodeOnto pool count after rest found
          | .ok ((body, innerCount), inner) =>
            let start := entry.info.length - inner.length
            let (attributes, leftOver) ← decodeOnto pool innerCount.toNat start inner []
            Code.noteLeftOver leftOver
            decodeOnto pool count after rest (.code entry.nameIndex entry.info.length body attributes :: found)
        else decodeOnto pool count after rest (.raw entry.nameIndex name entry.info :: found)
termination_by bytes.length
decreasing_by
  all_goals have := Attribute.length_of_read _hread
  all_goals first
    | omega
    | have := shrinks_readCodeStart _ _ _ _hcode
      omega

/-- Decodes up to `count` attributes at an offset of their buffer, with the bytes left over. -/
def decodeAll (pool : Pool) (count offset : Nat) (bytes : Bytes) : Logged (List ParsedAttribute × Bytes) :=
  decodeOnto pool count offset bytes []

end ParsedAttribute

/-- Decodes a method against a pool. -/
def ParsedMethod.parse (pool : Pool) (strictness : Strictness) (bytes : Bytes) :
    LoggedExcept MethodError ParsedMethod := do
  let (header, rest) ← ExceptT.mk (pure (readHeader bytes))
  let name ← headerText pool strictness unknownName header.nameIndex
  let descriptor ← headerText pool strictness unknownDescriptor header.descriptorIndex
  note .debug s!"Parsing method {name}{descriptor} ({strictness.label})"
  let (attributes, leftOver) ← ParsedAttribute.decodeAll pool header.attributeCount 8 rest
  unless leftOver.isEmpty do
    note .warning s!"Ignoring {leftOver.length} trailing bytes after method {name}{descriptor}"
  return ⟨header.accessFlags, header.nameIndex, header.descriptorIndex, name, descriptor, attributes⟩

end ClassGraft
