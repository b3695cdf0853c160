import ClassGraft.Reader

/-!
# Constants as bytes

A constant is written as the byte of its tag and its fields.  The length of a text is written in two bytes and wraps.
-/

namespace ClassGraft.Constant

/-- The bytes of a constant after its tag. -/
def body : Constant → Bytes
  | .utf8 stored => countBytes stored.encoded ++ stored.encoded
  | .integer value => u32Bytes value.toUInt32
  | .float bits => u32Bytes bits
  | .long value => u64Bytes value.toUInt64
  | .double bits => u64Bytes bits
  | .named _ text => u16Bytes text
  | .member _ owner signature => u16Bytes owner ++ u16Bytes signature
  | .nameAndType name descriptor => u16Bytes name ++ u16Bytes descriptor
  | .methodHandle kind target => kind.code :: u16Bytes target
  | .dynamic _ bootstrap signature => u16Bytes bootstrap ++ u16Bytes signature

/-- The bytes of a constant. -/
def bytes (constant : Constant) : Bytes := constant.tag.code :: constant.body

/-- Takes the text of the entry at an index. -/
def readText (index : Index) : Reader Constant := do
  let length ← Reader.u16
  let encoded ← Reader.take length.toNat
  match StoredText.ofEncoded encoded with
  | some stored => return .utf8 stored
  | none => throw (.malformedText index)

/-- Takes the method handle at an index. -/
def readHandle (index : Index) : Reader Constant := do
  let code ← Reader.u8
  match HandleKind.ofCode? code with
  | some kind => return .methodHandle kind (← Reader.u16)
  | none => throw (.unknownHandleKind code index)

/-- Takes the fields of a constant of a given kind; the index is only named in errors. -/
def readBody (index : Index) : Tag → Reader Constant
  | .utf8 => readText index
  | .integer => return .integer (← Reader.u32).toInt32
  | .float => return .float (← Reader.u32)
  | .long => return .long (← Reader.u64).toInt64
  | .double => return .double (← Reader.u64)
  | .classInfo => return .named .classInfo (← Reader.u16)
  | .string => return .named .string (← Reader.u16)
  | .fieldRef => return .member .field (← Reader.u16) (← Reader.u16)
  | .methodRef => return .member .method (← Reader.u16) (← Reader.u16)
  | .interfaceMethodRef => return .member .interfaceMethod (← Reader.u16) (← Reader.u16)
  | .nameAndType => return .nameAndType (← Reader.u16) (← Reader.u16)
  | .methodHandle => readHandle index
  | .methodType => return .named .methodType (← Reader.u16)
  | .dynamic => return .dynamic .value (← Reader.u16) (← Reader.u16)
  | .invokeDynamic => return .dynamic .callSite (← Reader.u16) (← Reader.u16)
  | .moduleInfo => return .named .moduleInfo (← Reader.u16)
  | .packageInfo => return .named .packageInfo (← Reader.u16)

/-- Takes a constant; the index is only named in errors. -/
def read (index : Index) : Reader Constant := do
  let code ← Reader.u8
  match Tag.ofCode? code with
  | some tag => readBody index tag
  | none => throw (.unknownTag code index)

end ClassGraft.Constant
