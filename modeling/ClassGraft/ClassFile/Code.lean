import ClassGraft.ClassFile.Attribute
import ClassGraft.Log

/-!
# Code attributes

The contents of the attribute that holds the instructions of a method: the sizes of its frame, the code array, the
exception handlers, and attributes of its own, which stay as they are.
-/

namespace ClassGraft

/-- A range of instructions with the handler of exceptions in it; the catch type zero stands for all exceptions. -/
structure ExceptionHandler where
  startPc : UInt16
  endPc : UInt16
  handlerPc : UInt16
  catchType : Index
deriving DecidableEq, Repr

/-- A code attribute without its nested attributes. -/
structure CodeBody where
  maxStack : UInt16
  maxLocals : UInt16
  code : Bytes
  handlers : List ExceptionHandler
deriving DecidableEq, Repr

/-- The contents of a code attribute. -/
structure Code extends CodeBody where
  attributes : List Attribute
deriving DecidableEq, Repr

namespace ExceptionHandler

/-- The bytes of an exception handler. -/
def bytes (handler : ExceptionHandler) : Bytes :=
  u16Bytes handler.startPc ++ u16Bytes handler.endPc ++ u16Bytes handler.handlerPc ++ u16Bytes handler.catchType

/-- Takes an exception handler. -/
def read : Reader ExceptionHandler := do
  let startPc ← Reader.u16
  let endPc ← Reader.u16
  let handlerPc ← Reader.u16
  let catchType ← Reader.u16
  return ⟨startPc, endPc, handlerPc, catchType⟩

theorem shrinks_read : Reader.Shrinks read :=
  Reader.shrinks_u16.bind fun _ => Reader.shrinks_u16.bind fun _ => Reader.shrinks_u16.bind fun _ =>
    Reader.shrinks_u16.bind fun _ => Reader.shrinks_pure _

end ExceptionHandler

namespace CodeBody

/-- The bytes before the nested attributes. -/
def bytes (body : CodeBody) : Bytes :=
  u16Bytes body.maxStack ++ u16Bytes body.maxLocals ++ bigEndian 4 body.code.length ++ body.code ++
    countedBytes ExceptionHandler.bytes body.handlers

/-- Takes what stands before the nested attributes. -/
def read : Reader CodeBody := do
  let maxStack ← Reader.u16
  let maxLocals ← Reader.u16
  let code ← Reader.sized
  let handlers ← Reader.counted ExceptionHandler.read
  return ⟨maxStack, maxLocals, code, handlers⟩

theorem shrinks_read : Reader.Shrinks read :=
  Reader.shrinks_u16.bind fun _ => Reader.shrinks_u16.bind fun _ => Reader.shrinks_sized.bind fun _ =>
    ExceptionHandler.shrinks_read.counted.bind fun _ => Reader.shrinks_pure _

end CodeBody

namespace Code

/-- The contents of the attribute as bytes. -/
def bytes (code : Code) : Bytes :=
  code.toCodeBody.bytes ++ countedBytes Attribute.bytes code.attributes

/-- Takes the contents of a code attribute. -/
def read : Reader Code := do
  let body ← CodeBody.read
  let attributes ← Reader.counted Attribute.read
  return ⟨body, attributes⟩

/-- Notes how many bytes of a code attribute are left over, if any. -/
def noteLeftOver (leftOver : Bytes) : Logged Unit :=
  match leftOver with
  | [] => return
  | _ => note .warning s!"Code attribute has {leftOver.length} unused trailing bytes"

/-- Reads the contents of a code attribute, noting bytes left over. -/
def parse (info : Bytes) : LoggedExcept FormatError Code := do
  match read info with
  | .error error => throw error
  | .ok (code, leftOver) =>
    noteLeftOver leftOver
    return code

end Code

end ClassGraft
