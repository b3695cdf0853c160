import ClassGraft.Constant.Basic
import ClassGraft.Instruction

/-!
# Templates

Bytes that hold indices, cut into pieces: runs of bytes without indices and the slots between them.  A template comes
from reading the bytes by some layout, and records what was left over or why the reading stopped.  Putting the pieces
together again gives the bytes that were read.
-/

namespace ClassGraft

/-- A place that holds an index: one byte after the opcode of the instruction at an offset, two bytes, or two bytes
where zero stands for no entry. -/
inductive Slot where
  | narrow (offset : Nat) (index : UInt8)
  | wide (index : Index)
  | optional (index : Index)
deriving DecidableEq, Repr

/-- A run of bytes without indices, or a slot. -/
inductive Piece where
  | fixed (bytes : Bytes)
  | slot (place : Slot)
deriving DecidableEq, Repr

/-- Pieces, and the bytes left over after them or why the reading stopped there. -/
structure Template (ε : Type) where
  pieces : List Piece
  outcome : Except ε Bytes

/-- The bytes of a slot. -/
def Slot.bytes : Slot → Bytes
  | .narrow _ index => [index]
  | .wide index => u16Bytes index
  | .optional index => u16Bytes index

/-- The bytes of a piece. -/
def Piece.bytes : Piece → Bytes
  | .fixed bytes => bytes
  | .slot place => place.bytes

/-- The bytes that the pieces of a template were cut from. -/
def Template.bytes {ε : Type} (template : Template ε) : Bytes := template.pieces.flatMap Piece.bytes

namespace Instruction

/-- The pieces of an instruction with the given bytes. -/
def pieces (instruction : Instruction) (bytes : Bytes) : List Piece :=
  match constantOperand? instruction.opcode, bytes with
  | some .narrow, opcode :: index :: rest =>
    [.fixed [opcode], .slot (.narrow instruction.offset index), .fixed rest]
  | some .wide, opcode :: high :: low :: rest =>
    [.fixed [opcode], .slot (.wide (UInt16.ofNat (ofBigEndian [high, low]))), .fixed rest]
  | _, bytes => [.fixed bytes]

/-- The pieces of a code array, with the constant operands of its instructions as slots. -/
def template (code : Bytes) : Template BytecodeError :=
  let array := code.toArray
  let walk := walk code
  { pieces := walk.instructions.flatMap fun instruction =>
      instruction.pieces (array.extract instruction.offset (instruction.offset + instruction.length)).toList
    outcome := match walk.stop with
      | some error => .error error
      | none => .ok [] }

end Instruction

end ClassGraft
