import ClassGraft.Bytes

/-!
# Instructions

Just enough of the instruction set to walk a code array: the length of each instruction, and whether it names a
constant in one or two bytes after its opcode.  `lengthAt` looks only at the bytes from the instruction on and at its
offset modulo four, on which the padding of a switch depends.  `walk` cuts a code array into instructions and says why
it stopped early.
-/

namespace ClassGraft

/-- Why there is no instruction at an offset. -/
inductive BytecodeError where
  | unknownOpcode (opcode : UInt8) (offset : Nat)
  | truncated (offset : Nat)
  | badSwitchRange (offset : Nat)
deriving DecidableEq, Repr

/-- A number in lower-case hexadecimal, padded with zeros to a width. -/
def paddedHex (width n : Nat) : String :=
  let digits := Nat.toDigits 16 n
  String.ofList (List.replicate (width - digits.length) '0' ++ digits)

/-- The wording of a bytecode error. -/
def BytecodeError.message : BytecodeError → String
  | unknownOpcode opcode offset => s!"unknown opcode 0x{paddedHex 2 opcode.toNat} at offset {offset}"
  | truncated offset => s!"instruction at offset {offset} is truncated"
  | badSwitchRange offset => s!"tableswitch at offset {offset} has an invalid range"

/-- How wide the constant operand of an instruction is. -/
inductive OperandWidth where
  | narrow
  | wide
deriving DecidableEq, Repr

/-- The number of bytes of an operand. -/
def OperandWidth.size : OperandWidth → Nat
  | narrow => 1
  | wide => 2

/-- An instruction in a code array. -/
structure Instruction where
  offset : Nat
  opcode : UInt8
  length : Nat
deriving DecidableEq, Repr

namespace Instruction

/-- What determines the length of an instruction. -/
inductive Shape where
  | fixed (length : Nat)
  | tableSwitch
  | lookupSwitch
  | widened
  | unknown
deriving DecidableEq, Repr

/-- The shape of the instructions with an opcode. -/
def shapeOf (opcode : UInt8) : Shape :=
  let n := opcode.toNat
  if n ≤ 0x0F then .fixed 1
  else if n = 0x10 then .fixed 2
  else if n = 0x11 then .fixed 3
  else if n = 0x12 then .fixed 2
  else if n ≤ 0x14 then .fixed 3
  else if n ≤ 0x19 then .fixed 2
  else if n ≤ 0x35 then .fixed 1
  else if n ≤ 0x3A then .fixed 2
  else if n ≤ 0x83 then .fixed 1
  else if n = 0x84 then .fixed 3
  else if n ≤ 0x98 then .fixed 1
  else if n ≤ 0xA8 then .fixed 3
  else if n = 0xA9 then .fixed 2
  else if n = 0xAA then .tableSwitch
  else if n = 0xAB then .lookupSwitch
  else if n ≤ 0xB1 then .fixed 1
  else if n ≤ 0xB8 then .fixed 3
  else if n ≤ 0xBA then .fixed 5
  else if n = 0xBB then .fixed 3
  else if n = 0xBC then .fixed 2
  else if n = 0xBD then .fixed 3
  else if n ≤ 0xBF then .fixed 1
  else if n ≤ 0xC1 then .fixed 3
  else if n ≤ 0xC3 then .fixed 1
  else if n = 0xC4 then .widened
  else if n = 0xC5 then .fixed 4
  else if n ≤ 0xC7 then .fixed 3
  else if n ≤ 0xC9 then .fixed 5
  else if n = 0xCA || n = 0xFE || n = 0xFF then .fixed 1
  else .unknown

/-- The width of the constant operand that follows an opcode, if there is one. -/
def constantOperand? (opcode : UInt8) : Option OperandWidth :=
  let n := opcode.toNat
  if n = 0x12 then some .narrow
  else if n = 0x13 || n = 0x14 || (0xB2 ≤ n && n ≤ 0xBB) || n = 0xBD || n = 0xC0 || n = 0xC1 || n = 0xC5 then
    some .wide
  else none

/-- The number of bytes between the opcode of a switch at an offset and its operands. -/
def switchPadding (offset : Nat) : Nat := (4 - (offset + 1) % 4) % 4

/-- The signed 32-bit number that starts `start` bytes into a byte string. -/
def signedWord? (bytes : Bytes) (start : Nat) : Option Int :=
  (cut 4 (bytes.drop start)).map fun (word, _) => Int.bmod (ofBigEndian word) 0x100000000

/-- The length that the operands of a `tableswitch` give it. -/
def tableSwitchLength (offset : Nat) (bytes : Bytes) : Except BytecodeError Nat :=
  let start := 1 + switchPadding offset
  match signedWord? bytes (start + 4), signedWord? bytes (start + 8) with
  | some low, some high =>
    if high < low then .error (.badSwitchRange offset) else .ok (start + 12 + 4 * (high - low + 1).toNat)
  | _, _ => .error (.truncated offset)

/-- The length that the operands of a `lookupswitch` give it. -/
def lookupSwitchLength (offset : Nat) (bytes : Bytes) : Except BytecodeError Nat :=
  let start := 1 + switchPadding offset
  match signedWord? bytes (start + 4) with
  | some pairs => if pairs < 0 then .error (.truncated offset) else .ok (start + 8 + 8 * pairs.toNat)
  | none => .error (.truncated offset)

/-- The length that a widened instruction has, whose opcode follows the one that widens it. -/
def widenedLength (offset : Nat) (operands : Bytes) : Except BytecodeError Nat :=
  match operands with
  | [] => .error (.truncated offset)
  | opcode :: _ => .ok (if opcode = 0x84 then 6 else 4)

/-- The length that the instruction at the front of `bytes` declares, without asking whether it is all there. -/
def declaredLength (offset : Nat) (bytes : Bytes) : Except BytecodeError Nat :=
  match bytes with
  | [] => .error (.truncated offset)
  | opcode :: operands =>
    match shapeOf opcode with
    | .fixed length => .ok length
    | .tableSwitch => tableSwitchLength offset bytes
    | .lookupSwitch => lookupSwitchLength offset bytes
    | .widened => widenedLength offset operands
    | .unknown => .error (.unknownOpcode opcode offset)

/-- The length of the instruction at the front of `bytes`, which start at `offset` of a code array. -/
def lengthAt (offset : Nat) (bytes : Bytes) : Except BytecodeError Nat := do
  let length ← declaredLength offset bytes
  if (cut length bytes).isSome then return length else throw (.truncated offset)

/-- A code array cut into instructions, and why the cutting ended before the end of the array. -/
structure Walk where
  instructions : List Instruction
  stop : Option BytecodeError
deriving DecidableEq, Repr

/-- Cuts the bytes from `offset` on, adding to the instructions found so far (last one first). -/
def walkOnto (offset : Nat) (bytes : Bytes) (found : List Instruction) : Walk :=
  match bytes with
  | [] => ⟨found.reverse, none⟩
  | opcode :: operands =>
    match lengthAt offset (opcode :: operands) with
    | .error stop => ⟨found.reverse, some stop⟩
    | .ok length => walkOnto (offset + length) (operands.drop (length - 1)) (⟨offset, opcode, length⟩ :: found)
termination_by bytes.length
decreasing_by simp only [List.length_drop, List.length_cons]; omega

/-- Cuts a code array into instructions. -/
def walk (code : Bytes) : Walk := walkOnto 0 code []

/-- The length of the instruction at an offset of a code array. -/
def lengthIn (code : Bytes) (offset : Nat) : Except BytecodeError Nat :=
  lengthAt offset (code.drop offset)

end Instruction

end ClassGraft
