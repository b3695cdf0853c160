import ClassGraft.Bytes
import ClassGraft.Log
import ClassGraft.Text.Blank
import ClassGraft.Text.Quoted

/-!
# Hex text

Bytes as pairs of hexadecimal digits.  Blanks are ignored wherever they stand.  Reading is either strict, refusing
anything but an even number of digits, or lenient, where each pair that is not two digits stands for a zero byte and a
last single character is dropped; the two agree on every text that strict reading accepts.
-/

namespace ClassGraft

/-- How to read malformed hex text. -/
inductive HexReading where
  | lenient
  | strict
deriving DecidableEq, Repr

/-- Why a text is not strict hex.  Positions count the characters that are not blank. -/
inductive HexError where
  | invalidDigit (position : Nat) (found : Char)
  | oddLength (length : Nat)
deriving DecidableEq, Repr

/-- The wording of a hex error. -/
def HexError.message : HexError → String
  | invalidDigit position found => s!"invalid hex digit {quoteChar found} at position {position}"
  | oddLength length => s!"odd number of hex digits ({length})"

namespace Hex

/-- The value of a hexadecimal digit of either case. -/
def digitValue? (c : Char) : Option Nat :=
  if '0' ≤ c && c ≤ '9' then some (c.toNat - '0'.toNat)
  else if 'a' ≤ c && c ≤ 'f' then some (c.toNat - 'a'.toNat + 10)
  else if 'A' ≤ c && c ≤ 'F' then some (c.toNat - 'A'.toNat + 10)
  else none

/-- The lower-case digit of a value below sixteen. -/
def digitChar (n : Nat) : Char :=
  if n < 10 then Char.ofNat ('0'.toNat + n) else Char.ofNat ('a'.toNat + (n - 10))

/-- The characters of a text that count as hex text. -/
def significant (text : String) : List Char :=
  text.toList.filter fun c => !isBlank c

/-- The byte of a pair of digits; nothing when one of them is no digit. -/
def pairValue? (pair : Char × Char) : Option UInt8 :=
  match digitValue? pair.1, digitValue? pair.2 with
  | some high, some low => some (UInt8.ofNat (16 * high + low))
  | _, _ => none

/-- The pairs of a list in reverse in front of those already found, and the element left over. -/
def pairsOnto {α : Type} : List α → List (α × α) → List (α × α) × Option α
  | a :: b :: rest, found => pairsOnto rest ((a, b) :: found)
  | [a], found => (found, some a)
  | [], found => (found, none)

/-- The elements of a list two by two, and the last one if their number is odd. -/
def pairs {α : Type} (xs : List α) : List (α × α) × Option α :=
  let (found, last) := pairsOnto xs []
  (found.reverse, last)

/-- The bytes of a text, with zero for each pair that is not two digits. -/
def decodeLenient (text : String) : Bytes :=
  (pairs (significant text)).1.map fun pair => (pairValue? pair).getD 0

/-- What lenient reading overlooks in a text. -/
def overlooked (text : String) : List String :=
  let (pairs, last) := pairs (significant text)
  let malformed := pairs.countP fun pair => (pairValue? pair).isNone
  let dangling := match last with
    | some c => [s!"Ignoring dangling hex digit {quoteChar c} at the end of the input"]
    | none => []
  dangling ++ if 0 < malformed then [s!"Zero-filled {malformed} malformed hex pair(s)"] else []

/-- The first character that is no digit, with its position. -/
def firstNonDigit? (chars : List Char) : Option (Nat × Char) :=
  (chars.find? fun c => (digitValue? c).isNone).map fun c => (chars.idxOf c, c)

/-- The bytes of a text that holds an even number of digits and nothing else but blanks. -/
def decodeStrict (text : String) : Except HexError Bytes :=
  let chars := significant text
  match firstNonDigit? chars with
  | some (position, found) => .error (.invalidDigit position found)
  | none =>
    if chars.length % 2 = 0 then .ok ((pairs chars).1.map fun pair => (pairValue? pair).getD 0)
    else .error (.oddLength chars.length)

/-- Reads a text in the given way, noting what lenient reading overlooks. -/
def decode (reading : HexReading) (text : String) : LoggedExcept HexError Bytes :=
  match reading with
  | .lenient => do
    noteAll .warning (overlooked text)
    return decodeLenient text
  | .strict => ExceptT.mk (pure (decodeStrict text))

/-- The two digits of a byte. -/
def encodeByte (b : UInt8) : List Char :=
  [digitChar (b.toNat / 16), digitChar (b.toNat % 16)]

/-- Bytes as lower-case digits without blanks. -/
def encode (bytes : Bytes) : String :=
  String.ofList (bytes.flatMap encodeByte)

end Hex

end ClassGraft
