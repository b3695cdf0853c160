import ClassGraft.Bytes
import ClassGraft.Text.Utf16

/-!
# Modified UTF-8

The encoding of text in class files.  Each UTF-16 code unit has a form of one, two or three bytes of its own, zero is
written in two bytes, and a supplementary character is a surrogate pair of three bytes each.  Unpaired surrogates and
forms that are longer than needed are well-formed, so a `StoredText` keeps its bytes beside the text they show.
-/

namespace ClassGraft

namespace ModifiedUtf8

/-- The shortest form of a code unit, with zero in two bytes. -/
def encodeUnit (u : UInt16) : Bytes :=
  let n := u.toNat
  if 0 < n && n < 0x80 then [UInt8.ofNat n]
  else if n < 0x800 then [UInt8.ofNat (0xC0 + n / 64), UInt8.ofNat (0x80 + n % 64)]
  else [UInt8.ofNat (0xE0 + n / 4096), UInt8.ofNat (0x80 + n / 64 % 64), UInt8.ofNat (0x80 + n % 64)]

/-- The bytes of a sequence of code units. -/
def encodeUnits (units : List UInt16) : Bytes :=
  units.flatMap encodeUnit

/-- The bytes of a text. -/
def encode (text : String) : Bytes :=
  encodeUnits (Utf16.unitsOfText text)

/-- Whether a byte can only continue a form. -/
def isContinuation (b : UInt8) : Bool := 0x80 ≤ b && b < 0xC0

/-- The unit of a two-byte form. -/
def unitOfTwo (a b : UInt8) : UInt16 :=
  UInt16.ofNat (a.toNat % 32 * 64 + b.toNat % 64)

/-- The unit of a three-byte form. -/
def unitOfThree (a b c : UInt8) : UInt16 :=
  UInt16.ofNat (a.toNat % 16 * 4096 + b.toNat % 64 * 64 + c.toNat % 64)

/-- The units of a byte string, in reverse, in front of those already read; nothing when it is malformed. -/
def unitsOnto : Bytes → List UInt16 → Option (List UInt16)
  | [], read => some read
  | a :: rest, read =>
    if 0 < a && a < 0x80 then unitsOnto rest (a.toUInt16 :: read)
    else if 0xC0 ≤ a && a < 0xE0 then
      match rest with
      | b :: rest => if isContinuation b then unitsOnto rest (unitOfTwo a b :: read) else none
      | [] => none
    else if 0xE0 ≤ a && a < 0xF0 then
      match rest with
      | b :: c :: rest =>
        if isContinuation b && isContinuation c then unitsOnto rest (unitOfThree a b c :: read) else none
      | _ => none
    else none

/-- The code units of a byte string; nothing when it does not split into forms. -/
def decode (bytes : Bytes) : Option (List UInt16) :=
  (unitsOnto bytes []).map List.reverse

end ModifiedUtf8

/-- A text as a class file stores it: the bytes, which are written back as they are, and the text they show. -/
structure StoredText where
  text : String
  encoded : Bytes
deriving DecidableEq, Repr

namespace StoredText

/-- A text in the shortest forms. -/
def ofText (text : String) : StoredText := ⟨text, ModifiedUtf8.encode text⟩

/-- The stored text of a byte string; nothing when it is malformed. -/
def ofEncoded (encoded : Bytes) : Option StoredText :=
  (ModifiedUtf8.decode encoded).map fun units => ⟨Utf16.textOfUnits units, encoded⟩

/-- Whether the shown text, written again, gives other bytes than those stored. -/
def isLossy (stored : StoredText) : Bool :=
  ModifiedUtf8.encode stored.text != stored.encoded

end StoredText

end ClassGraft
