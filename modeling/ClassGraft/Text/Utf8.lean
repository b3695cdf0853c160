import ClassGraft.Bytes

/-!
# UTF-8

Reading bytes as text.  Every maximal run of bytes that begins a character but does not finish one, and every byte that
begins none, is malformed; lenient reading puts `U+FFFD` in the place of each.
-/

namespace ClassGraft.Utf8

/-- What the first byte of a longer character says: the number of bytes, and the range of the second one. -/
def leadOf? (lead : UInt8) : Option (Nat × UInt8 × UInt8) :=
  if lead < 0xC2 then none
  else if lead < 0xE0 then some (2, 0x80, 0xBF)
  else if lead = 0xE0 then some (3, 0xA0, 0xBF)
  else if lead = 0xED then some (3, 0x80, 0x9F)
  else if lead < 0xF0 then some (3, 0x80, 0xBF)
  else if lead = 0xF0 then some (4, 0x90, 0xBF)
  else if lead < 0xF4 then some (4, 0x80, 0xBF)
  else if lead = 0xF4 then some (4, 0x80, 0x8F)
  else none

/-- Whether a byte can only continue a character. -/
def isContinuation (b : UInt8) : Bool := 0x80 ≤ b && b < 0xC0

/-- The character with the given bytes, of which the first has the leading bits of a number of that many bytes. -/
def charOf (lead : UInt8) (rest : Bytes) : Char :=
  let bits := if rest.length = 1 then lead.toNat % 32 else if rest.length = 2 then lead.toNat % 16 else lead.toNat % 8
  Char.ofNat (rest.foldl (fun n b => 64 * n + b.toNat % 64) bits)

/-- The characters of a byte string in reverse in front of those already read, with nothing for malformed bytes. -/
def readOnto : Bytes → List (Option Char) → List (Option Char)
  | [], read => read
  | a :: rest, read =>
    if a < 0x80 then readOnto rest (some (Char.ofNat a.toNat) :: read)
    else
      match leadOf? a, rest with
      | none, rest => readOnto rest (none :: read)
      | some _, [] => none :: read
      | some (size, low, high), b :: rest =>
        if b < low || high < b then readOnto (b :: rest) (none :: read)
        else if size = 2 then readOnto rest (some (charOf a [b]) :: read)
        else
          match rest with
          | [] => none :: read
          | c :: rest =>
            if !isContinuation c then readOnto (c :: rest) (none :: read)
            else if size = 3 then readOnto rest (some (charOf a [b, c]) :: read)
            else
              match rest with
              | [] => none :: read
              | d :: rest =>
                if !isContinuation d then readOnto (d :: rest) (none :: read)
                else readOnto rest (some (charOf a [b, c, d]) :: read)

/-- The characters of a byte string, with nothing for each malformed run. -/
def read (bytes : Bytes) : List (Option Char) := (readOnto bytes []).reverse

/-- The text of a byte string without malformed bytes. -/
def decode? (bytes : Bytes) : Option String := ((read bytes).mapM id).map String.ofList

/-- The text of a byte string, with `U+FFFD` for each malformed run. -/
def decodeLossy (bytes : Bytes) : String :=
  String.ofList ((read bytes).map fun c => c.getD '\uFFFD')

/-- The bytes of a text. -/
def encode (text : String) : Bytes := text.toUTF8.toList

end ClassGraft.Utf8
