/-!
# UTF-16 code units

A text as a sequence of 16-bit code units.  Characters up to `U+FFFF` are one unit and the others a pair of
surrogates.  Reading units back joins pairs, and every surrogate outside a pair becomes `U+FFFD`.
-/

namespace ClassGraft.Utf16

/-- The one or two code units of a character. -/
def unitsOfChar (c : Char) : List UInt16 :=
  let n := c.toNat
  if n < 0x10000 then [UInt16.ofNat n]
  else [UInt16.ofNat (0xD800 + (n - 0x10000) / 0x400), UInt16.ofNat (0xDC00 + (n - 0x10000) % 0x400)]

/-- The code units of a text. -/
def unitsOfText (text : String) : List UInt16 :=
  text.toList.flatMap unitsOfChar

/-- Whether a unit is the first half of a surrogate pair. -/
def isHigh (u : UInt16) : Bool := 0xD800 ≤ u && u < 0xDC00

/-- Whether a unit is the second half of a surrogate pair. -/
def isLow (u : UInt16) : Bool := 0xDC00 ≤ u && u < 0xE000

/-- The character of a surrogate pair. -/
def joinPair (high low : UInt16) : Char :=
  Char.ofNat (0x10000 + (high.toNat - 0xD800) * 0x400 + (low.toNat - 0xDC00))

/-- The character of a unit that is in no pair. -/
def charOfUnit (u : UInt16) : Char :=
  if isHigh u || isLow u then '\uFFFD' else Char.ofNat u.toNat

/-- The characters of a sequence of units, in reverse, in front of those already read. -/
def charsOnto : List UInt16 → List Char → List Char
  | [], read => read
  | [u], read => charOfUnit u :: read
  | u :: v :: rest, read =>
    if isHigh u && isLow v then charsOnto rest (joinPair u v :: read)
    else charsOnto (v :: rest) (charOfUnit u :: read)

/-- The text of a sequence of units, with `U+FFFD` for each unpaired surrogate. -/
def textOfUnits (units : List UInt16) : String :=
  String.ofList (charsOnto units []).reverse

end ClassGraft.Utf16
