/-!
# Shortest decimal text of a binary floating-point number

A finite number in an IEEE 754 format is `m * 2 ^ q`, and the reals that round to it form an interval around it.  The
shortest text is found on the decimal grids of one, two, three … digits: of the two grid points next to the number, the
first that lies in the interval, and of two such points the nearer one, the upper one at equal distance.  All
arithmetic is on natural numbers.
-/

namespace ClassGraft

/-- The layout of a binary floating-point format. -/
structure BinaryFormat where
  exponentBits : Nat
  fractionBits : Nat
deriving DecidableEq, Repr

/-- The 32-bit format. -/
def binary32 : BinaryFormat := ⟨8, 23⟩

/-- The 64-bit format. -/
def binary64 : BinaryFormat := ⟨11, 52⟩

namespace BinaryFormat

/-- The exponent field of a number given by its bits. -/
def exponentField (format : BinaryFormat) (bits : Nat) : Nat :=
  (bits >>> format.fractionBits) % (1 <<< format.exponentBits)

/-- The fraction field of a number given by its bits. -/
def fractionField (format : BinaryFormat) (bits : Nat) : Nat := bits % (1 <<< format.fractionBits)

/-- Whether the sign bit is set. -/
def isNegative (format : BinaryFormat) (bits : Nat) : Bool :=
  (bits >>> (format.fractionBits + format.exponentBits)) % 2 = 1

/-- Whether the exponent field marks an infinity or a NaN. -/
def isSpecial (format : BinaryFormat) (bits : Nat) : Bool :=
  format.exponentField bits = (1 <<< format.exponentBits) - 1

/-- Whether the bits stand for no number. -/
def isNaN (format : BinaryFormat) (bits : Nat) : Bool :=
  format.isSpecial bits && format.fractionField bits != 0

/-- Whether the bits stand for one of the two zeros. -/
def isZero (format : BinaryFormat) (bits : Nat) : Bool :=
  format.exponentField bits = 0 && format.fractionField bits = 0

/-- Whether two bit patterns are equal as numbers: a NaN equals nothing, and the two zeros are equal. -/
def sameNumber (format : BinaryFormat) (a b : Nat) : Bool :=
  !format.isNaN a && !format.isNaN b && (a == b || (format.isZero a && format.isZero b))

end BinaryFormat

namespace Decimal

/-- A positive rational interval around a value; the three numerators share one denominator. -/
structure Rounding where
  low : Nat
  value : Nat
  high : Nat
  denominator : Nat
  closed : Bool
deriving Repr

/-- The reals that round to a finite positive number given by its bits. -/
def roundingOf (format : BinaryFormat) (bits : Nat) : Rounding :=
  let e := format.exponentField bits
  let f := format.fractionField bits
  let m := if e = 0 then f else f + (1 <<< format.fractionBits)
  let bias := (1 <<< (format.exponentBits - 1)) - 1
  let up := 1 <<< (max e 1 - (bias + format.fractionBits + 2))
  let down := 1 <<< (bias + format.fractionBits + 2 - max e 1)
  let below := if f = 0 then 1 else 2
  ⟨(4 * m - below) * up, 4 * m * up, (4 * m + 2) * up, down, m % 2 = 0⟩

/-- The interval with all its points divided by `10 ^ s`. -/
def Rounding.scaled (r : Rounding) (s : Int) : Rounding :=
  let up := Nat.pow 10 (-s).toNat
  ⟨r.low * up, r.value * up, r.high * up, r.denominator * Nat.pow 10 s.toNat, r.closed⟩

/-- Whether a whole number lies in the interval. -/
def Rounding.contains (r : Rounding) (n : Nat) : Bool :=
  let x := n * r.denominator
  if r.closed then r.low ≤ x && x ≤ r.high else r.low < x && x < r.high

/-- The whole number next to the value that lies in the interval: the nearer one, of two equally near the upper. -/
def Rounding.gridPoint? (r : Rounding) : Option Nat :=
  let n := r.value / r.denominator
  let remainder := r.value % r.denominator
  match r.contains n, r.contains (n + 1) with
  | true, true => some (if 2 * remainder < r.denominator then n else n + 1)
  | true, false => some n
  | false, true => some (n + 1)
  | false, false => none

/-- The exponent of the first decimal digit of the value. -/
def Rounding.exponent (r : Rounding) : Int :=
  if r.denominator ≤ r.value then ((Nat.toDigits 10 (r.value / r.denominator)).length : Int) - 1
  else -((Nat.toDigits 10 ((r.denominator - 1) / r.value)).length : Int)

/-- A decimal number: its digits without trailing zeros and the exponent of the first one. -/
structure Digits where
  digits : List Char
  exponent : Int
deriving DecidableEq, Repr

/-- The digits of `n * 10 ^ s`. -/
def Digits.ofScaled (n : Nat) (s : Int) : Digits :=
  let digits := Nat.toDigits 10 n
  ⟨(digits.reverse.dropWhile (· == '0')).reverse, s + digits.length - 1⟩

/-- The shortest digits in the interval, which are no more than seventeen for the formats above. -/
def Rounding.shortest (r : Rounding) : Digits :=
  let point := (List.range 17).findSome? fun (k : Nat) =>
    let s := r.exponent - k
    (r.scaled s).gridPoint?.map fun n => Digits.ofScaled n s
  point.getD ⟨['0'], 0⟩

/-- Digits written with a point and at least one digit on each side of it. -/
def Digits.positional (d : Digits) : List Char :=
  if d.exponent < 0 then
    ['0', '.'] ++ List.replicate (-d.exponent - 1).toNat '0' ++ d.digits
  else
    let whole := d.exponent.toNat + 1
    let front := d.digits.take whole
    let fraction := d.digits.drop whole
    front ++ List.replicate (whole - front.length) '0' ++ ['.'] ++ if fraction.isEmpty then ['0'] else fraction

/-- Digits written with an exponent, and with a point only if there is more than one digit. -/
def Digits.scientific (d : Digits) : List Char :=
  let mantissa := match d.digits with
    | first :: next :: rest => first :: '.' :: next :: rest
    | digits => digits
  mantissa ++ ['e'] ++ (toString d.exponent).toList

/-- Digits without an exponent from `10 ^ -4` up to below `10 ^ 16`, and with one elsewhere. -/
def Digits.text (d : Digits) : List Char :=
  if -4 ≤ d.exponent && d.exponent < 16 then d.positional else d.scientific

/-- The text of a number given by its bits. -/
def textOfBits (format : BinaryFormat) (bits : Nat) : String :=
  if format.isNaN bits then "NaN"
  else
    let magnitude :=
      if format.isSpecial bits then ['i', 'n', 'f']
      else if format.isZero bits then ['0', '.', '0']
      else (roundingOf format bits).shortest.text
    String.ofList (if format.isNegative bits then '-' :: magnitude else magnitude)

end Decimal

end ClassGraft
