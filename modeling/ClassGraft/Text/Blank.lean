/-!
# Blank characters

The characters with the Unicode property `White_Space`, and the two operations that depend on it: splitting a
text into words and trimming it at both ends.
-/

namespace ClassGraft

/-- Whether a character has the Unicode property `White_Space`. -/
def isBlank (c : Char) : Bool :=
  let n := c.toNat
  (0x9 ≤ n && n ≤ 0xD) || n == 0x20 || n == 0x85 || n == 0xA0 || n == 0x1680 || (0x2000 ≤ n && n ≤ 0x200A) ||
    n == 0x2028 || n == 0x2029 || n == 0x202F || n == 0x205F || n == 0x3000

/-- The maximal runs of characters that are not blank, in order. -/
def blankSeparated (text : String) : List String :=
  (text.toList.splitBy fun a b => isBlank a == isBlank b).filterMap fun run =>
    if run.any isBlank then none else some (String.ofList run)

/-- A text without the blanks at its two ends. -/
def trimBlanks (text : String) : String :=
  String.ofList ((text.toList.dropWhile isBlank).reverse.dropWhile isBlank).reverse

end ClassGraft
