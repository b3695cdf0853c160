import ClassGraft.MethodTable

/-!
# Selecting a method

A method of a class is selected by its position or by its name and descriptor, and extracted as the bytes that the
class file holds for it.
-/

namespace ClassGraft

/-- Which method of a class is meant. -/
inductive Selector where
  | position (position : Nat)
  | signature (name descriptor : String)
deriving DecidableEq, Repr

namespace Selector

/-- Splits a name and the descriptor right after it at the first opening parenthesis. -/
def ofSignature? (text : String) : Option Selector :=
  let name := text.toList.takeWhile (· != '(')
  let descriptor := text.toList.dropWhile (· != '(')
  if name.isEmpty || descriptor.isEmpty then none
  else some (signature (String.ofList name) (String.ofList descriptor))

/-- A selector as a message shows it. -/
def text : Selector → String
  | .position n => s!"#{n}"
  | .signature name descriptor => name ++ descriptor

/-- The method that a selector means. -/
def find? (file : ClassFile) : Selector → Option Method
  | .position n => file.methods[n]?
  | .signature name descriptor => do file.methods[← file.findMethod? name descriptor]?

/-- The bytes of the method that a selector means. -/
def extract? (file : ClassFile) (selector : Selector) : Logged (Option Bytes) := do
  match selector.find? file with
  | some method =>
    note .info s!"Extracting method {selector.text}"
    return some method.bytes
  | none => return none

end Selector

end ClassGraft
