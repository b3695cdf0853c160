/-!
# Command line arguments

Options may stand anywhere among the positional arguments, up to a double dash, after which everything is positional.
A long option has its value after an equals sign or in the next argument, and a short one also right after its letter.
A value in an argument of its own may not begin with a dash, unless it is a single dash, and no option may be given
twice.  An argument that does not fit its place is refused before those after it are looked at.
-/

namespace ClassGraft.CommandLine

/-- Why arguments lead to no action: help was asked for, or they make no sense. -/
inductive Halt where
  | help
  | misuse
deriving DecidableEq, Repr

/-- An option: its long name, its letter if it has one, and whether it has a value. -/
structure OptionForm where
  long : String
  letter : Option Char
  hasValue : Bool
deriving DecidableEq, Repr

/-- Arguments sorted into positional ones and options with their values; options without a value have an empty one. -/
structure Sorted where
  positional : List String
  options : List (String × String)
deriving DecidableEq, Repr

namespace Sorted

/-- The value of an option, if it was given. -/
def value? (sorted : Sorted) (long : String) : Option String := sorted.options.lookup long

/-- Whether an option was given. -/
def has (sorted : Sorted) (long : String) : Bool := (sorted.value? long).isSome

/-- Adds an option that has not been given yet. -/
def withOption (sorted : Sorted) (long value : String) : Except Halt Sorted :=
  if sorted.has long then .error .misuse
  else .ok { sorted with options := sorted.options ++ [(long, value)] }

/-- Adds a positional argument, if there is a place left for one, which says whether it fits. -/
def withPositional (places : List (String → Bool)) (sorted : Sorted) (argument : String) : Except Halt Sorted :=
  match places[sorted.positional.length]? with
  | some fits =>
    if fits argument then .ok { sorted with positional := sorted.positional ++ [argument] }
    else .error .misuse
  | none => .error .misuse

end Sorted

/-- What an argument is, by its form. -/
inductive Shape where
  | positional
  | separator
  | long (name : String) (value : Option String)
  | short (letter : Char) (rest : List Char)
deriving DecidableEq, Repr

/-- The form of an argument. -/
def shapeOf (argument : String) : Shape :=
  match argument.toList with
  | ['-', '-'] => .separator
  | '-' :: '-' :: rest =>
    let name := rest.takeWhile (· != '=')
    match rest.dropWhile (· != '=') with
    | _ :: value => .long (String.ofList name) (some (String.ofList value))
    | [] => .long (String.ofList name) none
  | '-' :: letter :: rest => .short letter rest
  | _ => .positional

/-- The value right after the letter of a short option, if there is one. -/
def attachedValue? : List Char → Option String
  | [] => none
  | '=' :: value => some (String.ofList value)
  | value => some (String.ofList value)

/-- Adds the option of a form whose value may be attached to it, and otherwise is the next argument. -/
def takeOption (form : OptionForm) (attached : Option String) (rest : List String) (sorted : Sorted) :
    Except Halt (Sorted × { after : List String // after.length ≤ rest.length }) :=
  if form.hasValue then
    match attached, rest with
    | some value, rest => (sorted.withOption form.long value).map (·, ⟨rest, Nat.le_refl _⟩)
    | none, next :: rest =>
      if shapeOf next = .positional then
        (sorted.withOption form.long next).map (·, ⟨rest, Nat.le_succ _⟩)
      else .error .misuse
    | none, [] => .error .misuse
  else if attached.isNone then (sorted.withOption form.long "").map (·, ⟨rest, Nat.le_refl _⟩)
  else .error .misuse

/-- Sorts arguments, given the forms of the options and what fits the places of positional arguments. -/
def sortOnto (forms : List OptionForm) (places : List (String → Bool)) (arguments : List String) (sorted : Sorted) :
    Except Halt Sorted :=
  match arguments with
  | [] => .ok sorted
  | argument :: rest =>
    match shapeOf argument with
    | .positional => do sortOnto forms places rest (← sorted.withPositional places argument)
    | .separator => rest.foldlM (Sorted.withPositional places) sorted
    | .long name value =>
      if name = "help" && value.isNone then .error .help
      else
        match forms.find? fun form => form.long = name with
        | none => .error .misuse
        | some form => do
          let (sorted, ⟨rest, _⟩) ← takeOption form value rest sorted
          sortOnto forms places rest sorted
    | .short letter value =>
      if letter = 'h' then .error .help
      else
        match forms.find? fun form => form.letter = some letter with
        | none => .error .misuse
        | some form => do
          let (sorted, ⟨rest, _⟩) ← takeOption form (attachedValue? value) rest sorted
          sortOnto forms places rest sorted
termination_by arguments.length
decreasing_by all_goals simp only [List.length_cons]; omega

/-- Sorts arguments. -/
def sort (forms : List OptionForm) (places : List (String → Bool)) (arguments : List String) : Except Halt Sorted :=
  sortOnto forms places arguments ⟨[], []⟩

/-- A number below `2 ^ 64` in decimal digits, with or without a plus sign. -/
def numberOf? (text : String) : Option Nat :=
  let digits := match text.toList with
    | '+' :: rest => rest
    | chars => chars
  if digits.isEmpty || digits.any fun c => c < '0' || '9' < c then none
  else
    let number := digits.foldl (fun n c => 10 * n + (c.toNat - '0'.toNat)) 0
    if number < 0x10000000000000000 then some number else none

end ClassGraft.CommandLine
