import ClassGraft.CommandLine.Arguments

/-!
# What a command line asks for

There are two actions: applying a patch to a class and extracting a method from one.
-/

namespace ClassGraft.CommandLine

/-- Files and settings for applying a patch. -/
structure ApplyOptions where
  target : String
  patched : String
  output : String
  reference : Option String
  base : Option String
  strictHex : Bool
  framesCommand : Option String
  allowStale : Bool
deriving DecidableEq, Repr

/-- The method meant by an extraction, as it was given. -/
inductive MethodChoice where
  | position (position : Nat)
  | signature (text : String)
deriving DecidableEq, Repr

/-- Files and settings for extracting a method. -/
structure ExtractOptions where
  file : String
  choice : MethodChoice
  output : Option String
deriving DecidableEq, Repr

/-- What is to be done. -/
inductive Invocation where
  | version
  | apply (options : ApplyOptions)
  | extract (options : ExtractOptions)
deriving DecidableEq, Repr

/-- The options of applying a patch. -/
def applyForms : List OptionForm :=
  [⟨"ref", none, true⟩, ⟨"diff", none, true⟩, ⟨"strict-hex", none, false⟩, ⟨"frames-command", none, true⟩,
    ⟨"no-frames", none, false⟩]

/-- The options of extracting a method. -/
def extractForms : List OptionForm := [⟨"method", none, true⟩, ⟨"output", some 'o', true⟩]

/-- Reads the arguments of applying a patch.  A reference class may be given as an option or as the fourth positional
argument, and excludes a base method. -/
def applyOptions (defaultFrames : Option String) (arguments : List String) : Except Halt ApplyOptions := do
  let sorted ← sort applyForms (List.replicate 4 fun _ => true) arguments
  let base := sorted.value? "diff"
  let options (target patched output : String) (reference : Option String) : ApplyOptions :=
    ⟨target, patched, output, reference, base, sorted.has "strict-hex",
      (sorted.value? "frames-command").or defaultFrames, sorted.has "no-frames"⟩
  match sorted.positional, sorted.value? "ref", base with
  | [target, patched, output], none, _ => return options target patched output none
  | [target, patched, output], some reference, none => return options target patched output (some reference)
  | [target, patched, output, reference], none, none => return options target patched output (some reference)
  | _, _, _ => throw .misuse

/-- Reads the arguments of extracting a method, which is given either by position or by signature. -/
def extractOptions (arguments : List String) : Except Halt ExtractOptions := do
  let sorted ← sort extractForms [fun _ => true, fun position => (numberOf? position).isSome] arguments
  match sorted.positional, sorted.value? "method" with
  | [file], some signature => return ⟨file, .signature signature, sorted.value? "output"⟩
  | [file, position], none =>
    match numberOf? position with
    | some position => return ⟨file, .position position, sorted.value? "output"⟩
    | none => throw .misuse
  | _, _ => throw .misuse

/-- Whether a help request names nothing, or one thing that there is help for. -/
def isHelpTopic : List String → Bool
  | [] => true
  | [topic] => topic = "apply" || topic = "extract" || topic = "help"
  | _ => false

/-- Reads a command line, with the frames command to use when none is given. -/
def invocationOf (defaultFrames : Option String) (arguments : List String) : Except Halt Invocation :=
  match arguments with
  | [] => .error .misuse
  | first :: rest =>
    match shapeOf first with
    | .positional =>
      if first = "apply" then .apply <$> applyOptions defaultFrames rest
      else if first = "extract" then .extract <$> extractOptions rest
      else if first = "help" && isHelpTopic rest then .error .help
      else .error .misuse
    | .long name none =>
      if name = "version" then .ok .version
      else if name = "help" then .error .help
      else .error .misuse
    | .short letter _ =>
      if letter = 'V' then .ok .version
      else if letter = 'h' then .error .help
      else .error .misuse
    | _ => .error .misuse

end ClassGraft.CommandLine
