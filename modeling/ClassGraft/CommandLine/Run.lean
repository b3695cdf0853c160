import ClassGraft.CommandLine.Invocation
import ClassGraft.Patch

/-!
# Running a command line

Reads the files that a command line names, patches or extracts, and writes the result.  Files are reached and commands
are started through a `SystemAccess`, so that a run can be looked at without a system.
-/

namespace ClassGraft.CommandLine

/-- Reading and writing files and running commands on an input, with the reason when that fails. -/
structure SystemAccess (m : Type → Type) where
  read : String → m (Except String Bytes)
  write : String → Bytes → m (Except String Unit)
  launch : Command → Bytes → m (Except String Exit)

/-- Why a run fails. -/
inductive RunError where
  | file (path reason : String)
  | badSelector (text : String)
  | patch (error : PatchError)
deriving DecidableEq, Repr

/-- The short name of the kind of error. -/
def RunError.kind : RunError → String
  | file _ _ => "IoError"
  | badSelector _ => "UsageError"
  | patch error => error.kind

/-- The wording of a run error. -/
def RunError.message : RunError → String
  | file path reason => s!"{path}: {reason}"
  | badSelector text => s!"expected a name followed by a descriptor, got {quoteText text}"
  | patch error => error.message

/-- The exit status of a run and what it prints. -/
structure Report where
  status : Nat
  output : String
  diagnostics : String
deriving DecidableEq, Repr

section

variable {m : Type → Type} [Monad m]

/-- Reads a file as bytes. -/
def readFile (system : SystemAccess m) (path : String) : ExceptT RunError m Bytes := do
  match ← system.read path with
  | .ok bytes => return bytes
  | .error reason => throw (.file path reason)

/-- Reads a file as text. -/
def readText (system : SystemAccess m) (path : String) : ExceptT RunError m String := do
  match Utf8.decode? (← readFile system path) with
  | some text => return text
  | none => throw (.file path "stream did not contain valid UTF-8")

/-- Writes a file. -/
def writeFile (system : SystemAccess m) (path : String) (bytes : Bytes) : ExceptT RunError m Unit := do
  match ← system.write path bytes with
  | .ok _ => return
  | .error reason => throw (.file path reason)

/-- The answer of a stage of the library, without the records that it notes. -/
def answerOf {ε α : Type} (wrap : ε → PatchError) (answer : LoggedExcept ε α) : ExceptT RunError m α :=
  match (answer.run #[]).1 with
  | .ok a => return a
  | .error error => throw (.patch (wrap error))

/-- The line that reports a written file. -/
def success (path : String) : String := s!"[SUCCESS] {path}\n"

/-- Sees to the frames of a class: a command recomputes them, if one is named. -/
def withFrames (system : SystemAccess m) (options : ApplyOptions) (bytes : Bytes) : ExceptT RunError m Bytes := do
  match options.framesCommand.bind Command.ofLine? with
  | some command =>
    match framesOf (← system.launch command bytes) with
    | .ok bytes => return bytes
    | .error error => throw (.patch (.frames error))
  | none => answerOf .frames (FrameRecomputer.unchanged options.allowStale bytes)

/-- Applies a patch. -/
def runApply (system : SystemAccess m) (options : ApplyOptions) : ExceptT RunError m String := do
  let mode ← match options.base, options.reference with
    | some base, _ => PatchMode.differential <$> readText system base
    | none, some reference => PatchMode.reference <$> readFile system reference
    | none, none => pure .direct
  let target ← readFile system options.target
  let patched ← readText system options.patched
  let reading := if options.strictHex then .strict else .lenient
  let (method, bytes) ← answerOf id (patchTarget ⟨target, patched, mode, reading⟩)
  let outcome ← answerOf id (outcomeOf method (← withFrames system options bytes))
  writeFile system options.output outcome.bytes
  return success options.output

/-- The selector that was given. -/
def selectorOf : MethodChoice → Except RunError Selector
  | .position position => .ok (.position position)
  | .signature text =>
    match Selector.ofSignature? text with
    | some selector => .ok selector
    | none => .error (.badSelector text)

/-- Extracts a method. -/
def runExtract (system : SystemAccess m) (options : ExtractOptions) : ExceptT RunError m String := do
  let selector ← ExceptT.mk (pure (selectorOf options.choice))
  let bytes ← readFile system options.file
  let file ← answerOf .badClass (ClassFile.parse bytes)
  let text := Hex.encode (← answerOf id (selector.extract file))
  match options.output with
  | none => return text ++ "\n"
  | some path =>
    writeFile system path (Utf8.encode text)
    return success path

/-- The line that tells the version. -/
def versionLine : String := "classpatch 0.1.0\n"

/-- The text that explains the arguments. -/
def usage : String :=
  "Usage: classpatch apply [OPTIONS] <TARGET_CLASS> <PATCHED_HEX> <OUTPUT_CLASS>\n" ++
    "       classpatch extract [OPTIONS] <CLASS> [INDEX]\n"

/-- Runs a command line, with the frames command to use when none is given. -/
def run (system : SystemAccess m) (defaultFrames : Option String) (arguments : List String) :
    m Report := do
  match invocationOf defaultFrames arguments with
  | .error .help => return ⟨0, usage, ""⟩
  | .error .misuse => return ⟨2, "", usage⟩
  | .ok invocation =>
    let answer ← ExceptT.run <| match invocation with
      | .version => pure versionLine
      | .apply options => runApply system options
      | .extract options => runExtract system options
    match answer with
    | .ok output => return ⟨0, output, ""⟩
    | .error error => return ⟨1, "", s!"[FAILURE] {error.kind}: {error.message}\n"⟩

end

end ClassGraft.CommandLine
