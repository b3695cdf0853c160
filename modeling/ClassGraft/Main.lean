import ClassGraft.CommandLine.Run

/-!
# The command line program

Runs a command line on the files of the system and prints the report.  Starting a program that recomputes frames is left
to whoever runs the command line.
-/

namespace ClassGraft.Main

/-- The reason in an error of the system. -/
def reasonOf (error : IO.Error) : String :=
  match error with
  | .noFileOrDirectory _ code details => s!"{details} (os error {code})"
  | .permissionDenied _ code details => s!"{details} (os error {code})"
  | .inappropriateType _ code details => s!"{details} (os error {code})"
  | .alreadyExists _ code details => s!"{details} (os error {code})"
  | .resourceBusy code details => s!"{details} (os error {code})"
  | other => toString other

/-- Runs an action of the system, with the reason when it fails. -/
def attempt {α : Type} (action : IO α) : IO (Except String α) := do
  match ← action.toBaseIO with
  | .ok a => return .ok a
  | .error error => return .error (reasonOf error)

/-- Names without the last ones, as far as these stay where they are. -/
def withoutStays (names : List String) : List String :=
  (names.reverse.dropWhile fun name => name = "" || name = ".").reverse

/-- The path of a name in a directory, which is the working directory when it has no path. -/
def pathIn (directory name : String) : String :=
  if directory = "" then name else s!"{directory}/{name}"

/-- The path of a file beside another, to be moved into its place.  A path that ends in no name is taken for that of a
directory. -/
def besidePath (path : String) : String :=
  let names := withoutStays (path.splitOn "/")
  match names.getLast? with
  | none => pathIn path "..tmp"
  | some ".." => pathIn path "..tmp"
  | some name => "/".intercalate (names.dropLast ++ [s!".{name}.tmp"])

/-- Writes a file beside the one at a path and moves it into its place. -/
def replaceFile (path : String) (bytes : Bytes) : IO Unit := do
  let beside := besidePath path
  IO.FS.writeBinFile beside ⟨bytes.toArray⟩
  try IO.FS.rename beside path
  catch error =>
    let _ ← (IO.FS.removeFile beside).toBaseIO
    throw error

/-- Access to the files of the system, and to programs by what starts them. -/
def realSystem (launch : Command → Bytes → IO (Except String Exit)) : CommandLine.SystemAccess IO where
  read path := attempt do return (← IO.FS.readBinFile path).toList
  write path bytes := attempt (replaceFile path bytes)
  launch := launch

/-- Runs the command line program, which has its programs started by what is given for this. -/
def program (launch : Command → Bytes → IO (Except String Exit)) (arguments : List String) : IO UInt32 := do
  let defaultFrames ← IO.getEnv "CLASSPATCH_FRAMES_COMMAND"
  let report ← CommandLine.run (realSystem launch) defaultFrames arguments
  IO.print report.output
  IO.eprint report.diagnostics
  return UInt32.ofNat report.status

end ClassGraft.Main
