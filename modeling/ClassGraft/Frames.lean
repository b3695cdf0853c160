import ClassGraft.ClassFile.Basic
import ClassGraft.Text.Blank
import ClassGraft.Text.Utf8

/-!
# Recomputing stack map frames

Changed instructions make the stack map frames of a class stale.  Computing frames needs all the classes that a class
refers to, so it is left to a recomputer, which takes the bytes of a class and gives those of one with fresh frames.
Two recomputers are defined here: one that leaves the frames alone and only checks that the code can be walked, and one
that has a program do the work.
-/

namespace ClassGraft

/-- Why frames were not recomputed. -/
inductive FramesError where
  | notRun (reason : String)
  | rejected (status : Option Int) (reason : String)
  | malformed (error : FormatError)
deriving DecidableEq, Repr

/-- The wording of a frames error. -/
def FramesError.message : FramesError → String
  | notRun reason => s!"could not run frame recomputer: {reason}"
  | rejected (some status) reason => s!"rejected (exit status {status}): {trimBlanks reason}"
  | rejected none reason => s!"rejected: {trimBlanks reason}"
  | malformed error => s!"malformed class: {error.message}"

/-- Takes the bytes of a class and gives those of the class with fresh frames. -/
abbrev FrameRecomputer := Bytes → LoggedExcept FramesError Bytes

/-- A program with its arguments. -/
structure Command where
  program : String
  arguments : List String
deriving DecidableEq, Repr

/-- How a program ended: its exit status unless it was killed, what it wrote, and why it could not be given all of its
input if it could not. -/
structure Exit where
  status : Option Int
  output : Bytes
  diagnostics : Bytes
  unfed : Option String
deriving DecidableEq, Repr

/-- Runs a command on an input, or says why it cannot be run. -/
abbrev Runner := Command → Bytes → Except String Exit

/-- What a command has given for a class: the bytes of one with fresh frames, if it could be run, went well and could be
given the whole class.  A program that fails is free to leave its input unread. -/
def framesOf : Except String Exit → Except FramesError Bytes
  | .error reason => .error (.notRun reason)
  | .ok exit =>
    if exit.status = some 0 then
      match exit.unfed with
      | some reason => .error (.notRun reason)
      | none => .ok exit.output
    else .error (.rejected exit.status (Utf8.decodeLossy exit.diagnostics))

/-- The command that a line of words stands for; nothing when there is no word. -/
def Command.ofLine? (line : String) : Option Command :=
  match blankSeparated line with
  | [] => none
  | program :: arguments => some ⟨program, arguments⟩

namespace FrameRecomputer

/-- Refuses a code attribute of a method that cannot be walked. -/
def checkAttribute (pool : Pool) (method : Method) (entry : Attribute) : LoggedExcept FramesError Unit := do
  if entry.isNamed pool codeName then
    match ← (Code.parse entry.info).run with
    | .error error => throw (.malformed error)
    | .ok code =>
      match (Instruction.walk code.code).stop with
      | none => return
      | some stop =>
        let name := (method.name pool).toOption.getD "?"
        throw (.rejected none s!"method {name}: {stop.message}")

/-- Refuses a method with a code attribute that cannot be walked. -/
def checkMethod (pool : Pool) (method : Method) : LoggedExcept FramesError Unit :=
  method.attributes.forM (checkAttribute pool method)

/-- Gives back the bytes of a class whose code can be walked.  A class that needs frames is refused unless stale ones
are allowed. -/
def unchanged (allowStale : Bool) : FrameRecomputer := fun bytes => do
  match ← (ClassFile.parse bytes).run with
  | .error error => throw (.malformed error)
  | .ok file =>
    if file.version.requiresFrames then
      unless allowStale do
        throw (.rejected none
          s!"class version {file.version.text} needs stack map frames, but nothing recomputes them")
      note .warning
        s!"Class version {file.version.text} needs stack map frames, which are not being recomputed"
    file.methods.forM (checkMethod file.pool)
    return bytes

/-- Has a program turn the bytes of a class on its input into those on its output. -/
def external (run : Runner) (command : Command) : FrameRecomputer := fun bytes => do
  note .info s!"Recomputing frames with '{command.program}'"
  ExceptT.mk (return framesOf (run command bytes))

end FrameRecomputer

end ClassGraft
