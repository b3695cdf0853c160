import ClassGraft.Alignment
import ClassGraft.Frames
import ClassGraft.Hex
import ClassGraft.Method.Decoding
import ClassGraft.Selector
import ClassGraft.Transfer.Method

/-!
# Patching a class

Puts a patched method, given as hex text, into a target class.  Its indices are those of the target itself, those of a
reference class, or those of whatever numbering the patch was made in, in which case the method that it was derived
from tells how to put them right and only the code of that method is replaced.  Either every stage succeeds, or no
bytes come out.
-/

namespace ClassGraft

/-- How the indices of a patched method are to be understood. -/
inductive PatchMode where
  | direct
  | reference (file : Bytes)
  | differential (baseHex : String)
deriving DecidableEq, Repr

/-- A target class, a patched method, and how it is to be understood. -/
structure PatchRequest where
  target : Bytes
  patchedHex : String
  mode : PatchMode
  reading : HexReading
deriving DecidableEq, Repr

/-- The method that a patch put into the class, and whether it took the place of another. -/
structure PatchedMethod where
  name : String
  descriptor : String
  replaced : Bool
deriving DecidableEq, Repr

/-- The bytes of the patched class and the method that is new in it. -/
structure PatchOutcome where
  bytes : Bytes
  method : PatchedMethod
deriving DecidableEq, Repr

/-- Why a patch cannot be applied. -/
inductive PatchError where
  | badHex (error : HexError)
  | badClass (error : FormatError)
  | badMethod (error : MethodError)
  | methodNotFound (method : String)
  | missingCode (method : String)
  | transfer (error : TransferError)
  | frames (error : FramesError)
  | emptyOutput
deriving DecidableEq, Repr

namespace PatchError

/-- The short name of the kind of error. -/
def kind : PatchError → String
  | badHex _ => "InputDecodingError"
  | badClass _ => "ClassFormatError"
  | badMethod (.truncated _ _) => "TruncatedMethodBytesError"
  | badMethod (.unresolved _) => "UnresolvableOriginalMethodError"
  | methodNotFound _ => "MethodNotFoundError"
  | missingCode _ => "MissingCodeAttributeError"
  | transfer _ => "RemapError"
  | frames _ => "FrameComputationError"
  | emptyOutput => "EmptyOutputError"

/-- The wording of a patch error. -/
def message : PatchError → String
  | badHex error => s!"bad hex input: {error.message}"
  | badClass error => s!"bad class file: {error.message}"
  | badMethod error => error.message
  | methodNotFound method => s!"method {method} not found in target class"
  | missingCode method => s!"patch for {method} has no Code attribute"
  | transfer error => s!"could not copy method: {error.message}"
  | frames error => s!"frame computation failed: {error.message}"
  | emptyOutput => "patched class is empty"

end PatchError

/-- Extracts the method that a selector means, and refuses a selector that means none. -/
def Selector.extract (file : ClassFile) (selector : Selector) : LoggedExcept PatchError Bytes := do
  match ← selector.extract? file with
  | some bytes => return bytes
  | none => throw (.methodNotFound selector.text)

/-- The answer of a stage, with its error as that of the patch. -/
def stage {ε α : Type} (wrap : ε → PatchError) (answer : LoggedExcept ε α) : LoggedExcept PatchError α :=
  answer.adapt wrap

/-- Carries a method decoded against the source pool into a class; what was added to its pool stays when this fails. -/
def ClassFile.copyMethod (source : Pool) (method : ParsedMethod) (file : ClassFile) :
    Logged (Except TransferError Method × ClassFile) := do
  let (outcome, transfer) ← (TransferM.method source method).run.run (.into file.pool)
  return (outcome, { file with pool := transfer.target.pool })

/-- Refuses a method without code that is neither abstract nor native. -/
def requireCode (method : ParsedMethod) : LoggedExcept PatchError Unit :=
  if method.hasCode || AccessFlags.haveNoCode method.accessFlags then return
  else throw (.missingCode method.signature)

/-- Puts a method into a class whose indices it already has. -/
def patchDirect (file : ClassFile) (patched : Bytes) : LoggedExcept PatchError (PatchedMethod × ClassFile) := do
  let patch ← stage .badMethod (ParsedMethod.parse file.pool .lenient patched)
  requireCode patch
  let (replaced, file) ← file.addOrReplace patch.name patch.descriptor patch.toMethod
  return (⟨patch.name, patch.descriptor, replaced⟩, file)

/-- Carries a method with the indices of a reference class into a class. -/
def patchReference (file : ClassFile) (patched : Bytes) (reference : ClassFile) :
    LoggedExcept PatchError (PatchedMethod × ClassFile) := do
  let patch ← stage .badMethod (ParsedMethod.parse reference.pool .lenient patched)
  requireCode patch
  let (outcome, file) ← file.copyMethod reference.pool patch
  match outcome with
  | .error error => throw (.transfer error)
  | .ok method =>
    let (replaced, file) ← file.addOrReplace patch.name patch.descriptor method
    return (⟨patch.name, patch.descriptor, replaced⟩, file)

/-- Aligns a patched method with its base as far as possible, noting how far that was. -/
def alignNoting (pool : Pool) (patched base : Bytes) : Logged Bytes := do
  let (outcome, aligned) ← align pool patched base
  match outcome with
  | .ok report =>
    note .info
      s!"Aligned {report.attributes} attributes, corrected {report.corrected} of {report.visited} indices"
  | .error error =>
    note .warning s!"Alignment stopped early (keeping earlier corrections): {error.message}"
  return aligned

/-- Replaces the code of the method that the base describes by that of the patched method. -/
def patchDifferential (file : ClassFile) (patched base : Bytes) :
    LoggedExcept PatchError (PatchedMethod × ClassFile) := do
  let aligned ← alignNoting file.pool patched base
  let described ← stage .badMethod (ParsedMethod.parse file.pool .strict base)
  let patch ← stage .badMethod (ParsedMethod.parse file.pool .lenient aligned)
  match file.findMethod? described.name described.descriptor with
  | none => throw (.methodNotFound described.signature)
  | some position =>
    note .info s!"Patching code of {described.signature}"
    match file.methods[position]? with
    | none => throw (.methodNotFound described.signature)
    | some method =>
      match ← method.replaceCode file.pool patch with
      | none => throw (.missingCode patch.signature)
      | some method =>
        return (⟨described.name, described.descriptor, true⟩,
          { file with methods := file.methods.set position method })

/-- Puts a patched method into a class by the given mode. -/
def patchClass (mode : PatchMode) (reading : HexReading) (file : ClassFile) (patched : Bytes) :
    LoggedExcept PatchError (PatchedMethod × ClassFile) := do
  match mode with
  | .differential baseHex =>
    note .info "Applying patch in differential mode"
    let base ← stage .badHex (Hex.decode reading baseHex)
    patchDifferential file patched base
  | .reference bytes =>
    note .info "Applying patch in reference mode"
    let reference ← stage .badClass (ClassFile.parse bytes)
    patchReference file patched reference
  | .direct =>
    note .info "Applying patch in direct mode"
    patchDirect file patched

/-- Puts a patched method into its target, and gives the bytes of the class, whose frames are left as they are. -/
def patchTarget (request : PatchRequest) : LoggedExcept PatchError (PatchedMethod × Bytes) := do
  let patched ← stage .badHex (Hex.decode request.reading request.patchedHex)
  note .info s!"Decoded {patched.length} bytes of patched method"
  let file ← stage .badClass (ClassFile.parse request.target)
  let name := file.name.toOption.getD "?"
  note .info
    s!"Parsed target class {name} ({file.methods.length} methods, {file.pool.size} constants)"
  let (method, file) ← patchClass request.mode request.reading file patched
  return (method, file.bytes)

/-- The outcome of a patch whose frames have been seen to; there must be some bytes. -/
def outcomeOf (method : PatchedMethod) (bytes : Bytes) : LoggedExcept PatchError PatchOutcome := do
  if bytes.isEmpty then throw .emptyOutput
  note .info s!"Patched class is {bytes.length} bytes"
  return ⟨bytes, method⟩

/-- Applies a patch and has the frames of the patched class recomputed. -/
def applyPatch (recompute : FrameRecomputer) (request : PatchRequest) : LoggedExcept PatchError PatchOutcome := do
  let (method, bytes) ← patchTarget request
  outcomeOf method (← stage .frames (recompute bytes))

end ClassGraft
