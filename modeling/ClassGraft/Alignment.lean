import ClassGraft.ClassFile.Attribute
import ClassGraft.Log

/-!
# Alignment of a patched method with its base

A patched method is derived from a base method but may have been numbered for another pool.  Aligning walks both in
step and copies every index that names something, which are the name and the descriptor of the method and the names
of its attributes, from the base into the patched method.  Instructions, exception handlers, lengths and all other
contents are passed over by the lengths of their own side and stay as they are.  Attributes correspond by position at
each level, and after an attribute both sides go on at its declared end, wherever the walk through its contents ended.

The base is never changed, so the walk holds what is left of it as a suffix, and every attribute leaves a shorter one.
-/

namespace ClassGraft

/-- One of the two methods. -/
inductive Side where
  | patched
  | base
deriving DecidableEq, Repr

/-- Why alignment stops. -/
inductive AlignmentError where
  | overrun (side : Side) (offset needed : Nat)
  | unresolvedName (offset : Nat) (error : IndexError)
deriving DecidableEq, Repr

/-- What alignment did: the indices compared, those changed, and the attributes met at all levels. -/
structure AlignmentReport where
  visited : Nat
  corrected : Nat
  attributes : Nat
deriving DecidableEq, Repr

/-- The word for a side in messages. -/
def Side.label : Side → String
  | patched => "Patched"
  | base => "Original"

/-- The wording of an alignment error. -/
def AlignmentError.message : AlignmentError → String
  | overrun side offset needed =>
    s!"{side.label} method bytes end before the {needed} bytes needed at offset {offset}"
  | unresolvedName offset error => s!"attribute name at offset {offset} of original: {error.message}"

namespace Alignment

/-- The patched method with the corrections made so far, the position reached in it, and the report. -/
structure Progress where
  patched : Array UInt8
  position : Nat
  report : AlignmentReport
deriving Repr

/-- What is left of the base method from an offset on. -/
structure Suffix where
  offset : Nat
  bytes : Bytes
deriving DecidableEq, Repr

/-- The number of bytes left of the base method. -/
def Suffix.size (suffix : Suffix) : Nat := suffix.bytes.length

/-- A step of the alignment, which keeps its corrections when it fails. -/
abbrev Aligner := ExceptT AlignmentError (StateT Progress Logged)

/-- Takes `n` bytes off the base method. -/
def takeBase (n : Nat) (suffix : Suffix) : Aligner (Bytes × { rest : Suffix // rest.size + n = suffix.size }) :=
  match h : cut n suffix.bytes with
  | some (front, rest) => return (front, ⟨⟨suffix.offset + n, rest⟩, by
      obtain ⟨hbytes, hlength⟩ := cut_eq_some_iff.1 h
      simp [Suffix.size, hbytes, hlength, Nat.add_comm]⟩)
  | none => throw (.overrun .base suffix.offset n)

/-- The position `n` bytes further in the patched method. -/
def patchedEnd (n : Nat) : Aligner Nat := do
  let progress ← get
  if progress.position + n ≤ progress.patched.size then return progress.position + n
  else throw (.overrun .patched progress.position n)

/-- Goes on at a position of the patched method. -/
def moveTo (position : Nat) : Aligner Unit :=
  modify fun progress => { progress with position := position }

/-- Takes a big-endian number of `k` bytes off the patched method. -/
def takePatched (k : Nat) : Aligner Nat := do
  let start := (← get).position
  let stop ← patchedEnd k
  let number := ofBigEndian ((← get).patched.extract start stop).toList
  moveTo stop
  return number

/-- Passes over `n` bytes of the patched method and `m` bytes of the base method. -/
def skipBoth (n m : Nat) (suffix : Suffix) : Aligner { rest : Suffix // rest.size ≤ suffix.size } := do
  let stop ← patchedEnd n
  let (_, ⟨rest, h⟩) ← takeBase m suffix
  moveTo stop
  return ⟨rest, by omega⟩

/-- Reads a number of `k` bytes from both methods, the patched one first. -/
def takeBoth (k : Nat) (suffix : Suffix) : Aligner (Nat × Nat × { rest : Suffix // rest.size ≤ suffix.size }) := do
  let patched ← takePatched k
  let (base, ⟨rest, h⟩) ← takeBase k suffix
  return (patched, ofBigEndian base, ⟨rest, by omega⟩)

/-- Writes an index at a position of a buffer. -/
def writeIndex (buffer : Array UInt8) (position : Nat) (index : Index) : Array UInt8 :=
  (buffer.setIfInBounds position (UInt8.ofNat (index.toNat / 256))).setIfInBounds (position + 1)
    (UInt8.ofNat index.toNat)

/-- Copies an index from the base into the patched method. -/
def copyIndex (suffix : Suffix) : Aligner (Index × { rest : Suffix // rest.size + 2 = suffix.size }) := do
  let (bytes, rest) ← takeBase 2 suffix
  let index := UInt16.ofNat (ofBigEndian bytes)
  let start := (← get).position
  let current ← takePatched 2
  if current = index.toNat then
    modify fun progress => { progress with report.visited := progress.report.visited + 1 }
  else
    note .debug s!"Correcting index at offset {start}: #{current} -> #{index}"
    modify fun progress =>
      { progress with
        patched := writeIndex progress.patched start index
        report.visited := progress.report.visited + 1
        report.corrected := progress.report.corrected + 1 }
  return (index, rest)

/-- An attribute that both sides have begun: whether it holds code, where it ends in the patched method, and the base
method from its contents on and from its end on. -/
structure Opened (suffix : Suffix) where
  isCode : Bool
  patchedEnd : Nat
  contents : Suffix
  rest : Suffix
  contents_lt : contents.size < suffix.size
  rest_lt : rest.size < suffix.size

/-- Copies the name index of an attribute and finds its two ends. -/
def openAttribute (pool : Pool) (suffix : Suffix) : Aligner (Opened suffix) := do
  let (index, ⟨afterName, hname⟩) ← copyIndex suffix
  modify fun progress => { progress with report.attributes := progress.report.attributes + 1 }
  let (patchedLength, baseLength, ⟨contents, hlength⟩) ← takeBoth 4 afterName
  let stop ← patchedEnd patchedLength
  let (_, ⟨rest, hrest⟩) ← takeBase baseLength contents
  match pool.text index with
  | .error error => throw (.unresolvedName suffix.offset error)
  | .ok name => return ⟨name = codeName, stop, contents, rest, by omega, by omega⟩

/-- The number of attributes to align when the two sides have these numbers of them. -/
def agreeOn (patchedCount baseCount : Nat) : Aligner Nat := do
  let count := min patchedCount baseCount
  if patchedCount ≠ baseCount then
    note .debug
      s!"Attribute counts differ (patched {patchedCount}, original {baseCount}), aligning the first {count}"
  return count

/-- Passes over a code attribute up to its nested attributes and gives the number of those to align. -/
def openCode (suffix : Suffix) : Aligner (Nat × { rest : Suffix // rest.size ≤ suffix.size }) := do
  let ⟨atCode, h₁⟩ ← skipBoth 4 4 suffix
  let (patchedCode, baseCode, ⟨atInstructions, h₂⟩) ← takeBoth 4 atCode
  let ⟨atHandlerCount, h₃⟩ ← skipBoth patchedCode baseCode atInstructions
  let (patchedHandlers, baseHandlers, ⟨atHandlers, h₄⟩) ← takeBoth 2 atHandlerCount
  let ⟨atAttributeCount, h₅⟩ ← skipBoth (8 * patchedHandlers) (8 * baseHandlers) atHandlers
  let (patchedCount, baseCount, ⟨rest, h₆⟩) ← takeBoth 2 atAttributeCount
  let count ← agreeOn patchedCount baseCount
  return (count, ⟨rest, by omega⟩)

/-- Aligns the next `count` attributes and, inside code attributes, those nested in them. -/
def alignAttributes (pool : Pool) (count : Nat) (suffix : Suffix) : Aligner Unit :=
  match count with
  | 0 => return
  | count + 1 => do
    let opened ← openAttribute pool suffix
    if opened.isCode then
      let (nested, ⟨inner, _⟩) ← openCode opened.contents
      alignAttributes pool nested inner
    moveTo opened.patchedEnd
    alignAttributes pool count opened.rest
termination_by suffix.size
decreasing_by
  · exact opened.rest_lt
  · have := opened.contents_lt
    omega

/-- Aligns a method: its name, its descriptor, and the names of its attributes. -/
def alignMethod (pool : Pool) (suffix : Suffix) : Aligner Unit := do
  let ⟨atName, _⟩ ← skipBoth 2 2 suffix
  let (_, ⟨atDescriptor, _⟩) ← copyIndex atName
  let (_, ⟨atCount, _⟩) ← copyIndex atDescriptor
  let (patchedCount, baseCount, ⟨rest, _⟩) ← takeBoth 2 atCount
  let count ← agreeOn patchedCount baseCount
  alignAttributes pool count rest

end Alignment

/-- Aligns a patched method with its base: the report or what stopped the alignment, and the patched method with the
corrections made. -/
def align (pool : Pool) (patched base : Bytes) : Logged (Except AlignmentError AlignmentReport × Bytes) := do
  let start : Alignment.Progress := ⟨patched.toArray, 0, ⟨0, 0, 0⟩⟩
  let (outcome, progress) ← (Alignment.alignMethod pool ⟨0, base⟩).run.run start
  return (outcome.map fun _ => progress.report, progress.patched.toList)

end ClassGraft
