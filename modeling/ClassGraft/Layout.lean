import ClassGraft.FormatError
import ClassGraft.Template

/-!
# Layouts of attributes

Where the indices are in the attributes whose contents hold some.  A layout is a part, and reading a part takes bytes
off the input, gives pieces, or puts smaller parts in its place, each a number of times.  `Layout.template` works
through the parts that are still to be read; the input gets shorter, or the parts do.
-/

namespace ClassGraft

/-- Why bytes do not have the layout of their attribute. -/
inductive LayoutFault where
  | truncated
  | unknownElementTag (tag : UInt8)
  | reservedFrame (tag : UInt8)
  | unknownVerificationType (tag : UInt8)
deriving DecidableEq, Repr

/-- The wording of a layout fault. -/
def LayoutFault.message : LayoutFault → String
  | truncated => FormatError.endOfInput.message
  | unknownElementTag tag => s!"i/o error: unknown element value tag {quoteChar (Char.ofNat tag.toNat)}"
  | reservedFrame tag => s!"i/o error: reserved frame type {tag}"
  | unknownVerificationType tag => s!"i/o error: unknown verification type {tag}"

/-- The layouts of attributes whose contents hold indices. -/
inductive Layout where
  | exceptions
  | signature
  | methodParameters
  | annotations
  | parameterAnnotations
  | annotationDefault
  | stackMapTable
  | localVariables
deriving DecidableEq, Repr

namespace Layout

/-- The layout of an attribute of a method. -/
def ofMethodAttribute? (name : String) : Option Layout :=
  match name with
  | "Exceptions" => some exceptions
  | "Signature" => some signature
  | "MethodParameters" => some methodParameters
  | "RuntimeVisibleAnnotations" => some annotations
  | "RuntimeInvisibleAnnotations" => some annotations
  | "RuntimeVisibleParameterAnnotations" => some parameterAnnotations
  | "RuntimeInvisibleParameterAnnotations" => some parameterAnnotations
  | "AnnotationDefault" => some annotationDefault
  | _ => none

/-- The layout of an attribute of a code attribute. -/
def ofCodeAttribute? (name : String) : Option Layout :=
  match name with
  | "StackMapTable" => some stackMapTable
  | "LocalVariableTable" => some localVariables
  | "LocalVariableTypeTable" => some localVariables
  | _ => none

/-- A part of the contents of an attribute. -/
inductive Part where
  | plain (size : Nat)
  | index
  | optionalIndex
  | counted (count : OperandWidth) (each : Part)
  | parameter
  | localVariable
  | annotationBody
  | elementPair
  | elementValue
  | frame
  | verificationType
deriving DecidableEq, Repr

/-- The part that the contents of an attribute of some layout consist of. -/
def part : Layout → Part
  | exceptions => .counted .wide .index
  | signature => .index
  | methodParameters => .counted .narrow .parameter
  | annotations => .counted .wide .annotationBody
  | parameterAnnotations => .counted .narrow (.counted .wide .annotationBody)
  | annotationDefault => .elementValue
  | stackMapTable => .counted .wide .frame
  | localVariables => .counted .wide .localVariable

/-- Parts that are still to be read, each a number of times. -/
abbrev Work := List (Nat × Part)

/-- The parts that follow the tag of an element value. -/
def Part.ofElementTag (tag : UInt8) : Except LayoutFault Work :=
  let c := Char.ofNat tag.toNat
  if "BCDFIJSZsc".toList.contains c then .ok [(1, .index)]
  else if c = 'e' then .ok [(2, .index)]
  else if c = '@' then .ok [(1, .annotationBody)]
  else if c = '[' then .ok [(1, .counted .wide .elementValue)]
  else .error (.unknownElementTag tag)

/-- The parts that follow the tag of a stack map frame. -/
def Part.ofFrameTag (tag : UInt8) : Except LayoutFault Work :=
  let n := tag.toNat
  if n ≤ 63 then .ok []
  else if n ≤ 127 then .ok [(1, .verificationType)]
  else if n ≤ 246 then .error (.reservedFrame tag)
  else if n = 247 then .ok [(1, .plain 2), (1, .verificationType)]
  else if n ≤ 251 then .ok [(1, .plain 2)]
  else if n ≤ 254 then .ok [(1, .plain 2), (n - 251, .verificationType)]
  else .ok [(1, .plain 2), (2, .counted .wide .verificationType)]

/-- The parts that follow the tag of a verification type. -/
def Part.ofVerificationTag (tag : UInt8) : Except LayoutFault Work :=
  let n := tag.toNat
  if n ≤ 6 then .ok []
  else if n = 7 then .ok [(1, .index)]
  else if n = 8 then .ok [(1, .plain 2)]
  else .error (.unknownVerificationType tag)

/-- What reading one part gives: pieces, the parts in its place, and the rest of the input. -/
structure Step where
  pieces : List Piece
  inner : Work
  rest : Bytes
deriving Repr

/-- Takes `n` bytes and goes on with what they say. -/
def takeThen (n : Nat) (next : Bytes → Except LayoutFault (List Piece × Work)) (input : Bytes) :
    Except LayoutFault Step :=
  match cut n input with
  | none => .error .truncated
  | some (front, rest) => (next front).map fun (pieces, inner) => ⟨pieces, inner, rest⟩

/-- Takes a tag and puts the parts that follow it in place. -/
def takeTag (partsOf : UInt8 → Except LayoutFault Work) : Bytes → Except LayoutFault Step :=
  takeThen 1 fun front => (partsOf (UInt8.ofNat (ofBigEndian front))).map fun inner => ([.fixed front], inner)

/-- Reads one part. -/
def Part.step (part : Part) (input : Bytes) : Except LayoutFault Step :=
  match part with
  | .plain size => takeThen size (fun front => .ok ([.fixed front], [])) input
  | .index =>
    takeThen 2 (fun front => .ok ([.slot (.wide (UInt16.ofNat (ofBigEndian front)))], [])) input
  | .optionalIndex =>
    takeThen 2 (fun front => .ok ([.slot (.optional (UInt16.ofNat (ofBigEndian front)))], [])) input
  | .counted count each =>
    takeThen count.size (fun front => .ok ([.fixed front], [(ofBigEndian front, each)])) input
  | .parameter => .ok ⟨[], [(1, .optionalIndex), (1, .plain 2)], input⟩
  | .localVariable => .ok ⟨[], [(1, .plain 4), (2, .index), (1, .plain 2)], input⟩
  | .annotationBody => .ok ⟨[], [(1, .index), (1, .counted .wide .elementPair)], input⟩
  | .elementPair => .ok ⟨[], [(1, .index), (1, .elementValue)], input⟩
  | .elementValue => takeTag Part.ofElementTag input
  | .frame => takeTag Part.ofFrameTag input
  | .verificationType => takeTag Part.ofVerificationTag input

/-- More than the weight of the parts that reading a part puts in its place without taking bytes. -/
def Part.weight : Part → Nat
  | .parameter => 5
  | .localVariable => 8
  | .annotationBody => 5
  | .elementPair => 5
  | _ => 1

/-- The weight of the parts that are still to be read. -/
def Work.weight : Work → Nat
  | [] => 0
  | (n, part) :: work => n * part.weight + 1 + Work.weight work

theorem Work.weight_append (a b : Work) : Work.weight (a ++ b) = a.weight + b.weight := by
  induction a with
  | nil => simp [Work.weight]
  | cons first rest ih =>
    rw [List.cons_append, Work.weight, Work.weight, ih]
    omega

theorem length_of_takeThen {n : Nat} {next : Bytes → Except LayoutFault (List Piece × Work)} {input : Bytes}
    {step : Step} (h : takeThen n next input = .ok step) : input.length = n + step.rest.length := by
  unfold takeThen at h
  split at h
  · cases h
  · rename_i front rest hcut
    obtain ⟨rfl, rfl⟩ := cut_eq_some_iff.1 hcut
    cases hnext : next front with
    | error fault => rw [hnext] at h; cases h
    | ok found =>
      rw [hnext] at h
      cases h
      simp

theorem inner_of_takeThen {n : Nat} {next : Bytes → Except LayoutFault (List Piece × Work)} {input : Bytes}
    {step : Step} (h : takeThen n next input = .ok step) :
    ∃ front, next front = .ok (step.pieces, step.inner) := by
  unfold takeThen at h
  split at h
  · cases h
  · rename_i front rest hcut
    cases hnext : next front with
    | error fault => rw [hnext] at h; cases h
    | ok found =>
      rw [hnext] at h
      cases h
      exact ⟨front, hnext⟩

/-- Reading a part takes bytes, or puts lighter parts in its place. -/
theorem Part.step_decreases {part : Part} {input : Bytes} {step : Step} (h : part.step input = .ok step) :
    step.rest.length < input.length ∨
      step.rest.length = input.length ∧ step.inner.weight < part.weight := by
  cases part with
  | plain size =>
    have := length_of_takeThen h
    obtain ⟨front, hinner⟩ := inner_of_takeThen h
    cases size with
    | zero =>
      refine .inr ⟨by omega, ?_⟩
      simp only [Except.ok.injEq, Prod.mk.injEq] at hinner
      rw [← hinner.2]
      simp [Work.weight, Part.weight]
    | succ size => exact .inl (by omega)
  | index => exact .inl (by have := length_of_takeThen h; omega)
  | optionalIndex => exact .inl (by have := length_of_takeThen h; omega)
  | counted count each =>
    refine .inl ?_
    have := length_of_takeThen h
    cases count <;> simp only [OperandWidth.size] at this <;> omega
  | parameter => cases h; exact .inr ⟨rfl, by simp [Work.weight, Part.weight]⟩
  | localVariable => cases h; exact .inr ⟨rfl, by simp [Work.weight, Part.weight]⟩
  | annotationBody => cases h; exact .inr ⟨rfl, by simp [Work.weight, Part.weight]⟩
  | elementPair => cases h; exact .inr ⟨rfl, by simp [Work.weight, Part.weight]⟩
  | elementValue => exact .inl (by have := length_of_takeThen h; omega)
  | frame => exact .inl (by have := length_of_takeThen h; omega)
  | verificationType => exact .inl (by have := length_of_takeThen h; omega)

/-- Reads the parts in order and puts their pieces after those found so far (last one first). -/
def readOnto (work : Work) (input : Bytes) (found : List Piece) : Template LayoutFault :=
  match work with
  | [] => ⟨found.reverse, .ok input⟩
  | (0, _) :: work => readOnto work input found
  | (n + 1, part) :: work =>
    match _h : part.step input with
    | .error fault => ⟨found.reverse, .error fault⟩
    | .ok step => readOnto (step.inner ++ (n, part) :: work) step.rest (step.pieces.reverse ++ found)
termination_by (input.length, work.weight)
decreasing_by
  · exact Prod.Lex.right _ (by simp [Work.weight])
  · rcases Part.step_decreases _h with hlt | ⟨heq, hlt⟩
    · exact Prod.Lex.left _ _ hlt
    · rw [heq]
      refine Prod.Lex.right _ ?_
      rw [Work.weight_append, Work.weight, Work.weight, Nat.succ_mul]
      omega

/-- The pieces of the contents of an attribute. -/
def template (layout : Layout) (info : Bytes) : Template LayoutFault :=
  readOnto [(1, layout.part)] info []

end Layout

end ClassGraft
