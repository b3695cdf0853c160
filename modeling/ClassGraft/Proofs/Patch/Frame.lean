import ClassGraft.Proofs.Patch.Succeeding
import ClassGraft.Proofs.Patch.Written

/-!
# What a patch leaves as it is

A differential patch changes the code of one method and nothing else (`applyPatch_edits_code`).  A direct patch or one
with a reference class adds one method at the end and removes at most one, which is the first that is found under the
reported name and descriptor; all others stay in order, and so does the pool, to which a reference class only adds
entries (`applyPatch_adds_method`).
-/

namespace ClassGraft

/-- The position of the method of a class that a base stands for: the first with the name and the descriptor that the
header of the base leads to. -/
def ClassFile.StandsFor (file : ClassFile) (base : Bytes) (position : Nat) : Prop :=
  ∃ header rest name descriptor, ParsedMethod.readHeader base = .ok (header, rest) ∧
    file.pool.text header.nameIndex = .ok name ∧ file.pool.text header.descriptorIndex = .ok descriptor ∧
    file.findMethod? name descriptor = some position

/-- The code that a patched method brings: the first code attribute that is decoded from it, as far as it could be
aligned with its base, written again. -/
def BringsCode (pool : Pool) (patched base : Bytes) (code : Attribute) : Prop :=
  ∃ outcome aligned patch parsed, Gives (align pool patched base) (outcome, aligned) ∧
    Returns (ParsedMethod.parse pool .lenient aligned) patch ∧ patch.codeAttribute? = some parsed ∧
    code = parsed.toAttribute

/-- A strictly decoded base stands for the method found under its name and descriptor. -/
theorem ClassFile.standsFor_of_parse {file : ClassFile} {base : Bytes} {described : ParsedMethod} {position : Nat}
    (hdescribed : Returns (ParsedMethod.parse file.pool .strict base) described)
    (hposition : file.findMethod? described.name described.descriptor = some position) :
    file.StandsFor base position := by
  obtain ⟨_, hrun⟩ := hdescribed.exists_run #[]
  obtain ⟨header, rest, hheader, -, hname, hdescriptor, -⟩ := ParsedMethod.exists_header_of_parse hrun
  exact ⟨header, rest, _, _, hheader, hname.text_of_strict, hdescriptor.text_of_strict, hposition⟩

/-- A base stands for one method only. -/
theorem ClassFile.StandsFor.unique {file : ClassFile} {base : Bytes} {position position' : Nat}
    (h : file.StandsFor base position) (h' : file.StandsFor base position') : position = position' := by
  obtain ⟨header, rest, name, descriptor, hheader, hname, hdescriptor, hfound⟩ := h
  obtain ⟨header', rest', name', descriptor', hheader', hname', hdescriptor', hfound'⟩ := h'
  rw [hheader] at hheader'
  cases hheader'
  rw [hname] at hname'
  rw [hdescriptor] at hdescriptor'
  cases hname'
  cases hdescriptor'
  rw [hfound] at hfound'
  exact Option.some.inj hfound'

variable {recompute : FrameRecomputer} {request : PatchRequest} {outcome : PatchOutcome} {log : Log}

/-- A differential patch replaces the first code attribute of the method that the base stands for by the code of the
patched method as aligned with its base, or adds this code after its attributes, and leaves all else as it is. -/
theorem applyPatch_edits_code (hrecompute : recompute.GivesBack) {baseHex : String}
    (hmode : request.mode = .differential baseHex)
    (h : ((applyPatch recompute request).run.run log).1 = .ok outcome) :
    ∃ patched base target position method code attributes,
      Returns (Hex.decode request.reading request.patchedHex) patched ∧
      Returns (Hex.decode request.reading baseHex) base ∧
      Returns (ClassFile.parse request.target) target ∧
      target.StandsFor base position ∧ target.methods[position]? = some method ∧
      BringsCode target.pool patched base code ∧
      Member.CodeReplaced target.pool code method.attributes attributes ∧
      (attributes.length < 65536 → ClassFile.ParsesTo outcome.bytes
        { target with methods := target.methods.set position { method with attributes := attributes } }) := by
  obtain ⟨bytes, reported⟩ := outcome
  obtain ⟨target, pool, change, htarget, hpatched, hbytes⟩ := bytes_of_applyPatch hrecompute h
  have hfile := ClassFile.representable_of_parse htarget
  dsimp only at hpatched hbytes ⊢
  have hwritten := hpatched.parsesTo hfile
  rw [← hbytes] at hwritten
  cases hpatched with
  | direct hdirect =>
    rw [hmode] at hdirect
    cases hdirect
  | reference hreference =>
    rw [hmode] at hreference
    cases hreference
  | @differential _ patched base _ _ _ _ position method code hdifferential hpatchedHex hbase haligned hdescribed hpatch
      hposition hmethod hcode =>
    rw [hmode] at hdifferential
    cases hdifferential
    refine ⟨patched, base, target, position, method, code.toAttribute,
      (method.withCode target.pool code.toAttribute).attributes, hpatchedHex, hbase, htarget,
      ClassFile.standsFor_of_parse hdescribed hposition, hmethod, ⟨_, _, _, _, haligned, hpatch, hcode, rfl⟩,
      Member.codeReplaced_withCode _ _ _, fun hattributes => ?_⟩
    have hmethods : (target.methods.set position (method.withCode target.pool code.toAttribute)).length < 65536 := by
      rw [List.length_set]
      exact hfile.methods.1
    exact hwritten hmethods hattributes

/-- A method that is named by the first indices of a pool and has the given code. -/
def codedMethod (code : Bytes) : Method := ⟨1, 1, 2, [⟨3, Code.bytes ⟨⟨0, 1, code, []⟩, []⟩⟩]⟩

/-- A class of that version whose only methods are the given ones. -/
def smallClass (texts : List StoredText) (methods : List Method) : ClassFile where
  version := ⟨50, 0⟩
  pool := texts.foldl (fun pool stored => pool.push (.utf8 stored)) .empty
  accessFlags := 0x400
  thisClass := 0
  superClass := 0
  interfaces := []
  fields := []
  methods := methods
  attributes := []

/-- A class with a method that returns at once. -/
def returningClass : ClassFile := smallClass [.ofText "m", .ofText "()V", .ofText codeName] [codedMethod [0xB1]]

/-- The class with another instruction in front of that which returns. -/
def waitingClass : ClassFile := { returningClass with methods := [codedMethod [0x00, 0xB1]] }

/-- The method with an instruction more, in the numbering of the class. -/
def waitingHex : String := "000100010002000100030000000e000000010000000200b100000000"

/-- The method as it was. -/
def returningHex : String := "000100010002000100030000000d0000000100000001b100000000"

/-- The request to edit that class by the method as it was and as it shall be. -/
def editingRequest : PatchRequest := ⟨returningClass.bytes, waitingHex, .differential returningHex, .strict⟩

theorem applyPatch_editingRequest :
    ((applyPatch (.unchanged false) editingRequest).run.run #[]).1 =
      .ok ⟨waitingClass.bytes, ⟨"m", "()V", true⟩⟩ :=
  eq_ok_of_toOption (by decide +kernel)

/-- An instruction is inserted into the code of a method. -/
theorem applyPatch_edits_code_waiting :
    (FrameRecomputer.unchanged false).GivesBack ∧
      ((applyPatch (.unchanged false) editingRequest).run.run #[]).1 =
        .ok ⟨waitingClass.bytes, ⟨"m", "()V", true⟩⟩ ∧
      ∃ target position method code attributes, Returns (ClassFile.parse returningClass.bytes) target ∧
        target.methods[position]? = some method ∧
        Member.CodeReplaced target.pool code method.attributes attributes ∧
        (attributes.length < 65536 → ClassFile.ParsesTo waitingClass.bytes
          { target with methods := target.methods.set position { method with attributes := attributes } }) := by
  have hrecompute := FrameRecomputer.givesBack_unchanged false
  obtain ⟨_, _, target, position, method, code, attributes, -, -, htarget, -, hmethod, -, hreplaced, hparses⟩ :=
    applyPatch_edits_code hrecompute rfl applyPatch_editingRequest
  exact ⟨hrecompute, applyPatch_editingRequest, target, position, method, code, attributes, htarget, hmethod, hreplaced,
    hparses⟩

/-- A direct patch, or one with a reference class, keeps the pool as it is, or adds entries to it, and adds one method
after those of the target, of which it removes the first that is found under the reported name and descriptor. -/
theorem applyPatch_adds_method (hrecompute : recompute.GivesBack)
    (hmode : request.mode = .direct ∨ ∃ file, request.mode = .reference file) {target : ClassFile}
    (htarget : Returns (ClassFile.parse request.target) target) (hroom : target.methods.length < 65535)
    (h : ((applyPatch recompute request).run.run log).1 = .ok outcome) :
    ∃ pool removed? added,
      ClassFile.ParsesTo outcome.bytes
        { target with
          pool := pool
          methods := removed?.elim target.methods target.methods.eraseIdx ++ [added] } ∧
      (request.mode = .direct → pool = target.pool) ∧ pool.Extends target.pool ∧
      (∀ index constant, target.pool.get index = .ok constant → pool.get index = .ok constant) ∧
      { target with pool := pool }.findMethod? outcome.method.name outcome.method.descriptor = removed? ∧
      outcome.method.replaced = removed?.isSome := by
  obtain ⟨bytes, reported⟩ := outcome
  obtain ⟨parsed, pool, change, hparsed, hpatched, hbytes⟩ := bytes_of_applyPatch hrecompute h
  obtain rfl : target = parsed := htarget.unique hparsed
  have hfile := ClassFile.representable_of_parse htarget
  dsimp only at hpatched hbytes ⊢
  have hadded : ∃ removed? added, change = .add removed? added ∧ (request.mode = .direct → pool = target.pool) := by
    cases hpatched with
    | direct => exact ⟨_, _, rfl, fun _ => rfl⟩
    | reference hreference =>
      refine ⟨_, _, rfl, fun hdirect => ?_⟩
      rw [hreference] at hdirect
      cases hdirect
    | differential hdifferential =>
      rw [hdifferential] at hmode
      rcases hmode with hdirect | ⟨file, hreference⟩
      · cases hdirect
      · cases hreference
  obtain ⟨removed?, added, rfl, hpool⟩ := hadded
  have hlength : (removed?.elim target.methods target.methods.eraseIdx ++ [added]).length < 65536 := by
    have hkept : (removed?.elim target.methods target.methods.eraseIdx).length ≤ target.methods.length := by
      cases removed? with
      | none => exact Nat.le_refl _
      | some position => exact List.length_eraseIdx_le _ _
    rw [List.length_append, List.length_singleton]
    omega
  refine ⟨pool, removed?, added, ?_, hpool, (hpatched.pool_extends hfile).2.2, fun _ _ hget => hpatched.get hfile hget,
    hpatched.findMethod?_eq, hpatched.replaced_eq⟩
  rw [hbytes]
  exact hpatched.parsesTo hfile hlength (hpatched.attributes_lt hfile)

/-- The request to put the longer method into that class directly. -/
def replacingRequest : PatchRequest := ⟨returningClass.bytes, waitingHex, .direct, .strict⟩

theorem parse_returningClass : Returns (ClassFile.parse returningClass.bytes) returningClass :=
  (ClassFile.steady_parse _).returns (by decide +kernel)

theorem get_returningClass :
    returningClass.pool.get 1 = .ok (.utf8 (.ofText "m")) ∧ returningClass.pool.get 2 = .ok (.utf8 (.ofText "()V")) ∧
      returningClass.pool.get 3 = .ok (.utf8 (.ofText codeName)) := by
  have hpool := (ClassFile.representable_of_parse parse_returningClass).pool
  refine ⟨?_, ?_, ?_⟩ <;> exact hpool.get_eq_ok_iff.2 (by decide)

theorem decode_waitingHex : Returns (Hex.decode .strict waitingHex) (codedMethod [0x00, 0xB1]).bytes :=
  (Hex.steady_decode _ _).returns rfl

theorem decode_returningHex : Returns (Hex.decode .strict returningHex) (codedMethod [0xB1]).bytes :=
  (Hex.steady_decode _ _).returns rfl

theorem applyPatch_replacingRequest :
    ((applyPatch (.unchanged false) replacingRequest).run.run #[]).1 =
      .ok ⟨waitingClass.bytes, ⟨"m", "()V", true⟩⟩ :=
  eq_ok_of_toOption (by decide +kernel)

/-- A class without methods or constants. -/
def blankClass : ClassFile := smallClass [] []

/-- A class without methods in whose pool there are a name and a descriptor. -/
def namingClass : ClassFile := smallClass [.ofText "m", .ofText "()V"] []

/-- The request to carry a method with this name and descriptor over into the class that has nothing. -/
def blankRequest : PatchRequest := ⟨blankClass.bytes, "0401000100020000", .reference namingClass.bytes, .strict⟩

/-- The class with the method, and with the constants that it needs. -/
def filledClass : ClassFile := { namingClass with methods := [⟨0x401, 1, 2, []⟩] }

private theorem copied_namingClass (log : Log) :
    (runOn (TransferM.method namingClass.pool ⟨0x401, 1, 2, "m", "()V", []⟩) (.into .empty) log).1.1 =
        .ok ⟨0x401, 1, 2, []⟩ ∧
      (runOn (TransferM.method namingClass.pool ⟨0x401, 1, 2, "m", "()V", []⟩) (.into .empty) log).1.2.target.pool =
        namingClass.pool := by
  have hone : namingClass.pool.get 1 = .ok (.utf8 (.ofText "m")) := by decide +kernel
  have htwo : namingClass.pool.get 2 = .ok (.utf8 (.ofText "()V")) := by decide +kernel
  have hknown : (Interner.ofPool .empty).firstIndex = ∅ := rfl
  have hcount : (Interner.ofPool .empty).pool.count = 1 := by decide +kernel
  have hgrown : ((Interner.ofPool .empty).pool.push (.utf8 (.ofText "m"))).push (.utf8 (.ofText "()V")) =
      namingClass.pool := rfl
  simp [TransferM.method, TransferM.text, TransferM.remember, TransferM.resolved, TransferM.runOn_intern, runOn_bind,
    -bind_pure_comp, Transfer.into, Interner.run_intern, Interner.add, Except.mapError, Constant.bytes_ofText_inj,
    Pool.hasRoom_iff, Pool.count_push, Constant.width, hone, htwo, hknown, hcount, hgrown]

theorem patchesTo_blankClass : PatchesTo blankRequest blankClass filledClass ⟨"m", "()V", false⟩ := by
  have hpatched : Returns (Hex.decode .strict "0401000100020000") [4, 1, 0, 1, 0, 2, 0, 0] :=
    (Hex.steady_decode _ _).returns (by decide +kernel)
  have htarget : Returns (ClassFile.parse blankClass.bytes) blankClass :=
    (ClassFile.steady_parse _).returns (by decide +kernel)
  have hreference : Returns (ClassFile.parse namingClass.bytes) namingClass :=
    (ClassFile.steady_parse _).returns (by decide +kernel)
  have hpatch : Returns (ParsedMethod.parse namingClass.pool .lenient [4, 1, 0, 1, 0, 2, 0, 0])
      ⟨0x401, 1, 2, "m", "()V", []⟩ := ParsedMethod.returns_bare (by decide +kernel)
  have hparses : ClassFile.ParsesTo filledClass.bytes filledClass :=
    ClassFile.parsesTo_iff.2 (eq_ok_of_toOption (by decide +kernel))
  have hframes : Returns (FrameRecomputer.unchanged false filledClass.bytes) filledClass.bytes :=
    FrameRecomputer.returns_unchanged hparses.returns (by decide) (by decide)
  have hclass : Returns (patchClass (.reference namingClass.bytes) .strict blankClass _)
      (⟨"m", "()V", false⟩, filledClass) :=
    returns_patchReference hreference hpatch (by decide) copied_namingClass
  exact ⟨htarget, returns_applyPatch hpatched htarget hclass hframes (ClassFile.bytes_ne_nil _) #[], hparses⟩

/-- The only method of a class is removed for another one, directly, and a method is carried over into a class without
methods, whose pool grows by what the method needs. -/
theorem applyPatch_adds_method_waiting :
    (FrameRecomputer.unchanged false).GivesBack ∧
    (replacingRequest.mode = .direct ∧ Returns (ClassFile.parse replacingRequest.target) returningClass ∧
      returningClass.methods.length < 65535 ∧
      ((applyPatch (.unchanged false) replacingRequest).run.run #[]).1 =
        .ok ⟨waitingClass.bytes, ⟨"m", "()V", true⟩⟩ ∧
      ∃ removed? added, ClassFile.ParsesTo waitingClass.bytes
        { returningClass with
          methods := removed?.elim returningClass.methods returningClass.methods.eraseIdx ++ [added] } ∧
        returningClass.findMethod? "m" "()V" = removed? ∧ true = removed?.isSome) ∧
    (blankRequest.mode = .reference namingClass.bytes ∧ Returns (ClassFile.parse blankRequest.target) blankClass ∧
      blankClass.methods.length < 65535 ∧
      ((applyPatch (.unchanged false) blankRequest).run.run #[]).1 = .ok ⟨filledClass.bytes, ⟨"m", "()V", false⟩⟩ ∧
      ∃ pool removed? added, ClassFile.ParsesTo filledClass.bytes
        { blankClass with
          pool := pool
          methods := removed?.elim blankClass.methods blankClass.methods.eraseIdx ++ [added] } ∧
        pool.Extends blankClass.pool ∧ { blankClass with pool := pool }.findMethod? "m" "()V" = removed? ∧
        false = removed?.isSome) := by
  have hrecompute := FrameRecomputer.givesBack_unchanged false
  refine ⟨hrecompute, ?_, ?_⟩
  · obtain ⟨pool, removed?, added, hparses, hpool, -, -, hremoved, hreplaced⟩ :=
      applyPatch_adds_method hrecompute (.inl rfl) parse_returningClass (by decide) applyPatch_replacingRequest
    obtain rfl := hpool rfl
    exact ⟨rfl, parse_returningClass, by decide, applyPatch_replacingRequest, removed?, added, hparses, hremoved,
      hreplaced⟩
  · obtain ⟨htarget, hrun, -⟩ := patchesTo_blankClass
    obtain ⟨pool, removed?, added, hparses, -, hextends, -, hremoved, hreplaced⟩ :=
      applyPatch_adds_method hrecompute (.inr ⟨_, rfl⟩) htarget (by decide) hrun
    exact ⟨rfl, htarget, by decide, hrun, pool, removed?, added, hparses, hextends, hremoved, hreplaced⟩

end ClassGraft
