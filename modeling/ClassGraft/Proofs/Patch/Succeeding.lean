import ClassGraft.Proofs.Frames
import ClassGraft.Proofs.Patch.Stages

/-!
# Patches that succeed

The stages of a patch, run one after the other: when each of them returns something, so does the patch
(`returns_applyPatch`).  In each mode the method is put in by what the stages of this mode return
(`returns_patchDirect`, `returns_patchReference`, `returns_patchDifferential`).
-/

namespace ClassGraft

variable {recompute : FrameRecomputer} {request : PatchRequest} {reading : HexReading} {target result : ClassFile}
  {patched base : Bytes}

/-- A patch succeeds when the method is put into its class and the recomputer gives some bytes for this class. -/
theorem returns_applyPatch {reported : PatchedMethod} {frames : Bytes}
    (hpatched : Returns (Hex.decode request.reading request.patchedHex) patched)
    (htarget : Returns (ClassFile.parse request.target) target)
    (hclass : Returns (patchClass request.mode request.reading target patched) (reported, result))
    (hframes : Returns (recompute result.bytes) frames) (hsome : frames ≠ []) :
    Returns (applyPatch recompute request) ⟨frames, reported⟩ := by
  have hwritten : Returns (patchTarget request) (reported, result.bytes) := by
    refine .bind (returns_stage_iff.2 hpatched) (.lift_bind (fun _ => rfl) ?_)
    exact .bind (returns_stage_iff.2 htarget) (.lift_bind (fun _ => rfl) (.bind hclass (.pure _)))
  refine .bind hwritten (.bind (returns_stage_iff.2 hframes) ?_)
  unfold outcomeOf
  rw [if_neg (by simpa using hsome)]
  exact .lift_bind (fun _ => rfl) (.pure _)

/-- A class that needs no frames, and whose methods have no attributes, is left as it is. -/
theorem FrameRecomputer.returns_unchanged {allowStale : Bool} {bytes : Bytes} {file : ClassFile}
    (hparse : Returns (ClassFile.parse bytes) file) (hversion : file.version.requiresFrames = false)
    (hmethods : ∀ method ∈ file.methods, method.attributes = []) : Returns (unchanged allowStale bytes) bytes := by
  refine (returns_unchanged_iff hparse).2 ⟨fun hrequired => ?_, fun method hmethod => ?_⟩
  · rw [hversion] at hrequired
    cases hrequired
  · unfold checkMethod
    rw [hmethods method hmethod]
    exact .pure ()

private theorem returns_requireCode {patch : ParsedMethod}
    (hcode : (patch.hasCode || AccessFlags.haveNoCode patch.accessFlags) = true) : Returns (requireCode patch) () := by
  unfold requireCode
  rw [if_pos hcode]
  exact .pure _

/-- Methods without attributes are compared by the rest of them. -/
theorem ParsedMethod.returns_bare {pool : Pool} {strictness : Strictness} {bytes : Bytes} {accessFlags : UInt16}
    {nameIndex descriptorIndex : Index} {name descriptor : String}
    (h : ((parse pool strictness bytes).run.run #[]).1.toOption.map (fun method =>
        (method.toMethod, method.name, method.descriptor)) =
      some (⟨accessFlags, nameIndex, descriptorIndex, []⟩, name, descriptor)) :
    Returns (parse pool strictness bytes) ⟨accessFlags, nameIndex, descriptorIndex, name, descriptor, []⟩ := by
  obtain ⟨method, hmethod, hview⟩ := (steady_parse pool strictness bytes).exists_returns _ h
  obtain ⟨hwritten, hnames⟩ := Prod.mk.inj hview
  obtain ⟨rfl, rfl⟩ := Prod.mk.inj hnames
  obtain ⟨rfl, rfl, rfl, hattributes⟩ := Member.mk.inj hwritten
  rwa [← List.map_eq_nil_iff.1 hattributes]

/-- A method that has code, or needs none, is put in directly. -/
theorem returns_patchDirect {patch : ParsedMethod}
    (hpatch : Returns (ParsedMethod.parse target.pool .lenient patched) patch)
    (hcode : (patch.hasCode || AccessFlags.haveNoCode patch.accessFlags) = true) :
    Returns (patchClass .direct reading target patched)
      (⟨patch.name, patch.descriptor, (target.findMethod? patch.name patch.descriptor).isSome⟩,
        { target with
          methods := (MethodChange.add (target.findMethod? patch.name patch.descriptor) patch.toMethod).apply
            target.methods }) := by
  refine .lift_bind (fun _ => rfl) (.bind (returns_stage_iff.2 hpatch) (.bind (returns_requireCode hcode) ?_))
  exact .lift_bind (ClassFile.gives_addOrReplace target patch.name patch.descriptor patch.toMethod) (.pure _)

/-- A method that has code, or needs none, is put in when it can be carried over. -/
theorem returns_patchReference {file : Bytes} {reference : ClassFile} {patch : ParsedMethod} {method : Method}
    {pool : Pool} (hreference : Returns (ClassFile.parse file) reference)
    (hpatch : Returns (ParsedMethod.parse reference.pool .lenient patched) patch)
    (hcode : (patch.hasCode || AccessFlags.haveNoCode patch.accessFlags) = true)
    (hcopied : ∀ log, (runOn (TransferM.method reference.pool patch) (.into target.pool) log).1.1 = .ok method ∧
      (runOn (TransferM.method reference.pool patch) (.into target.pool) log).1.2.target.pool = pool) :
    Returns (patchClass (.reference file) reading target patched)
      (⟨patch.name, patch.descriptor, ({ target with pool := pool }.findMethod? patch.name patch.descriptor).isSome⟩,
        { target with
          pool := pool
          methods := (MethodChange.add ({ target with pool := pool }.findMethod? patch.name patch.descriptor)
            method).apply target.methods }) := by
  have hmoved : Gives (target.copyMethod reference.pool patch) (.ok method, { target with pool := pool }) := by
    intro log
    obtain ⟨hmethod, hpool⟩ := hcopied log
    rw [run_copyMethod, hmethod, hpool]
  refine .lift_bind (fun _ => rfl) (.bind (returns_stage_iff.2 hreference) (.bind (returns_stage_iff.2 hpatch) ?_))
  refine .bind (returns_requireCode hcode) (.lift_bind hmoved ?_)
  exact .lift_bind (ClassFile.gives_addOrReplace _ patch.name patch.descriptor method) (.pure _)

/-- The first code of a patched method, as far as it could be aligned, is put into the method that the base describes.
-/
theorem returns_patchDifferential {baseHex : String} {outcome : Except AlignmentError AlignmentReport} {aligned : Bytes}
    {described patch : ParsedMethod} {position : Nat} {method : Method} {code : ParsedAttribute}
    (hbase : Returns (Hex.decode reading baseHex) base)
    (haligned : Gives (align target.pool patched base) (outcome, aligned))
    (hdescribed : Returns (ParsedMethod.parse target.pool .strict base) described)
    (hpatch : Returns (ParsedMethod.parse target.pool .lenient aligned) patch)
    (hposition : target.findMethod? described.name described.descriptor = some position)
    (hmethod : target.methods[position]? = some method) (hcode : patch.codeAttribute? = some code) :
    Returns (patchClass (.differential baseHex) reading target patched)
      (⟨described.name, described.descriptor, true⟩,
        { target with
          methods := (MethodChange.edit position (method.withCode target.pool code.toAttribute)).apply
            target.methods }) := by
  have hnoting : Gives (alignNoting target.pool patched base) aligned := by
    intro log
    rw [bytes_of_alignNoting, haligned log]
  have hedited := method.gives_replaceCode target.pool patch
  rw [hcode] at hedited
  refine .lift_bind (fun _ => rfl) (.bind (returns_stage_iff.2 hbase) (.lift_bind hnoting ?_))
  refine .bind (returns_stage_iff.2 hdescribed) (.bind (returns_stage_iff.2 hpatch) ?_)
  rw [hposition]
  refine .lift_bind (fun _ => rfl) ?_
  rw [hmethod]
  exact .lift_bind hedited (.pure _)

/-- A request about a class succeeds, and what it gives is another class. -/
def PatchesTo (request : PatchRequest) (file result : ClassFile) (reported : PatchedMethod) : Prop :=
  Returns (ClassFile.parse request.target) file ∧
    ((applyPatch (.unchanged false) request).run.run #[]).1 = .ok ⟨result.bytes, reported⟩ ∧
    ClassFile.ParsesTo result.bytes result

theorem patchesTo_of_run {request : PatchRequest} {file result : ClassFile} {reported : PatchedMethod}
    (hparse : ((ClassFile.parse request.target).run.run #[]).1.toOption = some file)
    (hrun : ((applyPatch (.unchanged false) request).run.run #[]).1.toOption = some ⟨result.bytes, reported⟩)
    (hread : (ClassFile.read result.bytes).toOption = some (result, [])) : PatchesTo request file result reported :=
  ⟨(ClassFile.steady_parse _).returns hparse, eq_ok_of_toOption hrun,
    ClassFile.parsesTo_iff.2 (eq_ok_of_toOption hread)⟩

end ClassGraft
