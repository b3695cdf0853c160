import ClassGraft.Proofs.Patch.Compared
import ClassGraft.Proofs.Patch.Frame
import ClassGraft.Proofs.Patch.Succeeding
import ClassGraft.Proofs.Transfer.Itself

/-!
# A class as its own reference

A patch whose reference class is the target, and which loses nothing when it is copied, is put in as it is.  So where
the mode with a reference succeeds, the direct mode gives the same (`applyPatch_direct_of_ownReference`).
-/

namespace ClassGraft

open TransferM Transfer

variable {recompute : FrameRecomputer} {bytes file patched : Bytes} {patchedHex : String} {reading : HexReading}
  {target : ClassFile} {patch : ParsedMethod} {log : Log} {outcome : PatchOutcome}

/-- Both modes put in the same method, unless it cannot be copied. -/
private theorem agreeUnless_patchClass (htarget : target.Representable) (hdistinct : target.pool.Distinct)
    (hreference : Returns (ClassFile.parse file) target)
    (hpatch : Returns (ParsedMethod.parse target.pool .lenient patched) patch)
    (hwhole : patch.CopiedWhole target.pool) :
    AgreeUnless (fun _ => True) (patchClass (.reference file) reading target patched)
      (patchClass .direct reading target patched) := by
  unfold patchClass
  dsimp only
  refine .bind_note (.bind_left (returns_stage_iff.2 hreference) ?_)
  unfold patchReference patchDirect
  refine .bind_stage (ParsedMethod.steady_parse _ _ _) fun found hfound => ?_
  obtain rfl := hfound.unique hpatch
  refine .bind (.of_steady (steady_requireCode _)) fun _ => .lift_bind_left fun log => ?_
  rw [run_copyMethod]
  rcases hcopied : runOn (TransferM.method target.pool found) (.into target.pool) log with ⟨⟨outcome, after⟩, log'⟩
  obtain ⟨-, hcopy⟩ := reproduces_method hdistinct hwhole _ (itself_into htarget.pool) log _ _ _ hcopied
  cases outcome with
  | error error => exact .throw trivial _
  | ok method =>
    -- The copy is the method itself, and the pool has not grown.
    obtain ⟨rfl, hitself⟩ := hcopy method rfl
    have hpool : { target with pool := after.target.pool } = target := by rw [hitself.target]
    rw [hpool]
    have hadded := target.gives_addOrReplace found.name found.descriptor found.toMethod
    exact .lift_bind hadded hadded (.of_steady (.pure _))

/-- With the target as the reference class, when no two of its constants have the same bytes, a method whose attributes
are copied whole is put in by the direct mode with the same outcome. -/
theorem applyPatch_direct_of_ownReference (hrecompute : recompute.Deterministic)
    (htarget : Returns (ClassFile.parse bytes) target) (hdistinct : target.pool.Distinct)
    (hpatched : Returns (Hex.decode reading patchedHex) patched)
    (hpatch : Returns (ParsedMethod.parse target.pool .lenient patched) patch)
    (hwhole : patch.CopiedWhole target.pool)
    (h : ((applyPatch recompute ⟨bytes, patchedHex, .reference bytes, reading⟩).run.run log).1 = .ok outcome) :
    Returns (applyPatch recompute ⟨bytes, patchedHex, .direct, reading⟩) outcome := by
  have hagree : AgreeUnless (fun _ => True) (applyPatch recompute ⟨bytes, patchedHex, .reference bytes, reading⟩)
      (applyPatch recompute ⟨bytes, patchedHex, .direct, reading⟩) := by
    refine agreeUnless_applyPatch hrecompute rfl hpatched hpatched fun found hfound => ?_
    obtain rfl := hfound.unique htarget
    have hfile := ClassFile.representable_of_parse htarget
    exact agreeUnless_patchClass hfile hdistinct htarget hpatch hwhole
  exact hagree.returns h

/-- The method with an instruction more, decoded. -/
def waitingMethod : ParsedMethod := ⟨1, 1, 2, "m", "()V", [.code 3 14 ⟨0, 1, [0x00, 0xB1], []⟩ []]⟩

private theorem parse_waitingMethod :
    Returns (ParsedMethod.parse returningClass.pool .lenient (codedMethod [0x00, 0xB1]).bytes) waitingMethod := by
  obtain ⟨hone, htwo, hthree⟩ := get_returningClass
  have hcanonical : ∀ parsed ∈ waitingMethod.attributes, parsed.Canonical returningClass.pool := by
    intro parsed hmem
    rw [waitingMethod, List.mem_singleton] at hmem
    subst hmem
    have hcode : returningClass.pool.text 3 = .ok codeName := Pool.text_eq_ok_iff.2 ⟨_, hthree, rfl⟩
    refine ⟨.code hcode ⟨by decide, by decide⟩ (by decide) (fun nested hnested => ?_) (by decide), rfl⟩
    cases hnested
  intro log
  obtain ⟨log', -, hparse⟩ := @ParsedMethod.parse_bytes_canonical returningClass.pool .lenient waitingMethod
    (Pool.text_eq_ok_iff.2 ⟨_, hone, rfl⟩) (Pool.text_eq_ok_iff.2 ⟨_, htwo, rfl⟩) (by decide) hcanonical log
  exact congrArg Prod.fst hparse

private theorem waitingMethod_copiedWhole : waitingMethod.CopiedWhole returningClass.pool := by
  intro parsed hmem
  rw [waitingMethod, List.mem_singleton] at hmem
  subst hmem
  refine ⟨⟨rfl, get_returningClass.2.2, fun layout leftOver hlayout => ?_⟩, fun one hone => ?_⟩
  · cases hlayout
  · cases hone

private theorem returningClass_distinct : returningClass.pool.Distinct :=
  (ClassFile.representable_of_parse parse_returningClass).pool.distinct (by decide)

private theorem copied_waitingMethod (log : Log) :
    (runOn (TransferM.method returningClass.pool waitingMethod) (.into returningClass.pool) log).1.1 =
        .ok (codedMethod [0x00, 0xB1]) ∧
      (runOn (TransferM.method returningClass.pool waitingMethod) (.into returningClass.pool) log).1.2.target.pool =
        returningClass.pool := by
  obtain ⟨hone, htwo, hthree⟩ := get_returningClass
  have hitself := itself_into (ClassFile.representable_of_parse parse_returningClass).pool
  have hplace : ∀ {index constant}, returningClass.pool.get index = .ok constant →
      (Interner.ofPool returningClass.pool).firstIndex[constant.bytes]? = some index :=
    fun hget => hitself.firstIndex returningClass_distinct hget
  have hpool : (Interner.ofPool returningClass.pool).pool = returningClass.pool := hitself.target
  have hwalk : Instruction.walk [0x00, 0xB1] = ⟨[⟨0, 0x00, 1⟩, ⟨1, 0xB1, 1⟩], none⟩ := by cbv
  have htemplate : Instruction.template [0x00, 0xB1] = ⟨[.fixed [0x00], .fixed [0xB1]], .ok []⟩ := by
    rw [Instruction.template, hwalk]
    rfl
  simp [TransferM.method, TransferM.methodAttribute, TransferM.text, TransferM.code, TransferM.instructions,
    TransferM.finish, TransferM.template, piece, remember, resolved, waitingMethod, codedMethod, htemplate, hone, htwo,
    runOn_bind, runOn_intern, -bind_pure_comp, into, Interner.run_intern, Except.mapError, hplace hone, hplace htwo,
    hplace hthree, hpool]

private theorem applyPatch_waitingMethod :
    Returns (applyPatch (.unchanged false) ⟨returningClass.bytes, waitingHex, .reference returningClass.bytes, .strict⟩)
      ⟨waitingClass.bytes, ⟨"m", "()V", true⟩⟩ := by
  have hfound : returningClass.findMethod? "m" "()V" = some 0 := by decide +kernel
  have hframes : Returns (FrameRecomputer.unchanged false waitingClass.bytes) waitingClass.bytes :=
    (FrameRecomputer.deterministic_unchanged false _).returns (by decide +kernel)
  have hclass : Returns (patchClass (.reference returningClass.bytes) .strict returningClass _) _ :=
    returns_patchReference parse_returningClass parse_waitingMethod rfl copied_waitingMethod
  dsimp only [waitingMethod] at hclass
  rw [hfound] at hclass
  exact returns_applyPatch decode_waitingHex parse_returningClass hclass hframes (by decide +kernel)

/-- The longer method is put in alike with the class as the reference and directly. -/
theorem applyPatch_direct_of_ownReference_waiting :
    Returns (applyPatch (.unchanged false) ⟨returningClass.bytes, waitingHex, .reference returningClass.bytes, .strict⟩)
        ⟨waitingClass.bytes, ⟨"m", "()V", true⟩⟩ ∧
      Returns (applyPatch (.unchanged false) ⟨returningClass.bytes, waitingHex, .direct, .strict⟩)
        ⟨waitingClass.bytes, ⟨"m", "()V", true⟩⟩ := by
  exact ⟨applyPatch_waitingMethod, applyPatch_direct_of_ownReference (FrameRecomputer.deterministic_unchanged false)
    parse_returningClass returningClass_distinct decode_waitingHex parse_waitingMethod waitingMethod_copiedWhole
    (applyPatch_waitingMethod #[])⟩

end ClassGraft
