import ClassGraft.Proofs.Alignment.Drift
import ClassGraft.Proofs.Patch.Compared
import ClassGraft.Proofs.Patch.Frame

/-!
# Patches with drifted indices

Two patched methods that have drifted apart make the same of a class in the differential mode, or are refused for the
same reason (`applyPatch_drifted`).  Alignment leaves them different in their access flags alone, and neither the code
that is put in nor the text of an error depends on these.
-/

namespace ClassGraft

open ClassGraft.Alignment

variable {recompute : FrameRecomputer} {bytes base first second : Bytes} {firstHex secondHex baseHex : String}
  {reading : HexReading} {target : ClassFile}

/-- Methods that have drifted apart are put in alike, or refused alike. -/
private theorem agree_patchDifferential (h : Drifted target.pool base first second) :
    Agree (patchDifferential target first base) (patchDifferential target second base) := by
  obtain ⟨aligned, aligned', rest, header, flags, hfirst, hsecond, hheader, hheader'⟩ := align_drifted h
  have hnoting : ∀ {patched aligned : Bytes}, (∀ log, ((align target.pool patched base).run log).1.2 = aligned) →
      Gives (alignNoting target.pool patched base) aligned :=
    fun haligned log => (bytes_of_alignNoting _ _ _ log).trans (haligned log)
  obtain ⟨name, descriptor, attributes, hparses⟩ := ParsedMethod.exists_returns_lenient target.pool header rest
  have hpatch := hparses aligned header.accessFlags hheader
  have hpatch' := hparses aligned' flags hheader'
  unfold patchDifferential
  refine .lift_bind (hnoting hfirst) (hnoting hsecond) ?_
  refine .bind_stage (ParsedMethod.steady_parse _ _ _) fun described hdescribed => ?_
  refine .bind_returns (returns_stage_iff.2 hpatch) (returns_stage_iff.2 hpatch') ?_
  cases hposition : target.findMethod? described.name described.descriptor with
  | none => exact .of_steady (.throw _)
  | some position =>
    refine .bind_note ?_
    cases hmethod : target.methods[position]? with
    | none => exact .of_steady (.throw _)
    | some method =>
      refine .lift_bind (method.gives_replaceCode _ _) (method.gives_replaceCode _ _) ?_
      -- The first code of both is the same, and so is what is reported when there is none.
      simp only [ParsedMethod.codeAttribute?]
      cases attributes.find? ParsedAttribute.isCode with
      | none => exact .of_steady (.throw _)
      | some code => exact .of_steady (.pure _)

/-- Two patched methods that differ only in their access flags and in indices that alignment copies from the base are
put in with the same outcome by the differential mode, or refused with the same error. -/
theorem applyPatch_drifted (hrecompute : recompute.Deterministic)
    (hfirst : Returns (Hex.decode reading firstHex) first) (hsecond : Returns (Hex.decode reading secondHex) second)
    (hdrifted : ∀ target base, Returns (ClassFile.parse bytes) target → Returns (Hex.decode reading baseHex) base →
      Drifted target.pool base first second) (log log' : Log) :
    ((applyPatch recompute ⟨bytes, firstHex, .differential baseHex, reading⟩).run.run log).1 =
      ((applyPatch recompute ⟨bytes, secondHex, .differential baseHex, reading⟩).run.run log').1 := by
  have hagree : Agree (applyPatch recompute ⟨bytes, firstHex, .differential baseHex, reading⟩)
      (applyPatch recompute ⟨bytes, secondHex, .differential baseHex, reading⟩) := by
    refine agreeUnless_applyPatch hrecompute rfl hfirst hsecond fun target htarget => ?_
    unfold patchClass
    dsimp only
    refine .bind_note (.bind_stage (Hex.steady_decode _ _) fun base hbase => ?_)
    exact agree_patchDifferential (hdrifted target base htarget hbase)
  exact hagree.run_eq log log'

/-- The method with an instruction more, in a numbering of its own and with other access flags. -/
def driftedHex : String := "000900070008000100090000000e000000010000000200b100000000"

/-- Put in directly, that method is refused: without alignment the name of its code leads nowhere. -/
example : ((applyPatch (.unchanged false) { replacingRequest with patchedHex := driftedHex }).run.run #[]).1.toOption =
    none := by
  decide +kernel

/-- The method with an instruction more, beside the method as it was. -/
def waitingPair : MethodPair where
  accessFlags _ := 1
  name _ := 1
  descriptor _ := 2
  count _ := 1
  attributes := [.code (sides 3 3) (sides ⟨0, 1, [0x00, 0xB1], []⟩ ⟨0, 1, [0xB1], []⟩) (sides 0 0) [] (sides [] [])]
  tail _ := []

private theorem waitingPair_matched : waitingPair.Matched returningClass.pool := by
  refine ⟨by decide, fun pair hpair => ?_⟩
  rw [waitingPair, List.mem_singleton] at hpair
  subst hpair
  have hcode : returningClass.pool.text 3 = .ok codeName := Pool.text_eq_ok_iff.2 ⟨_, get_returningClass.2.2, rfl⟩
  refine .code hcode (fun side => ?_) (by decide) (fun pair hpair => ?_) (fun side => ?_)
  · cases side <;> exact ⟨by decide, by decide⟩
  · cases hpair
  · cases side <;> decide

/-- The class is edited as if the method had been given in its own numbering. -/
theorem applyPatch_drifted_waiting :
    ((applyPatch (.unchanged false) editingRequest).run.run #[]).1 = .ok ⟨waitingClass.bytes, ⟨"m", "()V", true⟩⟩ ∧
      ((applyPatch (.unchanged false) { editingRequest with patchedHex := driftedHex }).run.run #[]).1 =
        .ok ⟨waitingClass.bytes, ⟨"m", "()V", true⟩⟩ := by
  have hfirst : Returns (Hex.decode .strict waitingHex) (waitingPair.bytes .patched .patched) := decode_waitingHex
  have hbase : Returns (Hex.decode .strict returningHex) (waitingPair.bytes .base .base) := decode_returningHex
  obtain ⟨second, hsecond, hsame⟩ := (Hex.steady_decode .strict driftedHex).exists_returns
    (fun second => decide (SameBut waitingPair.naming (waitingPair.bytes .patched .patched) second)) (b := true)
    (by decide +kernel)
  have hdrifted : ∀ target base, Returns (ClassFile.parse returningClass.bytes) target →
      Returns (Hex.decode .strict returningHex) base →
      Drifted target.pool base (waitingPair.bytes .patched .patched) second := by
    intro target base htarget hdecoded
    obtain rfl := htarget.unique parse_returningClass
    obtain rfl := hdecoded.unique hbase
    exact ⟨waitingPair, waitingPair_matched, rfl, rfl, of_decide_eq_true hsame⟩
  have hsame := applyPatch_drifted (FrameRecomputer.deterministic_unchanged false) hfirst hsecond hdrifted #[] #[]
  exact ⟨applyPatch_editingRequest, hsame.symm.trans applyPatch_editingRequest⟩

end ClassGraft
