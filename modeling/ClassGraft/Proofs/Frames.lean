import ClassGraft.Frames
import ClassGraft.Proofs.Codec.ClassFile
import ClassGraft.Proofs.Instruction.Tiles
import ClassGraft.Proofs.Method.Decoding
import ClassGraft.Proofs.MethodTable

/-!
# Frames and the log

A recomputer is deterministic when what it gives depends on the bytes alone, and not on what has been noted before.
Letting a class through with its frames as they are is (`FrameRecomputer.deterministic_unchanged`), and it is decided
by the version of the class and by the code of each of its methods (`FrameRecomputer.returns_unchanged_iff`), whose
code arrays have to be made up of instructions (`FrameRecomputer.returns_checkAttribute_iff`).
-/

namespace ClassGraft

theorem Code.steady_parse (info : Bytes) : Steady (Code.parse info).run := by
  unfold Code.parse
  split
  · exact .throw _
  · exact .bind_except (.lift (ParsedAttribute.steady_noteLeftOver _)) fun _ => .pure _

namespace FrameRecomputer

/-- A recomputer that gives the same for the same bytes. -/
def Deterministic (recompute : FrameRecomputer) : Prop := ∀ bytes, Steady (recompute bytes).run

/-- Whether an attribute is let through does not depend on what has been noted before. -/
theorem steady_checkAttribute (pool : Pool) (method : Method) (entry : Attribute) :
    Steady (checkAttribute pool method entry).run := by
  unfold checkAttribute
  by_cases hcode : entry.isNamed pool codeName = true
  · rw [if_pos hcode]
    refine .bind_except (.lift (Code.steady_parse entry.info)) fun parsed => ?_
    cases parsed with
    | error error => exact .throw _
    | ok code =>
      dsimp only
      split
      · exact .pure _
      · exact .throw _
  · rw [if_neg hcode]
    exact .pure _

/-- Whether the code of a method can be walked does not depend on what has been noted before. -/
theorem steady_checkMethod (pool : Pool) (method : Method) : Steady (checkMethod pool method).run :=
  .forM (steady_checkAttribute pool method) _

/-- An attribute is let through when it is not code, or when it can be parsed as code that instructions make up. -/
theorem returns_checkAttribute_iff {pool : Pool} {method : Method} {entry : Attribute} :
    Returns (checkAttribute pool method entry) () ↔
      (pool.text entry.nameIndex = .ok codeName →
        ∃ code, Returns (Code.parse entry.info) code ∧ Instruction.Tiled code.code) := by
  rw [← Attribute.isNamed_iff]
  unfold checkAttribute
  by_cases hnamed : entry.isNamed pool codeName = true
  · rw [if_pos hnamed]
    refine ⟨fun h _ => ?_, fun h => ?_⟩
    · have hrun := h #[]
      rw [run_lift_bind] at hrun
      cases hparse : ((Code.parse entry.info).run.run #[]).1 with
      | error error =>
        rw [hparse] at hrun
        cases hrun
      | ok code =>
        refine ⟨code, (Code.steady_parse entry.info).gives hparse, Instruction.stop_walk_eq_none_iff.1 ?_⟩
        rw [hparse] at hrun
        dsimp only at hrun
        cases hstop : (Instruction.walk code.code).stop with
        | none => rfl
        | some stop =>
          rw [hstop] at hrun
          cases hrun
    · obtain ⟨code, hparse, htiled⟩ := h hnamed
      refine .lift_bind hparse ?_
      dsimp only
      rw [Instruction.stop_walk_eq_none_iff.2 htiled]
      exact .pure ()
  · rw [if_neg hnamed]
    exact ⟨fun _ h => absurd h hnamed, fun _ => .pure ()⟩

/-- Whether frames are left as they are depends on the bytes alone. -/
theorem deterministic_unchanged (allowStale : Bool) : (unchanged allowStale).Deterministic := by
  intro bytes
  refine .bind_except (.lift (ClassFile.steady_parse bytes)) fun parsed => ?_
  cases parsed with
  | error error => exact .throw _
  | ok file =>
    have hrest : Steady (file.methods.forM (checkMethod file.pool) >>= fun _ => pure bytes).run :=
      .bind_except (.forM (steady_checkMethod file.pool) _) fun _ => .pure _
    dsimp only
    split
    · split
      · exact .bind_except (.lift (.note _ _)) fun _ => hrest
      · exact .bind_except (.throw _) fun _ => .bind_except (.lift (.note _ _)) fun _ => hrest
    · exact hrest

/-- A class is let through when stale frames are allowed or it needs none, and the code of each method can be walked. -/
theorem returns_unchanged_iff {allowStale : Bool} {bytes : Bytes} {file : ClassFile}
    (hparse : Returns (ClassFile.parse bytes) file) :
    Returns (unchanged allowStale bytes) bytes ↔ (file.version.requiresFrames = true → allowStale = true) ∧
      ∀ method ∈ file.methods, Returns (checkMethod file.pool method) () := by
  have hrest : Returns (file.methods.forM (checkMethod file.pool) >>= fun _ => pure bytes) bytes ↔
      ∀ method ∈ file.methods, Returns (checkMethod file.pool method) () := by
    rw [← Returns.forM_iff (steady_checkMethod file.pool)]
    constructor
    · intro h
      obtain ⟨_, hall, -⟩ := h.of_bind (.forM (steady_checkMethod file.pool) _) fun _ => .pure _
      exact hall
    · exact fun h => h.bind (.pure _)
  have hsteady : Steady (file.methods.forM (checkMethod file.pool) >>= fun _ => pure bytes).run :=
    .bind_except (.forM (steady_checkMethod file.pool) _) fun _ => .pure _
  rw [← hrest]
  unfold unchanged
  constructor
  · intro h
    have hrun := h #[]
    rw [run_lift_bind, hparse] at hrun
    dsimp only at hrun
    by_cases hrequired : file.version.requiresFrames = true
    · rw [if_pos hrequired] at hrun
      by_cases hallowed : allowStale = true
      · rw [if_pos hallowed, run_lift_bind] at hrun
        exact ⟨fun _ => hallowed, hsteady.gives hrun⟩
      · rw [if_neg hallowed] at hrun
        cases hrun
    · rw [if_neg hrequired] at hrun
      exact ⟨fun h => absurd h hrequired, hsteady.gives hrun⟩
  · rintro ⟨hversion, h⟩
    refine .lift_bind hparse ?_
    dsimp only
    by_cases hrequired : file.version.requiresFrames = true
    · rw [if_pos hrequired, if_pos (hversion hrequired)]
      exact .lift_bind (fun _ => rfl) h
    · rw [if_neg hrequired]
      exact h

end FrameRecomputer

end ClassGraft
