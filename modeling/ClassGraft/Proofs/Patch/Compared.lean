import ClassGraft.Proofs.Frames
import ClassGraft.Proofs.Patch.Stages
import ClassGraft.Proofs.TwoRuns

/-!
# Two patches compared

Two requests for the same class agree when what their modes make of this class does (`agreeUnless_applyPatch`).  The
recomputer gets the same bytes then, and only has to give the same for them.
-/

namespace ClassGraft

theorem steady_requireCode (patch : ParsedMethod) : Steady (requireCode patch).run := by
  unfold requireCode
  split
  · exact .pure _
  · exact .throw _

theorem steady_outcomeOf (method : PatchedMethod) (bytes : Bytes) : Steady (outcomeOf method bytes).run := by
  unfold outcomeOf
  by_cases hempty : bytes.isEmpty = true
  · rw [if_pos hempty]
    exact .throw _
  · rw [if_neg hempty]
    exact .bind_except (.lift (.note _ _)) fun _ => .pure _

variable {excused : PatchError → Prop}

/-- Two patches that go through the same stage have the same from it. -/
theorem AgreeUnless.bind_stage {ε α β : Type} {wrap : ε → PatchError} {x : LoggedExcept ε α}
    {f g : α → LoggedExcept PatchError β} (hx : Steady x.run)
    (hf : ∀ a, Returns x a → AgreeUnless excused (f a) (g a)) :
    AgreeUnless excused (stage wrap x >>= f) (stage wrap x >>= g) :=
  .bind_steady (steady_stage hx) fun a ha => hf a (returns_stage_iff.1 ha)

/-- Two patches note something, which need not be the same. -/
theorem AgreeUnless.bind_note {α : Type} {severity severity' : Severity} {message message' : String}
    {x y : LoggedExcept PatchError α} (h : AgreeUnless excused x y) :
    AgreeUnless excused ((liftM (note severity message) : LoggedExcept PatchError Unit) >>= fun _ => x)
      ((liftM (note severity' message') : LoggedExcept PatchError Unit) >>= fun _ => y) :=
  @AgreeUnless.lift_bind _ _ _ _ _ _ _ _ _ () () (fun _ => rfl) (fun _ => rfl) h

/-- Two requests for the same class agree when the patched methods are put into it alike. -/
theorem agreeUnless_applyPatch {recompute : FrameRecomputer} (hrecompute : recompute.Deterministic)
    {request request' : PatchRequest} (hsame : request'.target = request.target) {patched patched' : Bytes}
    (hpatched : Returns (Hex.decode request.reading request.patchedHex) patched)
    (hpatched' : Returns (Hex.decode request'.reading request'.patchedHex) patched')
    (h : ∀ target, Returns (ClassFile.parse request.target) target →
      AgreeUnless excused (patchClass request.mode request.reading target patched)
        (patchClass request'.mode request'.reading target patched')) :
    AgreeUnless excused (applyPatch recompute request) (applyPatch recompute request') := by
  have hwritten : AgreeUnless excused (patchTarget request) (patchTarget request') := by
    refine .bind_returns (returns_stage_iff.2 hpatched) (returns_stage_iff.2 hpatched') (.bind_note ?_)
    rw [hsame]
    refine .bind_stage (ClassFile.steady_parse _) fun target htarget => .bind_note ?_
    exact .bind (h target htarget) fun _ => .of_steady (.pure _)
  refine .bind hwritten fun put => ?_
  exact .bind (.of_steady (steady_stage (hrecompute put.2))) fun frames => .of_steady (steady_outcomeOf put.1 frames)

end ClassGraft
