import ClassGraft.Alignment
import ClassGraft.Proofs.Running

/-!
# Alignment and the log

What an alignment gives, and the patched method that it leaves, do not depend on what has been noted before
(`steady_align`).  This holds of each step, and of the walk through the attributes by induction on what is left of the
base.
-/

namespace ClassGraft

namespace Alignment

theorem steadyOn_takeBase (n : Nat) (suffix : Suffix) : SteadyOn (takeBase n suffix) := by
  unfold takeBase
  split
  · exact .pure _
  · exact .throw _

theorem steadyOn_patchedEnd (n : Nat) : SteadyOn (patchedEnd n) := by
  refine .bind .get fun progress => ?_
  by_cases hfits : progress.position + n ≤ progress.patched.size
  · rw [if_pos hfits]
    exact .pure _
  · rw [if_neg hfits]
    exact .throw _

theorem steadyOn_takePatched (k : Nat) : SteadyOn (takePatched k) := by
  refine .bind .get fun _ => .bind (steadyOn_patchedEnd k) fun _ => ?_
  exact .bind .get fun _ => .bind (.modify _) fun _ => .pure _

theorem steadyOn_skipBoth (n m : Nat) (suffix : Suffix) : SteadyOn (skipBoth n m suffix) := by
  refine .bind (steadyOn_patchedEnd n) fun _ => .bind (steadyOn_takeBase m suffix) fun _ => ?_
  exact .bind (.modify _) fun _ => .pure _

theorem steadyOn_takeBoth (k : Nat) (suffix : Suffix) : SteadyOn (takeBoth k suffix) :=
  .bind (steadyOn_takePatched k) fun _ => .bind (steadyOn_takeBase k suffix) fun _ => .pure _

theorem steadyOn_copyIndex (suffix : Suffix) : SteadyOn (copyIndex suffix) := by
  refine .bind (steadyOn_takeBase 2 suffix) fun taken => .bind .get fun _ => ?_
  refine .bind (steadyOn_takePatched 2) fun current => ?_
  dsimp only
  split
  · exact .bind (.modify _) fun _ => .pure _
  · exact .bind (.note _ _) fun _ => .bind (.modify _) fun _ => .pure _

theorem steadyOn_openAttribute (pool : Pool) (suffix : Suffix) : SteadyOn (openAttribute pool suffix) := by
  refine .bind (steadyOn_copyIndex suffix) fun copied => .bind (.modify _) fun _ => ?_
  refine .bind (steadyOn_takeBoth 4 _) fun lengths => .bind (steadyOn_patchedEnd _) fun _ => ?_
  refine .bind (steadyOn_takeBase _ _) fun _ => ?_
  dsimp only
  split
  · exact .throw _
  · exact .pure _

theorem steadyOn_agreeOn (patchedCount baseCount : Nat) : SteadyOn (agreeOn patchedCount baseCount) := by
  unfold agreeOn
  dsimp only
  split
  · exact .bind (.note _ _) fun _ => .pure _
  · exact .pure _

theorem steadyOn_openCode (suffix : Suffix) : SteadyOn (openCode suffix) := by
  refine .bind (steadyOn_skipBoth 4 4 suffix) fun _ => .bind (steadyOn_takeBoth 4 _) fun _ => ?_
  refine .bind (steadyOn_skipBoth _ _ _) fun _ => .bind (steadyOn_takeBoth 2 _) fun _ => ?_
  refine .bind (steadyOn_skipBoth _ _ _) fun _ => .bind (steadyOn_takeBoth 2 _) fun _ => ?_
  exact .bind (steadyOn_agreeOn _ _) fun _ => .pure _

theorem steadyOn_alignAttributes (pool : Pool) (count : Nat) (suffix : Suffix) :
    SteadyOn (alignAttributes pool count suffix) := by
  induction count, suffix using alignAttributes.induct with
  | case1 suffix =>
    rw [alignAttributes]
    exact .pure _
  | case2 suffix count ihrest ihinner =>
    rw [alignAttributes]
    refine .bind (steadyOn_openAttribute pool suffix) fun opened => ?_
    have hrest : SteadyOn (moveTo opened.patchedEnd >>= fun _ => alignAttributes pool count opened.rest) :=
      .bind (.modify _) fun _ => ihrest opened
    by_cases hcode : opened.isCode = true
    · rw [if_pos hcode]
      refine .bind (steadyOn_openCode opened.contents) fun inside => ?_
      exact .bind (ihinner opened inside.1 inside.2.1 inside.2.2) fun _ => hrest
    · rw [if_neg hcode]
      exact hrest

theorem steadyOn_alignMethod (pool : Pool) (suffix : Suffix) : SteadyOn (alignMethod pool suffix) := by
  refine .bind (steadyOn_skipBoth 2 2 suffix) fun _ => .bind (steadyOn_copyIndex _) fun _ => ?_
  refine .bind (steadyOn_copyIndex _) fun _ => .bind (steadyOn_takeBoth 2 _) fun _ => ?_
  exact .bind (steadyOn_agreeOn _ _) fun _ => steadyOn_alignAttributes pool _ _

end Alignment

/-- What alignment gives does not depend on what has been noted before. -/
theorem steady_align (pool : Pool) (patched base : Bytes) : Steady (align pool patched base) :=
  .bind (fun log log' => Alignment.steadyOn_alignMethod pool _ _ log log') fun _ => .pure _

end ClassGraft
