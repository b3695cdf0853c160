import ClassGraft.Proofs.Transfer.Closed
import ClassGraft.Proofs.Transfer.Nesting

/-!
# When transfers succeed

An index that has been carried over is one from which the source is closed (`Transfer.Steps.closedFrom`): an entry is
carried over only after its references, each of which leads to an entry of the kind it should.  Conversely, when the
source is closed from an index on, only a full target makes its transfer fail (`TransferM.failsOnlyFull_constant`).
-/

namespace ClassGraft

namespace Transfer

variable {source : Pool} {limit : Nat} {before after : Transfer}

/-- The source is closed from every index that has been carried over. -/
def CarriesClosed (source : Pool) (transfer : Transfer) : Prop :=
  ∀ index place : Index, transfer.transferred[index]? = some place → source.ClosedFrom index

theorem Step.carriesClosed (hstep : Step source limit before after) (h : before.CarriesClosed source) :
    after.CarriesClosed source := by
  cases hstep with
  | name _ _ => exact h
  | @entry index new constant place target hget _ _ hreferences _ =>
    intro carried carriedTo hplace
    rw [Std.HashMap.getElem?_insert] at hplace
    split at hplace
    · rename_i hindex
      rw [beq_iff_eq] at hindex
      subst hindex
      refine Pool.closedFrom_iff.2 ⟨constant, hget, fun reference hmem => ?_⟩
      have hcarried := hreferences reference hmem
      exact ⟨hcarried.kind, h _ _ hcarried.place⟩
    · exact h carried carriedTo hplace

theorem Steps.carriesClosed (hsteps : Steps source limit before after) (h : before.CarriesClosed source) :
    after.CarriesClosed source := by
  induction hsteps with
  | refl => exact h
  | tail _ hstep ih => exact hstep.carriesClosed ih

theorem Reachable.carriesClosed {transfer : Transfer} (h : transfer.Reachable source) :
    transfer.CarriesClosed source := by
  obtain ⟨target, -, hsteps⟩ := h
  refine Steps.carriesClosed hsteps fun index place hplace => ?_
  simp [into] at hplace

end Transfer

namespace TransferM

open Transfer

variable {α β : Type} {source : Pool}

/-- When a computation fails, it is for want of room in the target that it leaves. -/
def FailsOnlyFull (x : TransferM α) : Prop :=
  ∀ before log error after log', runOn x before log = ((.error error, after), log') →
    ∃ constant, error = .overflow ⟨constant, after.target.pool.count⟩ ∧ after.target.pool.hasRoom constant = false

namespace FailsOnlyFull

theorem pure (a : α) : FailsOnlyFull (Pure.pure a) := by
  intro before log error after log' hrun
  cases hrun

theorem bind {x : TransferM α} {f : α → TransferM β} (hx : FailsOnlyFull x) (hf : ∀ a, FailsOnlyFull (f a)) :
    FailsOnlyFull (x >>= f) := by
  intro before log error after log' hrun
  rw [runOn_bind] at hrun
  rcases hfirst : runOn x before log with ⟨⟨_ | a, between⟩, middle⟩
  · rw [hfirst] at hrun
    cases hrun
    exact hx before log _ _ _ hfirst
  · rw [hfirst] at hrun
    exact hf a between middle error after log' hrun

theorem lift_bind {note : Logged α} {f : α → TransferM β} (hf : ∀ a, FailsOnlyFull (f a)) :
    FailsOnlyFull ((liftM note : TransferM α) >>= f) := by
  intro before log error after log' hrun
  rw [runOn_bind] at hrun
  exact hf _ _ _ _ _ _ hrun

theorem intern (constant : Constant) : FailsOnlyFull (TransferM.intern constant) := by
  intro before log error after log' hrun
  rw [runOn_intern] at hrun
  rcases Interner.intern_cases constant before.target with ⟨_, _, hfound⟩ | ⟨_, ⟨_, hadded⟩ | ⟨hfull, hfailed⟩⟩
  · rw [hfound] at hrun
    cases hrun
  · rw [hadded] at hrun
    cases hrun
  · rw [hfailed] at hrun
    cases hrun
    exact ⟨constant, rfl, hfull⟩

theorem remember {index : Index} {build : TransferM Constant} (h : FailsOnlyFull build) :
    FailsOnlyFull (TransferM.remember index build) := by
  intro before log error after log' hrun
  rw [TransferM.remember, runOn_bind, runOn_get] at hrun
  dsimp only at hrun
  split at hrun
  · cases hrun
  · refine (h.bind fun constant => (intern constant).bind fun new => ?_) before log error after log' hrun
    intro before log error after log' hrun
    cases hrun

end FailsOnlyFull

theorem failsOnlyFull_handedOn {again : Index → TransferM Index} {found : Except IndexError α} {a : α} {index : Index}
    (hfound : found = .ok a) (h : FailsOnlyFull (again index)) : FailsOnlyFull (handedOn again found index) := by
  rw [handedOn, discard_resolved, hfound]
  exact h

/-- Rebuilding an entry whose references are fulfilled fails only for want of room, when transferring them does. -/
theorem failsOnlyFull_rebuiltBy {again : Index → TransferM Index} {index : Index} {found : Constant}
    (h : ∀ reference ∈ found.references,
      source.Fulfils reference ∧ source.ClosedFrom reference.2 ∧ FailsOnlyFull (again reference.2)) :
    FailsOnlyFull (rebuiltBy again source index found) := by
  have htext : ∀ name, (.entry .utf8, name) ∈ found.references →
      FailsOnlyFull (handedOn again (source.text name) name) := by
    intro name hmem
    obtain ⟨hfulfils, -, hagain⟩ := h _ hmem
    obtain ⟨text, hok⟩ := Pool.exists_text_of_fulfils hfulfils
    exact failsOnlyFull_handedOn hok hagain
  have howner : ∀ owner, (.entry .classInfo, owner) ∈ found.references →
      FailsOnlyFull (handedOn again (source.className owner) owner) := by
    intro owner hmem
    obtain ⟨hfulfils, hclosed, hagain⟩ := h _ hmem
    obtain ⟨name, hok⟩ := hclosed.exists_className hfulfils
    exact failsOnlyFull_handedOn hok hagain
  have hsignature : ∀ signature, (.entry .nameAndType, signature) ∈ found.references →
      FailsOnlyFull (handedOn again (source.nameAndType signature) signature) := by
    intro signature hmem
    obtain ⟨hfulfils, hclosed, hagain⟩ := h _ hmem
    obtain ⟨texts, hok⟩ := hclosed.exists_nameAndType hfulfils
    exact failsOnlyFull_handedOn hok hagain
  cases found with
  | named kind name => exact (htext name (by simp [Constant.references])).bind fun _ => .pure _
  | member kind ownerIndex signatureIndex =>
    refine (howner ownerIndex (by simp [Constant.references])).bind fun _ => ?_
    exact (hsignature signatureIndex (by simp [Constant.references])).bind fun _ => .pure _
  | nameAndType name descriptor =>
    refine (htext name (by simp [Constant.references])).bind fun _ => ?_
    exact (htext descriptor (by simp [Constant.references])).bind fun _ => .pure _
  | methodHandle kind target =>
    obtain ⟨⟨member, hget, memberKind, htag⟩, -, hagain⟩ := h (.memberRef, target) (by simp [Constant.references])
    obtain ⟨memberKind, ownerIndex, signatureIndex, rfl⟩ := Constant.eq_member_of_tag htag
    have htarget : handleTargetBy again source target = again target := by
      rw [handleTargetBy, hget]
      rfl
    rw [rebuiltBy, htarget]
    exact hagain.bind fun _ => .pure _
  | dynamic kind bootstrap signatureIndex =>
    exact .lift_bind fun _ => (hsignature signatureIndex (by simp [Constant.references])).bind fun _ => .pure _
  | _ => exact .pure _

/-- Where the source is closed from an index on, only a full target makes the transfer of the index fail. -/
theorem failsOnlyFull_constant {index : Index} (h : source.ClosedFrom index) :
    FailsOnlyFull (constant source index) := by
  obtain ⟨found, hget, hreferences⟩ := Pool.closedFrom_iff.1 h
  induction hdepth : found.depth using Nat.strongRecOn generalizing index found with
  | ind depth ih =>
    rw [constant_eq hget]
    refine .remember (failsOnlyFull_rebuiltBy fun reference hmem => ?_)
    obtain ⟨⟨next, hnext, hadmits⟩, hclosed⟩ := hreferences reference hmem
    refine ⟨⟨next, hnext, hadmits⟩, hclosed, ?_⟩
    obtain ⟨again, hagain, hrest⟩ := Pool.closedFrom_iff.1 hclosed
    rw [hnext] at hagain
    cases hagain
    exact ih next.depth (hdepth ▸ Constant.depth_lt_of_admits hmem hadmits) hclosed next hnext hrest rfl

end TransferM

namespace Transfer

open TransferM

/-- However the indices of the source are wired, a transfer is a recursion of which at most four calls are active at
once: whatever would be done instead of a fifth one inside them, it runs alike.  It succeeds only when the source is
closed from the index on, and then it fails only when the target has no room for a constant. -/
theorem constant_nests {source : Pool} (hsource : source.Made) {transfer : Transfer}
    (hreachable : transfer.Reachable source) (index : Index) (log : Log) :
    runOn (constantBy (constant source) source index) transfer log = runOn (constant source index) transfer log ∧
      (∀ otherwise : Index → TransferM Index,
        runOn (constantWithin source otherwise 4 index) transfer log = runOn (constant source index) transfer log) ∧
      (∀ place, outcome (constant source index) (transfer, log) = .ok place → source.ClosedFrom index) ∧
      (source.ClosedFrom index → ∀ error, outcome (constant source index) (transfer, log) = .error error →
        ∃ entry, (following (constant source index) (transfer, log)).1.target.pool.hasRoom entry = false ∧
          error = .overflow
            ⟨entry, (following (constant source index) (transfer, log)).1.target.pool.count⟩) := by
  have hvalid := hreachable.valid hsource
  refine ⟨?_, fun otherwise => ?_, fun place hok => ?_, fun hclosed error herror => ?_⟩
  · exact runsAs_constantBy (fun _ _ _ _ _ => .refl _) transfer log hvalid
  · refine runsAs_constantWithin otherwise (fun found _ => ?_) transfer log hvalid
    exact Nat.le_of_lt_succ found.depth_lt
  · obtain ⟨hsteps, hplace⟩ := @Ensures.following _ source 4 (transfer, log) _ _ (ensures_constant index)
    exact Steps.carriesClosed hsteps hreachable.carriesClosed index place (hplace place hok)
  · have hrun : runOn (constant source index) transfer log =
        ((.error error, (following (constant source index) (transfer, log)).1),
          (following (constant source index) (transfer, log)).2) := by
      rw [← herror]
      rfl
    obtain ⟨entry, hoverflow, hfull⟩ := failsOnlyFull_constant hclosed transfer log error _ _ hrun
    exact ⟨entry, hfull, hoverflow⟩

/-- A pool with a class that is its own name. -/
def selfNamedPool : Pool := Pool.empty.push (.named .classInfo 1)

private theorem selfNamedPool_made : selfNamedPool.Made := by
  have hwellFormed : selfNamedPool.WellFormed := .push .empty trivial (by decide +kernel)
  refine hwellFormed.made (Pool.storable_push_iff.2 ⟨?_, trivial⟩)
  intro entry hmem
  cases hmem

/-- A class that is its own name fails for its kind, without going round in circles. -/
theorem constant_nests_selfNamed :
    selfNamedPool.Made ∧ (into wordPool).Reachable selfNamedPool ∧
      ∀ otherwise : Index → TransferM Index,
        runOn (constantWithin selfNamedPool otherwise 4 1) (into wordPool) #[] =
          ((.error (.index (.wrongTag 1 (.entry .utf8) .classInfo)), into wordPool), #[]) := by
  have hreachable : (into wordPool).Reachable selfNamedPool := reachable_into wordPool_made
  refine ⟨selfNamedPool_made, hreachable, fun otherwise => ?_⟩
  rw [(constant_nests selfNamedPool_made hreachable 1 #[]).2.1 otherwise]
  have hone : selfNamedPool.get 1 = .ok (.named .classInfo 1) := by decide +kernel
  simp [TransferM.constant, TransferM.text, TransferM.named, remember, resolved, hone, runOn_bind, -bind_pure_comp,
    into, Constant.tag, NamedKind.tag]

end Transfer

end ClassGraft
