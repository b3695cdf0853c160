import ClassGraft.Proofs.Pool.References
import ClassGraft.Proofs.Transfer.Calls

/-!
# Transfers keep pools closed

An entry is carried over after everything that it refers to, and a reference is followed only when it leads to an entry
of the kind that it asks for.  So each step of a transfer leaves a closed target closed (`Transfer.Step.closed`), and
with it every sequence of calls, whether they fail or not; what a call has added before it failed is closed too.
-/

namespace ClassGraft

/-- An entry that is alike to another has its tag. -/
theorem Pool.Alike.tag {source target : Pool} {i j : Index} (h : source.Alike target i j) {constant : Constant}
    (hget : source.get i = .ok constant) : ∃ found, target.get j = .ok found ∧ found.tag = constant.tag := by
  cases h with
  | literal _ hi hj | named hi hj _ | member hi hj _ _ | nameAndType hi hj _ _ | methodHandle hi hj _
    | dynamic hi hj _ =>
    rw [hget] at hi
    cases hi
    exact ⟨_, hj, rfl⟩

namespace Interner

/-- Interning a constant whose references are fulfilled keeps a pool closed. -/
theorem Sound.closed_intern {interner after : Interner} (h : interner.Sound) (hclosed : interner.pool.Closed)
    {constant : Constant} (hgenuine : constant.Genuine)
    (hreferences : ∀ reference ∈ constant.references, interner.pool.Fulfils reference)
    {outcome : Except PoolOverflow Index}
    (hrun : (Interner.intern constant).run.run interner = (outcome, after)) : after.pool.Closed := by
  rcases intern_cases constant interner with ⟨_, _, hfound⟩ | ⟨_, ⟨hroom, hadded⟩ | ⟨_, hfailed⟩⟩
  · rw [hfound] at hrun
    cases hrun
    exact hclosed
  · rw [hadded] at hrun
    cases hrun
    exact hclosed.push h.pool hgenuine hroom hreferences
  · rw [hfailed] at hrun
    cases hrun
    exact hclosed

/-- The entries that have been added to a pool stand at its end, and have been counted. -/
def Counts (interner : Interner) (pool : Pool) : Prop :=
  ∃ appended, interner.pool.entries = pool.entries ++ appended ∧ interner.added = appended.length

theorem counts_ofPool (pool : Pool) : (ofPool pool).Counts pool := ⟨[], by simp [ofPool], rfl⟩

/-- Interning a constant counts what it adds. -/
theorem Counts.intern {interner after : Interner} {pool : Pool} (h : interner.Counts pool) {constant : Constant}
    {outcome : Except PoolOverflow Index}
    (hrun : (Interner.intern constant).run.run interner = (outcome, after)) : after.Counts pool := by
  rcases intern_cases constant interner with ⟨_, _, hfound⟩ | ⟨_, ⟨_, hadded⟩ | ⟨_, hfailed⟩⟩
  · rw [hfound] at hrun
    cases hrun
    exact h
  · rw [hadded] at hrun
    cases hrun
    obtain ⟨appended, hentries, hcount⟩ := h
    refine ⟨appended ++ [(UInt16.ofNat interner.pool.count, constant)], ?_, ?_⟩
    · rw [← List.append_assoc, ← hentries, add, Pool.entries, Pool.toList_push, List.map_append]
      rfl
    · rw [List.length_append, ← hcount]
      rfl
  · rw [hfailed] at hrun
    cases hrun
    exact h

end Interner

namespace Transfer

open TransferM

variable {source target : Pool} {limit : Nat} {before after : Transfer}

/-! ### What one step keeps -/

/-- What an index of an expected kind has been carried over to is of this kind. -/
theorem Carried.fulfils {expected : Expectation} {index place : Index}
    (h : before.Carried source expected index place) (hvalid : before.Valid source) :
    before.target.pool.Fulfils (expected, place) := by
  obtain ⟨⟨constant, hget, hadmits⟩, hplace⟩ := h
  obtain ⟨found, hfound, htag⟩ := (hvalid.alike index place hplace).tag hget
  exact ⟨found, hfound, htag ▸ hadmits⟩

theorem Step.closed (hstep : Step source limit before after) (h : before.Valid source)
    (hclosed : before.target.pool.Closed) : after.target.pool.Closed := by
  cases hstep with
  | name _ hintern =>
    refine h.sound.closed_intern hclosed (Constant.genuine_ofText _) (fun reference hmem => ?_) hintern
    cases hmem
  | @entry index new constant place target hget _ _ hreferences hintern =>
    refine h.sound.closed_intern hclosed ((h.wellFormed.genuine hget).renamed place) (fun reference hmem => ?_) hintern
    -- the references of the new entry lead to what those of the old one have been carried over to
    rw [Constant.references_renamed, List.mem_map] at hmem
    obtain ⟨old, hold, rfl⟩ := hmem
    exact (hreferences old hold).fulfils h

theorem Step.counts (hstep : Step source limit before after) (h : before.target.Counts target) :
    after.target.Counts target := by
  cases hstep with
  | name _ hintern => exact h.intern hintern
  | entry _ _ _ _ hintern => exact h.intern hintern

/-! ### What calls keep -/

theorem Steps.closed (hsteps : Steps source limit before after) (h : before.Valid source)
    (hclosed : before.target.pool.Closed) : after.target.pool.Closed := by
  induction hsteps with
  | refl => exact hclosed
  | tail hsteps hstep ih => exact hstep.closed (Steps.valid hsteps h) ih

theorem Steps.counts (hsteps : Steps source limit before after) (h : before.target.Counts target) :
    after.target.Counts target := by
  induction hsteps with
  | refl => exact h
  | tail _ hstep ih => exact hstep.counts ih

/-- After any calls, each of which may have failed, a target that was closed is closed, its count fits into two bytes,
and the number of entries added is that of the entries that have been appended. -/
theorem closed_after_calls (hsource : source.Made) (htarget : target.Made) (hclosed : target.Closed)
    (calls : List Call) (log : Log) :
    (afterCalls source calls (.into target, log)).1.target.pool.Closed ∧
      (afterCalls source calls (.into target, log)).1.target.pool.count ≤ 65535 ∧
      ∃ appended,
        (afterCalls source calls (.into target, log)).1.target.pool.entries = target.entries ++ appended ∧
        (afterCalls source calls (.into target, log)).1.target.added = appended.length := by
  have hinto := valid_into hsource.wellFormed htarget.wellFormed
  have hsteps := @steps_afterCalls source calls (into target, log) hinto
  exact ⟨Steps.closed hsteps hinto hclosed, (Steps.valid hsteps hinto).sound.pool.count_le,
    Steps.counts hsteps (Interner.counts_ofPool target)⟩

/-- A pool with a field of a class whose name and type are missing. -/
def danglingPool : Pool :=
  ((Pool.empty.push (.utf8 (.ofText "B"))).push (.named .classInfo 1)).push (.member .field 2 9)

theorem danglingPool_made : danglingPool.Made := by
  have hwellFormed : danglingPool.WellFormed :=
    .push (.push (.push .empty (Constant.genuine_ofText _) (by decide +kernel)) trivial (by decide +kernel)) trivial
      (by decide +kernel)
  refine hwellFormed.made ?_
  simp only [danglingPool, Pool.storable_push_iff]
  refine ⟨⟨⟨fun entry hmem => (by cases hmem), ?_⟩, trivial⟩, trivial⟩
  exact ⟨Constant.genuine_ofText _, by decide +kernel⟩

private theorem classPool_closed : classPool.Closed := by
  rw [classPool_made.wellFormed.closed_iff]
  intro index constant hget reference hmem
  have hentries : classPool.entries = [(1, .utf8 (.ofText "A")), (2, .named .classInfo 1)] := by decide +kernel
  rw [← classPool_made.wellFormed.mem_entries_iff, hentries] at hget
  simp only [List.mem_cons, Prod.mk.injEq, List.not_mem_nil, or_false] at hget
  rcases hget with ⟨-, rfl⟩ | ⟨-, rfl⟩
  · cases hmem
  · rw [List.mem_singleton.1 hmem]
    exact ⟨.utf8 (.ofText "A"), by decide +kernel, rfl⟩

/-- The field cannot be carried over, but its class and the name of it have been. -/
private theorem runOn_danglingPool :
    outcome (TransferM.constant danglingPool 3) (into classPool, #[]) = .error (.index (.outOfRange 9)) ∧
      (afterCalls danglingPool [.constant 3] (into classPool, #[])).1.target.added = 2 := by
  have hone : danglingPool.get 1 = .ok (.utf8 (.ofText "B")) := by decide +kernel
  have htwo : danglingPool.get 2 = .ok (.named .classInfo 1) := by decide +kernel
  have hthree : danglingPool.get 3 = .ok (.member .field 2 9) := by decide +kernel
  have hname : (discard (resolved (danglingPool.className 2)) : TransferM Unit) = pure () := by
    rw [show danglingPool.className 2 = .ok "B" by decide +kernel]
    rfl
  have hnine : (discard (resolved (danglingPool.nameAndType 9)) : TransferM Unit) =
      throw (.index (.outOfRange 9)) := by
    rw [show danglingPool.nameAndType 9 = .error (.outOfRange 9) by decide +kernel]
    rfl
  have hresolved : ∀ constant : Constant, resolved (.ok constant) = pure constant := fun _ => rfl
  have hknown : (Interner.ofPool classPool).firstIndex = ((∅ : Std.HashMap _ _).insertIfNew
      (Constant.utf8 (.ofText "A")).bytes 1).insertIfNew (Constant.named .classInfo 1).bytes 2 := rfl
  have hcount : (Interner.ofPool classPool).pool.count = 3 := by decide +kernel
  have htexts : (Constant.utf8 (.ofText "A")).bytes ≠ (Constant.utf8 (.ofText "B")).bytes := by decide +kernel
  have hkinds : ∀ (text : String) (index : Index),
      (Constant.named .classInfo index).bytes ≠ (Constant.utf8 (.ofText text)).bytes := by
    intro text index h
    cases h
  have hindices : (Constant.named .classInfo 1).bytes ≠ (Constant.named .classInfo 3).bytes := by decide +kernel
  have hadded : (Interner.ofPool classPool).added = 0 := rfl
  simp [outcome, following, afterCalls, Call.after, TransferM.constant, TransferM.text, TransferM.named,
    TransferM.member, TransferM.owner, TransferM.signature, remember, hresolved, hone, htwo, hthree, hname, hnine,
    runOn_bind, runOn_intern, -bind_pure_comp, into, Interner.run_intern, Interner.add,
    Except.mapError, hknown, hcount, htexts, hkinds, (hkinds _ _).symm, hindices, hadded, Pool.hasRoom_iff,
    Pool.count_push, Constant.width]

/-- A call that fails halfway leaves two entries in the target, which is closed nevertheless. -/
theorem closed_after_calls_dangling :
    danglingPool.Made ∧ classPool.Made ∧ classPool.Closed ∧
      outcome (TransferM.constant danglingPool 3) (into classPool, #[]) = .error (.index (.outOfRange 9)) ∧
      (afterCalls danglingPool [.constant 3] (into classPool, #[])).1.target.added = 2 ∧
      (afterCalls danglingPool [.constant 3] (into classPool, #[])).1.target.pool.Closed :=
  ⟨danglingPool_made, classPool_made, classPool_closed, runOn_danglingPool.1, runOn_danglingPool.2,
    (closed_after_calls danglingPool_made classPool_made classPool_closed [.constant 3] #[]).1⟩

end Transfer

end ClassGraft
