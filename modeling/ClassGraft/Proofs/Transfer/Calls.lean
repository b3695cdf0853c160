import ClassGraft.Proofs.Transfer.Method

/-!
# Sequences of transfers

A transfer serves any number of calls, each of which carries over an entry or a method and may fail.  Whatever the
calls, the entries of the target stay where they are, and once an entry has been carried over, it is alike to the one
at its place after every later call.
-/

namespace ClassGraft

/-- A transfer with the log of what it has done. -/
abbrev Transfer.State := Transfer × Log

namespace TransferM

variable {α : Type}

/-- The result of a computation. -/
def outcome (x : TransferM α) (state : Transfer.State) : Except TransferError α := (runOn x state.1 state.2).1.1

/-- The state that a computation leaves, whether it fails or not. -/
def following (x : TransferM α) (state : Transfer.State) : Transfer.State :=
  ((runOn x state.1 state.2).1.2, (runOn x state.1 state.2).2)

theorem Ensures.following {source : Pool} {limit : Nat} {state : Transfer.State} {x : TransferM α}
    {condition : α → Transfer → Prop} (h : Ensures source limit state.1 x condition) :
    Transfer.Steps source limit state.1 (TransferM.following x state).1 ∧
      ∀ a, outcome x state = .ok a → condition a (TransferM.following x state).1 :=
  h state.2 _ _ _ rfl

end TransferM

namespace Transfer

open TransferM

/-- A call on a transfer. -/
inductive Call where
  | constant (index : Index)
  | method (parsed : ParsedMethod)

/-- The state after a call. -/
def Call.after (source : Pool) (state : State) : Call → State
  | .constant index => following (TransferM.constant source index) state
  | .method parsed => following (TransferM.method source parsed) state

/-- The state after calls one after the other, each of which may have failed. -/
def afterCalls (source : Pool) (calls : List Call) (state : State) : State := calls.foldl (Call.after source) state

variable {source target : Pool}

theorem afterCalls_append (earlier later : List Call) (state : State) :
    afterCalls source (earlier ++ later) state = afterCalls source later (afterCalls source earlier state) :=
  List.foldl_append

theorem afterCalls_cons (call : Call) (calls : List Call) (state : State) :
    afterCalls source (call :: calls) state = afterCalls source calls (call.after source state) := rfl

theorem steps_after {state : State} (hvalid : state.1.Valid source) (call : Call) :
    Steps source 4 state.1 (call.after source state).1 := by
  cases call with
  | constant index => exact (Ensures.following (ensures_constant index)).1
  | method parsed => exact (Ensures.following (ensures_method hvalid parsed)).1

/-- Calls move by steps, whether they fail or not. -/
theorem steps_afterCalls (calls : List Call) {state : State} (hvalid : state.1.Valid source) :
    Steps source 4 state.1 (afterCalls source calls state).1 := by
  induction calls generalizing state with
  | nil => exact .refl
  | cons call calls ih =>
    have hfirst := steps_after hvalid call
    rw [afterCalls_cons]
    exact hfirst.trans (ih (Steps.valid hfirst hvalid))

/-- After any calls, the entries of the original target are where they were, and every entry that one of the calls
carried over is alike to the one at the place that the call gave. -/
theorem alike_after_calls (hsource : source.Made) (htarget : target.Made) (calls : List Call) (log : Log) :
    (∀ index constant, target.get index = .ok constant →
      (afterCalls source calls (.into target, log)).1.target.pool.get index = .ok constant) ∧
    ∀ earlier later index place, calls = earlier ++ .constant index :: later →
      outcome (TransferM.constant source index) (afterCalls source earlier (.into target, log)) = .ok place →
      source.Alike (afterCalls source calls (.into target, log)).1.target.pool index place := by
  have hinto := valid_into hsource.wellFormed htarget.wellFormed
  refine ⟨fun index constant hget => ?_, ?_⟩
  · exact Steps.get (steps_afterCalls calls hinto) hinto hget
  · rintro earlier later index place rfl hok
    have hearlier := Steps.valid (@steps_afterCalls source earlier (into target, log) hinto) hinto
    obtain ⟨hcall, hplace⟩ := Ensures.following (@ensures_constant source _ index)
    have hvalid := Steps.valid hcall hearlier
    -- The call gave the index its place, which later calls keep, and what has a place is alike to the entry there.
    have hlater := steps_afterCalls later hvalid
    rw [afterCalls_append, afterCalls_cons]
    exact (Steps.valid hlater hvalid).alike _ _ (Steps.place hlater (hplace place hok))

/-- A pool with a class and its name. -/
def classPool : Pool := (Pool.empty.push (.utf8 (.ofText "A"))).push (.named .classInfo 1)

/-- A pool whose entry takes up two indices. -/
def wordPool : Pool := Pool.empty.push (.long 7)

theorem classPool_made : classPool.Made := by
  have hwellFormed : classPool.WellFormed :=
    .push (.push .empty (Constant.genuine_ofText _) (by decide +kernel)) trivial (by decide +kernel)
  refine hwellFormed.made (Pool.storable_push_iff.2 ⟨Pool.storable_push_iff.2 ⟨?_, ?_⟩, trivial⟩)
  · intro entry hmem
    cases hmem
  · exact ⟨Constant.genuine_ofText _, by decide +kernel⟩

theorem wordPool_made : wordPool.Made := by
  have hwellFormed : wordPool.WellFormed := .push .empty trivial (by decide +kernel)
  refine hwellFormed.made (Pool.storable_push_iff.2 ⟨?_, trivial⟩)
  intro entry hmem
  cases hmem

/-- A class is carried over to index four after a call that fails. -/
private theorem outcome_classPool :
    outcome (TransferM.constant classPool 2) (afterCalls classPool [.constant 9] (into wordPool, #[])) = .ok 4 := by
  have hnine : classPool.get 9 = .error (.outOfRange 9) := by decide +kernel
  have htwo : classPool.get 2 = .ok (.named .classInfo 1) := by decide +kernel
  have hone : classPool.get 1 = .ok (.utf8 (.ofText "A")) := by decide +kernel
  have hknown : (Interner.ofPool wordPool).firstIndex =
      (∅ : Std.HashMap _ _).insertIfNew (Constant.long 7).bytes 1 := rfl
  have hcount : (Interner.ofPool wordPool).pool.count = 3 := by decide +kernel
  have hword : (Constant.long 7).bytes ≠ (Constant.utf8 (.ofText "A")).bytes := by decide +kernel
  have hword' : (Constant.long 7).bytes ≠ (Constant.named .classInfo 3).bytes := by decide +kernel
  have hname : (Constant.utf8 (.ofText "A")).bytes ≠ (Constant.named .classInfo 3).bytes := by decide +kernel
  simp [outcome, following, afterCalls, Call.after, TransferM.constant, TransferM.text, TransferM.named, remember,
    resolved, hnine, htwo, hone, runOn_bind, runOn_intern, -bind_pure_comp, into, Interner.run_intern, Interner.add,
    Except.mapError, hknown, hcount, hword, hword', hname, Pool.hasRoom_iff,
    Pool.count_push, Constant.width]

/-- A carried class stays alike to its source through the calls around it. -/
theorem alike_after_calls_classPool :
    classPool.Made ∧ wordPool.Made ∧
      outcome (TransferM.constant classPool 2) (afterCalls classPool [.constant 9] (into wordPool, #[])) = .ok 4 ∧
      classPool.Alike
        (afterCalls classPool [.constant 9, .constant 2, .constant 1] (into wordPool, #[])).1.target.pool 2 4 :=
  ⟨classPool_made, wordPool_made, outcome_classPool,
    (alike_after_calls classPool_made wordPool_made _ #[]).2 [.constant 9] [.constant 1] 2 4 rfl outcome_classPool⟩

end Transfer

end ClassGraft
