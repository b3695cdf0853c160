import ClassGraft.Proofs.Running
import ClassGraft.Proofs.Transfer.Steps

/-!
# Postconditions of transfers

`Ensures` says that a computation moves from a transfer by steps below a limit, whether it fails or not, and what the
results that it gives satisfy in the state that it leaves.  Computations are taken apart by one rule for each way of
putting them together.
-/

namespace ClassGraft.TransferM

open Transfer

/-- Whatever a computation does is a sequence of steps, and a result that it gives satisfies a condition in the state
that it leaves. -/
def Ensures {α : Type} (source : Pool) (limit : Nat) (before : Transfer) (x : TransferM α)
    (condition : α → Transfer → Prop) : Prop :=
  ∀ log outcome after log', runOn x before log = ((outcome, after), log') →
    Steps source limit before after ∧ ∀ a, outcome = .ok a → condition a after

theorem runOn_intern (constant : Constant) (transfer : Transfer) (log : Log) :
    runOn (intern constant) transfer log =
      ((((Interner.intern constant).run.run transfer.target).1.mapError .overflow,
        { transfer with target := ((Interner.intern constant).run.run transfer.target).2 }), log) := by
  rw [intern, runOn_bind, runOn_modifyGet]
  rcases hintern : (Interner.intern constant).run.run transfer.target with ⟨outcome, target⟩
  have happlied : (Interner.intern constant).run transfer.target = (outcome, target) := hintern
  rw [happlied]
  cases outcome <;> rfl

/-- A value that is looked up only to see whether it is there. -/
theorem discard_resolved {α β : Type} (found : Except IndexError α) (f : Unit → TransferM β) :
    discard (resolved found) >>= f = resolved found >>= fun _ => f () := by
  cases found <;> rfl

namespace Ensures

variable {α β : Type} {source : Pool} {limit : Nat} {before : Transfer} {x : TransferM α}

theorem pure {a : α} {condition : α → Transfer → Prop} (h : condition a before) :
    Ensures source limit before (Pure.pure a) condition := by
  intro log outcome after log' hrun
  cases hrun
  exact ⟨.refl, fun _ ha => by cases ha; exact h⟩

theorem throw {error : TransferError} {condition : α → Transfer → Prop} :
    Ensures source limit before (MonadExcept.throw error) condition := by
  intro log outcome after log' hrun
  cases hrun
  exact ⟨.refl, fun _ ha => by cases ha⟩

theorem bind {f : α → TransferM β} {middle : α → Transfer → Prop} {condition : β → Transfer → Prop}
    (hx : Ensures source limit before x middle)
    (hf : ∀ a after, Steps source limit before after → middle a after → Ensures source limit after (f a) condition) :
    Ensures source limit before (x >>= f) condition := by
  intro log outcome after log' hrun
  rcases hfirst : runOn x before log with ⟨⟨first, between⟩, log''⟩
  obtain ⟨hsteps, hmiddle⟩ := hx log first between log'' hfirst
  rw [runOn_bind, hfirst] at hrun
  cases first with
  | error error =>
    cases hrun
    exact ⟨hsteps, fun _ ha => by cases ha⟩
  | ok a =>
    obtain ⟨hrest, hcondition⟩ := hf a between hsteps (hmiddle a rfl) log'' outcome after log' hrun
    exact ⟨hsteps.trans hrest, hcondition⟩

theorem imp {condition weaker : α → Transfer → Prop} (h : Ensures source limit before x condition)
    (himp : ∀ a after, Steps source limit before after → condition a after → weaker a after) :
    Ensures source limit before x weaker := by
  intro log outcome after log' hrun
  obtain ⟨hsteps, hcondition⟩ := h log outcome after log' hrun
  exact ⟨hsteps, fun a ha => himp a after hsteps (hcondition a ha)⟩

/-- Results may be looked at one run at a time. -/
theorem of_runs {condition further : α → Transfer → Prop} (h : Ensures source limit before x condition)
    (hruns : ∀ log a after log', runOn x before log = ((.ok a, after), log') → further a after) :
    Ensures source limit before x further := by
  intro log outcome after log' hrun
  refine ⟨(h log outcome after log' hrun).1, ?_⟩
  rintro a rfl
  exact hruns log a after log' hrun

theorem and {condition further : α → Transfer → Prop} (h : Ensures source limit before x condition)
    (h' : Ensures source limit before x further) :
    Ensures source limit before x fun a after => condition a after ∧ further a after :=
  h.of_runs fun log a after log' hrun => ⟨(h log _ after log' hrun).2 a rfl, (h' log _ after log' hrun).2 a rfl⟩

theorem weaken {larger : Nat} {condition : α → Transfer → Prop} (hlimit : limit ≤ larger)
    (h : Ensures source limit before x condition) : Ensures source larger before x condition := by
  intro log outcome after log' hrun
  obtain ⟨hsteps, hcondition⟩ := h log outcome after log' hrun
  exact ⟨Steps.weaken hlimit hsteps, hcondition⟩

theorem get_bind {f : Transfer → TransferM β} {condition : β → Transfer → Prop}
    (h : Ensures source limit before (f before) condition) :
    Ensures source limit before (get >>= f) condition := by
  intro log outcome after log' hrun
  rw [runOn_bind] at hrun
  exact h _ _ _ _ hrun

/-- Notes change nothing. -/
theorem lift_bind {note : Logged α} {f : α → TransferM β} {condition : β → Transfer → Prop}
    (h : ∀ a, Ensures source limit before (f a) condition) :
    Ensures source limit before ((liftM note : TransferM α) >>= f) condition := by
  intro log outcome after log' hrun
  rw [runOn_bind] at hrun
  exact h _ _ _ _ _ hrun

/-- Looking something up in the source changes nothing. -/
theorem resolved_bind {found : Except IndexError α} {f : α → TransferM β} {condition : β → Transfer → Prop}
    (h : ∀ a, found = .ok a → Ensures source limit before (f a) condition) :
    Ensures source limit before (resolved found >>= f) condition := by
  cases found with
  | error error => exact throw
  | ok a => exact h a rfl

theorem discard_resolved_bind {found : Except IndexError α} {f : Unit → TransferM β}
    {condition : β → Transfer → Prop}
    (h : ∀ a, found = .ok a → Ensures source limit before (f ()) condition) :
    Ensures source limit before (discard (resolved found) >>= f) condition := by
  rw [discard_resolved]
  exact resolved_bind h

theorem map {f : α → β} {condition : β → Transfer → Prop}
    (h : Ensures source limit before x fun a => condition (f a)) :
    Ensures source limit before (f <$> x) condition := by
  rw [map_eq_pure_bind]
  exact h.bind fun a after _ ha => .pure ha

/-- A condition that steps keep holds of each result of a list of computations that ensure it. -/
theorem mapM {f : α → TransferM β} {as : List α} {condition : α → β → Transfer → Prop}
    (hkept : ∀ a b middle after, Steps source limit before middle → Steps source limit middle after →
      condition a b middle → condition a b after)
    (h : ∀ a ∈ as, ∀ after, Steps source limit before after → Ensures source limit after (f a) (condition a)) :
    Ensures source limit before (as.mapM f) fun bs after => as.Forall₂ (fun a b => condition a b after) bs := by
  induction as generalizing before with
  | nil => exact .pure .nil
  | cons a as ih =>
    rw [List.mapM_cons]
    refine (h a List.mem_cons_self before .refl).bind fun b middle hfirst hb => ?_
    refine (ih (fun c d m after hsteps => hkept c d m after (hfirst.trans hsteps))
      fun c hc after hsteps => h c (List.mem_cons_of_mem _ hc) after (hfirst.trans hsteps)).bind
      fun bs after hrest hbs => .pure ?_
    exact .cons (hkept a b middle after hfirst hrest hb) hbs

/-- The results of the elements that are kept satisfy a condition that steps keep. -/
theorem filterMapM {f : α → TransferM (Option β)} {as : List α} {keep : α → Bool}
    {condition : α → β → Transfer → Prop}
    (hkept : ∀ a b middle after, Steps source limit before middle → Steps source limit middle after →
      condition a b middle → condition a b after)
    (h : ∀ a ∈ as, ∀ after, Steps source limit before after → Ensures source limit after (f a) fun found after =>
      found.isSome = keep a ∧ ∀ b, found = some b → condition a b after) :
    Ensures source limit before (as.filterMapM f) fun bs after =>
      (as.filter keep).Forall₂ (fun a b => condition a b after) bs := by
  induction as generalizing before with
  | nil => exact .pure .nil
  | cons a as ih =>
    rw [List.filterMapM_cons]
    refine (h a List.mem_cons_self before .refl).bind fun found middle hfirst hfound => ?_
    have hrest := ih (fun c d m after hsteps => hkept c d m after (hfirst.trans hsteps))
      fun c hc after hsteps => h c (List.mem_cons_of_mem _ hc) after (hfirst.trans hsteps)
    cases found with
    | none =>
      rw [List.filter_cons_of_neg (by rw [← hfound.1]; simp)]
      exact hrest
    | some b =>
      rw [List.filter_cons_of_pos (by rw [← hfound.1]; rfl)]
      refine hrest.bind fun bs after hsteps hbs => .pure ?_
      exact .cons (hkept a b middle after hfirst hsteps (hfound.2 b rfl)) hbs

/-! ### Interning and remembering -/

/-- Interning fails without changing anything, or gives the index that the interner gives. -/
private theorem intern_cases (before : Transfer) (constant : Constant) (log : Log) :
    (∃ error, runOn (intern constant) before log = ((.error error, before), log)) ∨
      ∃ index target, (Interner.intern constant).run.run before.target = (.ok index, target) ∧
        runOn (intern constant) before log = ((.ok index, { before with target := target }), log) := by
  rw [runOn_intern]
  rcases hintern : (Interner.intern constant).run.run before.target with ⟨_ | index, target⟩
  · rw [Interner.unchanged_of_error hintern]
    exact .inl ⟨_, rfl⟩
  · exact .inr ⟨index, target, rfl, rfl⟩

/-- An interned name is found at the index that interning gives. -/
theorem intern_name (hvalid : before.Valid source) {text : String}
    (hstorable : (Constant.utf8 (.ofText text)).Storable) :
    Ensures source limit before (intern (.utf8 (.ofText text))) fun index after =>
      after.target.pool.get index = .ok (.utf8 (.ofText text)) := by
  intro log outcome after log' hrun
  rcases intern_cases before (.utf8 (.ofText text)) log with
    ⟨error, hfailed⟩ | ⟨index, target, hintern, hinterned⟩
  · rw [hfailed] at hrun
    cases hrun
    exact ⟨.refl, fun _ ha => by cases ha⟩
  · rw [hinterned] at hrun
    cases hrun
    refine ⟨.single (.name hstorable hintern), fun _ ha => ?_⟩
    cases ha
    exact (hvalid.sound.intern (Constant.genuine_ofText text) hintern).2.2 _ rfl

/-- Remembering an entry carries it over, when building it carries over its references first. -/
theorem remember {index : Index} {constant : Constant} {build : TransferM Constant}
    (hget : source.get index = .ok constant) (hdepth : constant.depth < limit)
    (hbuild : Ensures source constant.depth before build fun built after =>
      built = constant.renamed after.placeOf ∧ ∀ reference ∈ constant.references,
        after.Carried source reference.1 reference.2 (after.placeOf reference.2)) :
    Ensures source limit before (TransferM.remember index build) fun place after =>
      after.transferred[index]? = some place := by
  rw [TransferM.remember]
  refine get_bind ?_
  cases hknown : before.transferred[index]? with
  | some known => exact .pure hknown
  | none =>
    -- Building only carries over entries of smaller depth, so this index is still without a place.
    have hfresh := hbuild.imp fun _ _ hsteps hbuilt => And.intro (Steps.fresh hsteps hget (Nat.le_refl _) hknown) hbuilt
    refine (hfresh.weaken (Nat.le_of_lt hdepth)).bind fun built middle _ hbuilt => ?_
    obtain ⟨hfresh, rfl, hreferences⟩ := hbuilt
    intro log outcome after log' hrun
    rw [runOn_bind] at hrun
    rcases intern_cases middle (constant.renamed middle.placeOf) log with
      ⟨error, hfailed⟩ | ⟨new, target, hintern, hinterned⟩
    · rw [hfailed] at hrun
      cases hrun
      exact ⟨.refl, fun _ ha => by cases ha⟩
    · rw [hinterned] at hrun
      cases hrun
      refine ⟨.single (.entry hget hdepth hfresh hreferences hintern), fun _ ha => ?_⟩
      cases ha
      exact Std.HashMap.getElem?_insert_self

end Ensures

end ClassGraft.TransferM
