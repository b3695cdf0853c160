import ClassGraft.Log

/-!
# Running computations

A computation that fails, keeps a state and notes records is run on a state and a log.  `runOn` gives its outcome with
the state and the log that it leaves, and there is one equation for each way of putting such computations together; so
there is for computations without a state.  A computation is steady when what it gives does not depend on what has been
noted before.  Computations put together from steady ones are steady, and a sequence of them succeeds only
when its parts do (`exists_run_of_bind`).
-/

namespace ClassGraft

variable {ε σ α β : Type}

/-- The outcome of a computation, with the state and the log that it leaves. -/
def runOn (x : ExceptT ε (StateT σ Logged) α) (state : σ) (log : Log) : (Except ε α × σ) × Log :=
  (x.run.run state).run log

theorem runOn_bind (x : ExceptT ε (StateT σ Logged) α) (f : α → ExceptT ε (StateT σ Logged) β) (state : σ) (log : Log) :
    runOn (x >>= f) state log =
      match runOn x state log with
      | ((.ok a, state), log) => runOn (f a) state log
      | ((.error error, state), log) => ((.error error, state), log) := by
  change (ExceptT.bindCont f (runOn x state log).1.1).run (runOn x state log).1.2 (runOn x state log).2 = _
  rcases runOn x state log with ⟨⟨_ | _, _⟩, _⟩ <;> rfl

theorem runOn_bind_eq_ok {x : ExceptT ε (StateT σ Logged) α} {f : α → ExceptT ε (StateT σ Logged) β} {before after : σ}
    {log log' : Log} {b : β} (h : runOn (x >>= f) before log = ((.ok b, after), log')) :
    ∃ a between middle, runOn x before log = ((.ok a, between), middle) ∧
      runOn (f a) between middle = ((.ok b, after), log') := by
  rw [runOn_bind] at h
  rcases hx : runOn x before log with ⟨⟨_ | a, between⟩, middle⟩
  · rw [hx] at h
    cases h
  · rw [hx] at h
    exact ⟨a, between, middle, rfl, h⟩

theorem runOn_map_eq_ok {x : ExceptT ε (StateT σ Logged) α} {f : α → β} {before after : σ} {log log' : Log} {b : β}
    (h : runOn (f <$> x) before log = ((.ok b, after), log')) :
    ∃ a, runOn x before log = ((.ok a, after), log') ∧ f a = b := by
  rw [map_eq_pure_bind] at h
  obtain ⟨a, between, middle, hx, hrest⟩ := runOn_bind_eq_ok h
  cases hrest
  exact ⟨a, hx, rfl⟩

section

variable (state : σ) (log : Log)

@[simp]
theorem runOn_pure (a : α) :
    runOn (pure a : ExceptT ε (StateT σ Logged) α) state log = ((.ok a, state), log) := rfl

@[simp]
theorem runOn_throw (error : ε) :
    runOn (throw error : ExceptT ε (StateT σ Logged) α) state log = ((.error error, state), log) := rfl

@[simp]
theorem runOn_get : runOn (get : ExceptT ε (StateT σ Logged) σ) state log = ((.ok state, state), log) := rfl

@[simp]
theorem runOn_lift (x : Logged α) :
    runOn (liftM x : ExceptT ε (StateT σ Logged) α) state log = ((.ok (x.run log).1, state), (x.run log).2) := rfl

@[simp]
theorem runOn_modifyGet (f : σ → α × σ) :
    runOn (modifyGet f : ExceptT ε (StateT σ Logged) α) state log = ((.ok (f state).1, (f state).2), log) := rfl

@[simp]
theorem runOn_modify (f : σ → σ) :
    runOn (modify f : ExceptT ε (StateT σ Logged) PUnit) state log = ((.ok (), f state), log) := rfl

end

/-! ### Without a state -/

section

variable {x : LoggedExcept ε α} {f : α → LoggedExcept ε β} {a : α} {b : β} {log log' : Log}

theorem run_bind (x : LoggedExcept ε α) (f : α → LoggedExcept ε β) (log : Log) :
    (x >>= f).run.run log =
      match x.run.run log with
      | (.ok a, log) => (f a).run.run log
      | (.error error, log) => (.error error, log) := by
  change (ExceptT.bindCont f (x.run.run log).1).run (x.run.run log).2 = _
  rcases x.run.run log with ⟨_ | _, _⟩ <;> rfl

theorem run_bind_eq_ok (h : (x >>= f).run.run log = (.ok b, log')) :
    ∃ a middle, x.run.run log = (.ok a, middle) ∧ (f a).run.run middle = (.ok b, log') := by
  rw [run_bind] at h
  rcases hx : x.run.run log with ⟨_ | a, middle⟩
  · rw [hx] at h
    cases h
  · rw [hx] at h
    exact ⟨a, middle, rfl, h⟩

theorem run_lift_eq_ok {x : Logged α} (h : (liftM x : LoggedExcept ε α).run.run log = (.ok a, log')) :
    x.run log = (a, log') := by
  rcases hx : x.run log with ⟨b, middle⟩
  have hlift : (liftM x : LoggedExcept ε α).run.run log = (.ok (x.run log).1, (x.run log).2) := rfl
  rw [hlift, hx] at h
  cases h
  rfl

theorem run_lift_bind (x : Logged α) (f : α → LoggedExcept ε β) (log : Log) :
    ((liftM x : LoggedExcept ε α) >>= f).run.run log = (f (x.run log).1).run.run (x.run log).2 :=
  run_bind _ _ _

theorem run_note (severity : Severity) (message : String) (log : Log) :
    (note severity message).run log = ((), log.push ⟨severity, message⟩) := rfl

end

/-! ### What computations give -/

/-- What a computation gives does not depend on what has been noted before. -/
def Steady (x : Logged α) : Prop := ∀ log log', (x.run log).1 = (x.run log').1

/-- A computation gives a value, whatever has been noted before. -/
def Gives (x : Logged α) (a : α) : Prop := ∀ log, (x.run log).1 = a

/-- A computation succeeds with a value, whatever has been noted before. -/
def Returns (x : LoggedExcept ε α) (a : α) : Prop := Gives x.run (.ok a)

/-- What a computation gives and the state that it leaves do not depend on what has been noted before. -/
def SteadyOn (x : ExceptT ε (StateT σ Logged) α) : Prop :=
  ∀ state log log', (runOn x state log).1 = (runOn x state log').1

namespace Steady

theorem gives {x : Logged α} (h : Steady x) {a : α} {log : Log} (hrun : (x.run log).1 = a) : Gives x a :=
  fun log' => (h log' log).trans hrun

theorem pure (a : α) : Steady (Pure.pure a : Logged α) := fun _ _ => rfl

theorem bind {x : Logged α} {f : α → Logged β} (hx : Steady x) (hf : ∀ a, Steady (f a)) : Steady (x >>= f) := by
  intro log log'
  change ((f (x.run log).1).run (x.run log).2).1 = ((f (x.run log').1).run (x.run log').2).1
  rw [hx log log']
  exact hf _ _ _

theorem throw (error : ε) : Steady (MonadExcept.throw error : LoggedExcept ε α).run := fun _ _ => rfl

theorem lift {x : Logged α} (h : Steady x) : Steady (liftM x : LoggedExcept ε α).run :=
  fun log log' => congrArg Except.ok (h log log')

theorem note (severity : Severity) (message : String) : Steady (ClassGraft.note severity message) := fun _ _ => rfl

theorem noteAll (severity : Severity) (messages : List String) : Steady (ClassGraft.noteAll severity messages) := by
  induction messages with
  | nil => exact .pure _
  | cons message messages ih => exact .bind (.note _ _) fun _ => ih

theorem bind_except {x : LoggedExcept ε α} {f : α → LoggedExcept ε β} (hx : Steady x.run)
    (hf : ∀ a, Steady (f a).run) : Steady (x >>= f).run := by
  change Steady (x.run >>= ExceptT.bindCont f)
  refine hx.bind fun outcome => ?_
  cases outcome with
  | ok a => exact hf a
  | error error => exact .throw error

theorem forM {f : α → LoggedExcept ε PUnit} (h : ∀ a, Steady (f a).run) (as : List α) : Steady (as.forM f).run := by
  induction as with
  | nil => exact .pure _
  | cons a as ih => exact .bind_except (h a) fun _ => ih

end Steady

theorem Gives.pure (a : α) : Gives (Pure.pure a : Logged α) a := fun _ => rfl

theorem Gives.bind {x : Logged α} {f : α → Logged β} {a : α} {b : β} (hx : Gives x a) (hf : Gives (f a) b) :
    Gives (x >>= f) b := by
  intro log
  change ((f (x.run log).1).run (x.run log).2).1 = b
  rw [hx log]
  exact hf _

theorem Returns.unique {x : LoggedExcept ε α} {a b : α} (ha : Returns x a) (hb : Returns x b) : a = b := by
  have hboth := (ha #[]).symm.trans (hb #[])
  cases hboth
  rfl

theorem Returns.exists_run {x : LoggedExcept ε α} {a : α} (h : Returns x a) (log : Log) :
    ∃ log', x.run.run log = (.ok a, log') :=
  ⟨_, Prod.ext (h log) rfl⟩

theorem Returns.pure (a : α) : Returns (Pure.pure a : LoggedExcept ε α) a := fun _ => rfl

theorem Returns.bind {x : LoggedExcept ε α} {f : α → LoggedExcept ε β} {a : α} {b : β} (hx : Returns x a)
    (hf : Returns (f a) b) : Returns (x >>= f) b := by
  intro log
  obtain ⟨middle, hrun⟩ := hx.exists_run log
  rw [run_bind, hrun]
  exact hf middle

theorem Returns.lift_bind {x : Logged α} {f : α → LoggedExcept ε β} {a : α} {b : β} (hx : Gives x a)
    (hf : Returns (f a) b) : Returns ((liftM x : LoggedExcept ε α) >>= f) b := by
  intro log
  rw [run_lift_bind, hx log]
  exact hf _

theorem Returns.forM {f : α → LoggedExcept ε PUnit} {xs : List α} (h : ∀ x ∈ xs, Returns (f x) ()) :
    Returns (xs.forM f) () := by
  induction xs with
  | nil => exact .pure ()
  | cons x xs ih => exact (h x List.mem_cons_self).bind (ih fun y hy => h y (List.mem_cons_of_mem x hy))

/-- Outcomes cannot be compared, but the results in them can. -/
theorem eq_ok_of_toOption {x : Except ε α} {a : α} (h : x.toOption = some a) : x = .ok a := by
  cases x with
  | error error => cases h
  | ok found =>
    cases h
    rfl

/-- What a run on an empty log gives is what is returned. -/
theorem Steady.returns {x : LoggedExcept ε α} (hx : Steady x.run) {a : α}
    (h : (x.run.run #[]).1.toOption = some a) : Returns x a :=
  hx.gives (eq_ok_of_toOption h)

/-- What is returned has what can be seen of it in a run on an empty log. -/
theorem Steady.exists_returns {x : LoggedExcept ε α} (hx : Steady x.run) (view : α → β) {b : β}
    (h : (x.run.run #[]).1.toOption.map view = some b) : ∃ a, Returns x a ∧ view a = b := by
  obtain ⟨a, ha, hview⟩ := Option.map_eq_some_iff.1 h
  exact ⟨a, hx.returns ha, hview⟩

/-- A sequence of computations succeeds only when its parts do. -/
theorem exists_run_of_bind {x : LoggedExcept ε α} {f : α → LoggedExcept ε β} {b : β} {log : Log}
    (h : ((x >>= f).run.run log).1 = .ok b) :
    ∃ a middle, (x.run.run log).1 = .ok a ∧ ((f a).run.run middle).1 = .ok b := by
  have hrun : (x >>= f).run.run log = (.ok b, ((x >>= f).run.run log).2) := Prod.ext h rfl
  obtain ⟨a, middle, hfirst, hrest⟩ := run_bind_eq_ok hrun
  exact ⟨a, middle, congrArg Prod.fst hfirst, congrArg Prod.fst hrest⟩

/-- Steady computations one after the other return something only when both do. -/
theorem Returns.of_bind {x : LoggedExcept ε α} {f : α → LoggedExcept ε β} {b : β} (hx : Steady x.run)
    (hf : ∀ a, Steady (f a).run) (h : Returns (x >>= f) b) : ∃ a, Returns x a ∧ Returns (f a) b := by
  obtain ⟨a, middle, hfirst, hrest⟩ := exists_run_of_bind (h #[])
  exact ⟨a, hx.gives hfirst, (hf a).gives hrest⟩

theorem Returns.forM_iff {f : α → LoggedExcept ε PUnit} (hf : ∀ a, Steady (f a).run) {as : List α} :
    Returns (as.forM f) () ↔ ∀ a ∈ as, Returns (f a) () := by
  refine ⟨fun h => ?_, Returns.forM⟩
  induction as with
  | nil =>
    intro a ha
    cases ha
  | cons a as ih =>
    obtain ⟨_, hfirst, hrest⟩ := Returns.of_bind (hf a) (fun _ => .forM hf as) h
    intro b hb
    rcases List.mem_cons.1 hb with rfl | hlater
    · exact hfirst
    · exact ih hrest b hlater

/-- A computation with a state that is seen to succeed leaves some state and log. -/
theorem exists_runOn_of_toOption {x : ExceptT ε (StateT σ Logged) α} {state : σ} {log : Log} {a : α}
    (h : (runOn x state log).1.1.toOption = some a) : ∃ after log', runOn x state log = ((.ok a, after), log') :=
  ⟨_, _, Prod.ext (Prod.ext (eq_ok_of_toOption h) rfl) rfl⟩

/-! ### What computations note -/

/-- A computation gives a value and notes these records, whatever has been noted before. -/
def Tells (x : Logged α) (a : α) (notes : List Record) : Prop := ∀ log, x.run log = (a, log ++ notes.toArray)

namespace Tells

theorem pure (a : α) : Tells (Pure.pure a : Logged α) a [] := by
  intro log
  change (a, log) = _
  rw [Array.append_empty]

theorem note (severity : Severity) (message : String) :
    Tells (ClassGraft.note severity message) () [⟨severity, message⟩] := by
  intro log
  rw [run_note, Array.push_eq_append]

/-- A computation that goes on like another one, after a note. -/
theorem of_note {x y : Logged α} {a : α} {record : Record} {notes : List Record} (hy : Tells y a notes)
    (hxy : ∀ log : Log, x.run log = y.run (log.push record)) : Tells x a (record :: notes) := by
  intro log
  rw [hxy, hy, Array.push_eq_append, Array.append_assoc]
  simp

theorem bind_except {x : LoggedExcept ε α} {f : α → LoggedExcept ε β} {a : α} {b : β} {notes later : List Record}
    (hx : Tells x.run (.ok a) notes) (hf : Tells (f a).run (.ok b) later) :
    Tells (x >>= f).run (.ok b) (notes ++ later) := by
  intro log
  rw [run_bind, hx log]
  dsimp only
  rw [hf, Array.append_assoc]
  simp

theorem lift {x : Logged α} {a : α} {notes : List Record} (h : Tells x a notes) :
    Tells (liftM x : LoggedExcept ε α).run (.ok a) notes := by
  intro log
  change (Except.ok (x.run log).1, (x.run log).2) = _
  rw [h log]

end Tells

/-! ### With a state -/

/-- A computation leaves, whatever comes of it, a state of some kind, and what it gives satisfies a condition there. -/
def Leaves (x : ExceptT ε (StateT σ Logged) α) (before : σ) (kind : σ → Prop) (condition : α → σ → Prop) : Prop :=
  ∀ log outcome after log', runOn x before log = ((outcome, after), log') →
    kind after ∧ ∀ a, outcome = .ok a → condition a after

namespace Leaves

variable {before : σ} {kind : σ → Prop} {x : ExceptT ε (StateT σ Logged) α} {condition : α → σ → Prop}

theorem pure {a : α} (hkind : kind before) (h : condition a before) :
    Leaves (Pure.pure a : ExceptT ε _ α) before kind condition := by
  intro log outcome after log' hrun
  cases hrun
  exact ⟨hkind, fun _ ha => by cases ha; exact h⟩

theorem throw {error : ε} (hkind : kind before) :
    Leaves (MonadExcept.throw error : ExceptT ε _ α) before kind condition := by
  intro log outcome after log' hrun
  cases hrun
  exact ⟨hkind, fun _ ha => by cases ha⟩

theorem bind {f : α → ExceptT ε (StateT σ Logged) β} {result : β → σ → Prop} (hx : Leaves x before kind condition)
    (hf : ∀ a after, kind after → condition a after → Leaves (f a) after kind result) :
    Leaves (x >>= f) before kind result := by
  intro log outcome after log' hrun
  rcases hfirst : runOn x before log with ⟨⟨first, between⟩, middle⟩
  obtain ⟨hkind, hcondition⟩ := hx log first between middle hfirst
  rw [runOn_bind, hfirst] at hrun
  cases first with
  | error error =>
    cases hrun
    exact ⟨hkind, fun _ ha => by cases ha⟩
  | ok a => exact hf a between hkind (hcondition a rfl) middle outcome after log' hrun

theorem imp {weaker : α → σ → Prop} (h : Leaves x before kind condition)
    (himp : ∀ a after, kind after → condition a after → weaker a after) : Leaves x before kind weaker := by
  intro log outcome after log' hrun
  obtain ⟨hkind, hcondition⟩ := h log outcome after log' hrun
  exact ⟨hkind, fun a ha => himp a after hkind (hcondition a ha)⟩

theorem of_kind {stricter : σ → Prop} (h : Leaves x before stricter condition)
    (hkind : ∀ after, stricter after → kind after) : Leaves x before kind condition := by
  intro log outcome after log' hrun
  obtain ⟨hstricter, hcondition⟩ := h log outcome after log' hrun
  exact ⟨hkind after hstricter, hcondition⟩

/-- The first of two computations may leave a state of a stricter kind than both together. -/
theorem bind_of_kind {stricter : σ → Prop} {f : α → ExceptT ε (StateT σ Logged) β} {result : β → σ → Prop}
    (hx : Leaves x before stricter condition) (hkind : ∀ after, stricter after → kind after)
    (hf : ∀ a after, stricter after → condition a after → Leaves (f a) after kind result) :
    Leaves (x >>= f) before kind result := by
  have hboth : Leaves x before kind fun a after => stricter after ∧ condition a after := by
    intro log outcome after log' hrun
    obtain ⟨hstricter, hcondition⟩ := hx log outcome after log' hrun
    exact ⟨hkind after hstricter, fun a ha => ⟨hstricter, hcondition a ha⟩⟩
  exact hboth.bind fun a after _ h => hf a after h.1 h.2

theorem get_bind {f : σ → ExceptT ε (StateT σ Logged) β} {result : β → σ → Prop}
    (h : Leaves (f before) before kind result) : Leaves (get >>= f) before kind result := by
  intro log outcome after log' hrun
  rw [runOn_bind] at hrun
  exact h _ _ _ _ hrun

theorem modify_bind {g : σ → σ} {f : Unit → ExceptT ε (StateT σ Logged) β} {result : β → σ → Prop}
    (h : Leaves (f ()) (g before) kind result) : Leaves (modify g >>= f) before kind result := by
  intro log outcome after log' hrun
  rw [runOn_bind] at hrun
  exact h _ _ _ _ hrun

theorem lift_bind {note : Logged α} {f : α → ExceptT ε (StateT σ Logged) β} {result : β → σ → Prop}
    (h : ∀ a, Leaves (f a) before kind result) :
    Leaves ((liftM note : ExceptT ε (StateT σ Logged) α) >>= f) before kind result := by
  intro log outcome after log' hrun
  rw [runOn_bind] at hrun
  exact h _ _ _ _ _ hrun

end Leaves

namespace SteadyOn

theorem pure (a : α) : SteadyOn (Pure.pure a : ExceptT ε (StateT σ Logged) α) := fun _ _ _ => rfl

theorem throw (error : ε) : SteadyOn (MonadExcept.throw error : ExceptT ε (StateT σ Logged) α) := fun _ _ _ => rfl

theorem get : SteadyOn (MonadState.get : ExceptT ε (StateT σ Logged) σ) := fun _ _ _ => rfl

theorem modify (f : σ → σ) : SteadyOn (modify f : ExceptT ε (StateT σ Logged) PUnit) := fun _ _ _ => rfl

theorem note (severity : Severity) (message : String) :
    SteadyOn (ClassGraft.note severity message : ExceptT ε (StateT σ Logged) Unit) := fun _ _ _ => rfl

theorem bind {x : ExceptT ε (StateT σ Logged) α} {f : α → ExceptT ε (StateT σ Logged) β} (hx : SteadyOn x)
    (hf : ∀ a, SteadyOn (f a)) : SteadyOn (x >>= f) := by
  intro state log log'
  have hfirst := hx state log log'
  rw [runOn_bind, runOn_bind]
  rcases hx : runOn x state log with ⟨⟨outcome, after⟩, middle⟩
  rcases hx' : runOn x state log' with ⟨⟨outcome', after'⟩, middle'⟩
  rw [hx, hx'] at hfirst
  cases hfirst
  cases outcome with
  | ok a => exact hf a after middle middle'
  | error error => rfl

end SteadyOn

end ClassGraft
