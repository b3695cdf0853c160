import ClassGraft.Proofs.Running

/-!
# Two runs compared

Two computations agree when they give the same result or the same error, whatever has been noted before either of them;
there may be errors of the first one that excuse the second.  Sequences agree when their parts do, and so do those that
begin with different steps of which it is known what they return.
-/

namespace ClassGraft

variable {ε α β γ : Type}

/-- Two computations give the same, whatever has been noted before, unless the first fails with an excused error. -/
def AgreeUnless (excused : ε → Prop) (x y : LoggedExcept ε α) : Prop :=
  ∀ log log', (∃ error, (x.run.run log).1 = .error error ∧ excused error) ∨ (x.run.run log).1 = (y.run.run log').1

/-- Two computations give the same, whatever has been noted before. -/
abbrev Agree (x y : LoggedExcept ε α) : Prop := AgreeUnless (fun _ => False) x y

namespace AgreeUnless

variable {excused : ε → Prop}

theorem of_steady {x : LoggedExcept ε α} (h : Steady x.run) : AgreeUnless excused x x :=
  fun log log' => .inr (h log log')

theorem throw {error : ε} (h : excused error) (y : LoggedExcept ε α) :
    AgreeUnless excused (MonadExcept.throw error) y :=
  fun _ _ => .inl ⟨error, rfl, h⟩

theorem bind {x y : LoggedExcept ε α} {f g : α → LoggedExcept ε β} (hx : AgreeUnless excused x y)
    (hf : ∀ a, AgreeUnless excused (f a) (g a)) : AgreeUnless excused (x >>= f) (y >>= g) := by
  intro log log'
  rw [run_bind, run_bind]
  have hfirst := hx log log'
  rcases hrun : x.run.run log with ⟨outcome, middle⟩
  rcases hrun' : y.run.run log' with ⟨outcome', middle'⟩
  rw [hrun, hrun'] at hfirst
  rcases hfirst with ⟨error, rfl, hexcused⟩ | rfl
  · exact .inl ⟨error, rfl, hexcused⟩
  · cases outcome with
    | error error => exact .inr rfl
    | ok a => exact hf a middle middle'

/-- After a common step, it is known what this step returns. -/
theorem bind_steady {x : LoggedExcept ε α} {f g : α → LoggedExcept ε β} (hx : Steady x.run)
    (hf : ∀ a, Returns x a → AgreeUnless excused (f a) (g a)) : AgreeUnless excused (x >>= f) (x >>= g) := by
  intro log log'
  have hsame := hx log' log
  rw [run_bind, run_bind]
  rcases hrun : x.run.run log with ⟨outcome, middle⟩
  rcases hrun' : x.run.run log' with ⟨outcome', middle'⟩
  rw [hrun, hrun'] at hsame
  cases hsame
  cases outcome with
  | error error => exact .inr rfl
  | ok a => exact hf a (hx.gives (congrArg Prod.fst hrun)) middle middle'

theorem bind_returns {x : LoggedExcept ε α} {y : LoggedExcept ε β} {f : α → LoggedExcept ε γ}
    {g : β → LoggedExcept ε γ} {a : α} {b : β} (hx : Returns x a) (hy : Returns y b)
    (h : AgreeUnless excused (f a) (g b)) : AgreeUnless excused (x >>= f) (y >>= g) := by
  intro log log'
  obtain ⟨middle, hrun⟩ := hx.exists_run log
  obtain ⟨middle', hrun'⟩ := hy.exists_run log'
  rw [run_bind, run_bind, hrun, hrun']
  exact h middle middle'

/-- A step of the first alone, of which it is known what it returns. -/
theorem bind_left {x : LoggedExcept ε α} {f : α → LoggedExcept ε β} {y : LoggedExcept ε β} {a : α} (hx : Returns x a)
    (h : AgreeUnless excused (f a) y) : AgreeUnless excused (x >>= f) y := by
  intro log log'
  obtain ⟨middle, hrun⟩ := hx.exists_run log
  rw [run_bind, hrun]
  exact h middle log'

theorem lift_bind {x : Logged α} {y : Logged β} {f : α → LoggedExcept ε γ} {g : β → LoggedExcept ε γ} {a : α} {b : β}
    (hx : Gives x a) (hy : Gives y b) (h : AgreeUnless excused (f a) (g b)) :
    AgreeUnless excused ((liftM x : LoggedExcept ε α) >>= f) ((liftM y : LoggedExcept ε β) >>= g) := by
  intro log log'
  rw [run_lift_bind, run_lift_bind, hx log, hy log']
  exact h _ _

theorem lift_bind_left {x : Logged α} {f : α → LoggedExcept ε β} {y : LoggedExcept ε β}
    (h : ∀ log, AgreeUnless excused (f (x.run log).1) y) :
    AgreeUnless excused ((liftM x : LoggedExcept ε α) >>= f) y := by
  intro log log'
  rw [run_lift_bind]
  exact h log _ _

/-- Where every error is excused, the second gives what the first has given. -/
theorem returns {x y : LoggedExcept ε α} (h : AgreeUnless excused x y) {log : Log} {a : α}
    (hrun : (x.run.run log).1 = .ok a) : Returns y a := by
  intro log'
  rcases h log log' with ⟨error, herror, -⟩ | hsame
  · rw [hrun] at herror
    cases herror
  · exact hsame.symm.trans hrun

/-- Where no error is excused, the two give the same. -/
theorem run_eq {x y : LoggedExcept ε α} (h : Agree x y) (log log' : Log) : (x.run.run log).1 = (y.run.run log').1 := by
  rcases h log log' with ⟨error, -, hexcused⟩ | hsame
  · exact hexcused.elim
  · exact hsame

end AgreeUnless

end ClassGraft
