import ClassGraft.Proofs.Transfer.Calls

/-!
# Canonical places

Entries that are deeply equal get one place, and entries that are not get different ones, whatever else a transfer
does in between and however often a pool holds the same entry (`Transfer.place_eq_iff_alike`).  The places of a
transfer are canonical: each is the first in the target with the bytes that it has, and these bytes depend on the
entry and on the places of what it refers to only (`Transfer.Canonical`).
-/

namespace ClassGraft.Transfer

variable {source : Pool} {limit : Nat} {before after transfer : Transfer}

/-- An index has been carried over, and so has everything that its entry refers to; its place is the first in the target
with the bytes of the entry, in which the references are replaced by their places. -/
def CanonicalAt (source : Pool) (transfer : Transfer) (index place : Index) : Prop :=
  ∃ constant, source.get index = .ok constant ∧
    (∀ reference ∈ constant.references, ∃ other, transfer.transferred[reference.2]? = some other) ∧
    transfer.target.firstIndex[(constant.renamed transfer.placeOf).bytes]? = some place

/-- All places are canonical. -/
def Canonical (source : Pool) (transfer : Transfer) : Prop :=
  ∀ index place, transfer.transferred[index]? = some place → CanonicalAt source transfer index place

theorem placeOf_eq {index place : Index} (hplace : transfer.transferred[index]? = some place) :
    transfer.placeOf index = place := by
  rw [placeOf, hplace, Option.getD_some]

/-! ### What one step keeps -/

/-- A place stays canonical when the target is extended and places are kept. -/
theorem CanonicalAt.mono {index place : Index} (h : CanonicalAt source before index place)
    (hbefore : before.target.Sound) (hafter : after.target.Sound)
    (hextends : after.target.pool.Extends before.target.pool)
    (hkept : ∀ index place : Index,
      before.transferred[index]? = some place → after.transferred[index]? = some place) :
    CanonicalAt source after index place := by
  obtain ⟨constant, hget, hreferences, hfirst⟩ := h
  have hsame : constant.renamed after.placeOf = constant.renamed before.placeOf := by
    refine Constant.renamed_congr fun reference hmem => ?_
    obtain ⟨other, hother⟩ := hreferences reference hmem
    rw [placeOf_eq hother, placeOf_eq (hkept _ _ hother)]
  refine ⟨constant, hget, fun reference hmem => ?_, ?_⟩
  · obtain ⟨other, hother⟩ := hreferences reference hmem
    exact ⟨other, hkept _ _ hother⟩
  · rw [hsame]
    exact hbefore.firstIndex_of_extends hafter hextends hfirst

theorem Step.canonical (hstep : Step source limit before after) (hvalid : before.Valid source)
    (h : before.Canonical source) : after.Canonical source := by
  have hold : ∀ index place : Index, before.transferred[index]? = some place → CanonicalAt source after index place :=
    fun index place hplace => CanonicalAt.mono (h index place hplace) hvalid.sound (hstep.valid hvalid).sound
      (hstep.pool_extends hvalid) fun _ _ => hstep.place
  intro index place hplace
  cases hstep with
  | name _ _ => exact hold index place hplace
  | @entry added new constant place' target hget hdepth hfresh hreferences hintern =>
    by_cases hadded : added = index
    · subst hadded
      rw [Std.HashMap.getElem?_insert_self, Option.some.injEq] at hplace
      subst hplace
      have hplaces : ∀ reference ∈ constant.references,
          (before.transferred.insert added new)[reference.2]? = some (place' reference.2) := by
        intro reference hmem
        have hcarried := (hreferences reference hmem).place
        -- the entry itself had no place yet, so it is none of its references
        have hne : added ≠ reference.2 := by
          intro heq
          rw [← heq, hfresh] at hcarried
          cases hcarried
        rw [Std.HashMap.getElem?_insert, if_neg (by simpa using hne), hcarried]
      refine ⟨constant, hget, fun reference hmem => ⟨_, hplaces reference hmem⟩, ?_⟩
      have hsame : constant.renamed (placeOf ⟨target, before.transferred.insert added new⟩) = constant.renamed place' :=
        Constant.renamed_congr fun reference hmem => placeOf_eq (hplaces reference hmem)
      rw [hsame]
      exact Interner.firstIndex_of_intern hintern
    · rw [Std.HashMap.getElem?_insert, if_neg (by simpa using hadded)] at hplace
      exact hold index place hplace

/-! ### What a sequence of steps keeps -/

theorem canonical_into (target : Pool) : (into target).Canonical source := by
  intro index place hplace
  simp [into] at hplace

theorem Steps.canonical (hsteps : Steps source limit before after) (hvalid : before.Valid source)
    (h : before.Canonical source) : after.Canonical source := by
  induction hsteps with
  | refl => exact h
  | tail hsteps hstep ih => exact hstep.canonical (Steps.valid hsteps hvalid) ih

/-! ### Equal entries -/

namespace Canonical

variable {index index' place place' : Index} {constant constant' : Constant}

/-- What the entry of a carried index refers to has been carried over. -/
theorem carried (h : transfer.Canonical source) (hget : source.get index = .ok constant)
    (hplace : transfer.transferred[index]? = some place) {reference : Expectation × Index}
    (hmem : reference ∈ constant.references) : ∃ other, transfer.transferred[reference.2]? = some other := by
  obtain ⟨found, hfound, hreferences, -⟩ := h index place hplace
  rw [hget] at hfound
  cases hfound
  exact hreferences reference hmem

/-- Entries that become equal when their references are replaced by places have one place. -/
theorem place_eq_of_renamed (h : transfer.Canonical source) (hget : source.get index = .ok constant)
    (hget' : source.get index' = .ok constant') (hplace : transfer.transferred[index]? = some place)
    (hplace' : transfer.transferred[index']? = some place')
    (hsame : constant.renamed transfer.placeOf = constant'.renamed transfer.placeOf) : place = place' := by
  obtain ⟨found, hfound, -, hfirst⟩ := h index place hplace
  obtain ⟨found', hfound', -, hfirst'⟩ := h index' place' hplace'
  rw [hget] at hfound
  rw [hget'] at hfound'
  cases hfound
  cases hfound'
  rw [hsame, hfirst'] at hfirst
  cases hfirst
  rfl

/-- References of carried entries have one place when this holds of the indices that they lead to. -/
theorem placeOf_eq_of_references (h : transfer.Canonical source) (hget : source.get index = .ok constant)
    (hget' : source.get index' = .ok constant') (hplace : transfer.transferred[index]? = some place)
    (hplace' : transfer.transferred[index']? = some place') {reference reference' : Expectation × Index}
    (hmem : reference ∈ constant.references) (hmem' : reference' ∈ constant'.references)
    (hone : ∀ {other other' : Index}, transfer.transferred[reference.2]? = some other →
      transfer.transferred[reference'.2]? = some other' → other = other') :
    transfer.placeOf reference.2 = transfer.placeOf reference'.2 := by
  obtain ⟨other, hother⟩ := h.carried hget hplace hmem
  obtain ⟨other', hother'⟩ := h.carried hget' hplace' hmem'
  rw [placeOf_eq hother, placeOf_eq hother', hone hother hother']

/-- Entries that are deeply equal have one place. -/
theorem place_eq_of_alike (h : transfer.Canonical source) (halike : source.Alike source index index')
    (hplace : transfer.transferred[index]? = some place) (hplace' : transfer.transferred[index']? = some place') :
    place = place' := by
  -- The induction goes down the references, which have been carried over together with the entries.
  induction halike generalizing place place' with
  | literal _ hi hj => exact h.place_eq_of_renamed hi hj hplace hplace' rfl
  | named hi hj _ ih | methodHandle hi hj _ ih | dynamic hi hj _ ih =>
    have hone := h.placeOf_eq_of_references hi hj hplace hplace' List.mem_cons_self List.mem_cons_self ih
    refine h.place_eq_of_renamed hi hj hplace hplace' ?_
    rw [Constant.renamed, Constant.renamed, hone]
  | member hi hj _ _ ih ih' | nameAndType hi hj _ _ ih ih' =>
    have hone := h.placeOf_eq_of_references hi hj hplace hplace' List.mem_cons_self List.mem_cons_self ih
    have hone' := h.placeOf_eq_of_references hi hj hplace hplace' (List.mem_cons_of_mem _ List.mem_cons_self)
      (List.mem_cons_of_mem _ List.mem_cons_self) ih'
    refine h.place_eq_of_renamed hi hj hplace hplace' ?_
    rw [Constant.renamed, Constant.renamed, hone, hone']

end Canonical

/-! ### Sequences of calls -/

open TransferM

/-- An index has been given a place at some moment of a sequence of calls: a call for it was answered, or the transfer
had a place for it, which also holds of whatever has been carried over within a call, even if the call failed later. -/
inductive Given (source : Pool) (start : State) (calls : List Call) (index place : Index) : Prop
  | answered {earlier later : List Call} (hcalls : calls = earlier ++ .constant index :: later)
      (hok : outcome (TransferM.constant source index) (afterCalls source earlier start) = .ok place)
  | remembered {earlier later : List Call} (hcalls : calls = earlier ++ later)
      (hplace : (afterCalls source earlier start).1.transferred[index]? = some place)

/-- A place that has been given is kept until all calls have been made. -/
theorem Given.place {start : State} (hvalid : start.1.Valid source) {calls : List Call} {index place : Index}
    (h : Given source start calls index place) :
    (afterCalls source calls start).1.transferred[index]? = some place := by
  cases h with
  | @answered earlier later hcalls hok =>
    have hearlier := Steps.valid (steps_afterCalls earlier hvalid) hvalid
    obtain ⟨hcall, hplace⟩ := Ensures.following (@ensures_constant source _ index)
    have hlater := steps_afterCalls later (Steps.valid hcall hearlier)
    rw [hcalls, afterCalls_append, afterCalls_cons]
    exact Steps.place hlater (hplace place hok)
  | @remembered earlier later hcalls hplace =>
    have hearlier := Steps.valid (steps_afterCalls earlier hvalid) hvalid
    rw [hcalls, afterCalls_append]
    exact Steps.place (steps_afterCalls later hearlier) hplace

/-- Two indices of the source that have been given places, at any two moments of any calls, have been given one place
exactly when their entries are deeply equal. -/
theorem place_eq_iff_alike {target : Pool} (hsource : source.Made) (htarget : target.Made) {calls : List Call}
    {log : Log} {index index' place place' : Index} (h : Given source (.into target, log) calls index place)
    (h' : Given source (.into target, log) calls index' place') :
    place = place' ↔ source.Alike source index index' := by
  have hinto := valid_into hsource.wellFormed htarget.wellFormed
  have hsteps := @steps_afterCalls source calls (into target, log) hinto
  have hvalid := Steps.valid hsteps hinto
  constructor
  · rintro rfl
    exact (hvalid.alike _ _ (h.place hinto)).trans (hvalid.alike _ _ (h'.place hinto)).symm
  · intro halike
    exact (Steps.canonical hsteps hinto (canonical_into target)).place_eq_of_alike halike (h.place hinto)
      (h'.place hinto)

/-- A pool with a class, its name, and the same text once more. -/
def twinPool : Pool := classPool.push (.utf8 (.ofText "A"))

theorem twinPool_made : twinPool.Made := by
  have hwellFormed : twinPool.WellFormed :=
    .push classPool_made.wellFormed (Constant.genuine_ofText _) (by decide +kernel)
  refine hwellFormed.made (Pool.storable_push_iff.2 ⟨Pool.storable_push_iff.2 ⟨Pool.storable_push_iff.2 ⟨?_, ?_⟩,
    trivial⟩, ?_⟩)
  · intro entry hmem
    cases hmem
  · exact ⟨Constant.genuine_ofText _, by decide +kernel⟩
  · exact ⟨Constant.genuine_ofText _, by decide +kernel⟩

/-- The name is carried over to index three together with its class, and then the other text is, after a call that
fails. -/
private theorem given_twinPool :
    (afterCalls twinPool [.constant 2] (into wordPool, #[])).1.transferred[(1 : Index)]? = some 3 ∧
      outcome (TransferM.constant twinPool 3) (afterCalls twinPool [.constant 2, .constant 9] (into wordPool, #[])) =
        .ok 3 := by
  have hnine : twinPool.get 9 = .error (.outOfRange 9) := by decide +kernel
  have hthree : twinPool.get 3 = .ok (.utf8 (.ofText "A")) := by decide +kernel
  have htwo : twinPool.get 2 = .ok (.named .classInfo 1) := by decide +kernel
  have hone : twinPool.get 1 = .ok (.utf8 (.ofText "A")) := by decide +kernel
  have hknown : (Interner.ofPool wordPool).firstIndex =
      (∅ : Std.HashMap _ _).insertIfNew (Constant.long 7).bytes 1 := rfl
  have hcount : (Interner.ofPool wordPool).pool.count = 3 := by decide +kernel
  have hword : (Constant.long 7).bytes ≠ (Constant.utf8 (.ofText "A")).bytes := by decide +kernel
  have hword' : (Constant.long 7).bytes ≠ (Constant.named .classInfo 3).bytes := by decide +kernel
  have hname : (Constant.utf8 (.ofText "A")).bytes ≠ (Constant.named .classInfo 3).bytes := by decide +kernel
  constructor <;>
    simp [outcome, following, afterCalls, Call.after, TransferM.constant, TransferM.text, TransferM.named, remember,
      resolved, hnine, hthree, htwo, hone, runOn_bind, runOn_intern, -bind_pure_comp, into, Interner.run_intern,
      Interner.add, Except.mapError, hknown, hcount, hword, hword', hname, hname.symm, Pool.hasRoom_iff,
      Pool.count_push, Constant.width, Std.HashMap.getElem_insert]

/-- A text that a class has brought along and the same text from another index get one place. -/
theorem place_eq_iff_alike_twinPool :
    Given twinPool (into wordPool, #[]) [.constant 2, .constant 9, .constant 3] 1 3 ∧
      Given twinPool (into wordPool, #[]) [.constant 2, .constant 9, .constant 3] 3 3 ∧
      twinPool.Alike twinPool 1 3 := by
  have hname : Given twinPool (into wordPool, #[]) [.constant 2, .constant 9, .constant 3] 1 3 :=
    @Given.remembered _ _ _ _ _ [.constant 2] [.constant 9, .constant 3] rfl given_twinPool.1
  have htext : Given twinPool (into wordPool, #[]) [.constant 2, .constant 9, .constant 3] 3 3 :=
    @Given.answered _ _ _ _ _ [.constant 2, .constant 9] [] rfl given_twinPool.2
  exact ⟨hname, htext, (place_eq_iff_alike twinPool_made wordPool_made hname htext).1 rfl⟩

end ClassGraft.Transfer
