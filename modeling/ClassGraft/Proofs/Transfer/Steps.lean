import ClassGraft.Proofs.Pool.Interning
import ClassGraft.Proofs.Transfer.Alike
import ClassGraft.Transfer.Constant
import Mathlib.Logic.Relation

/-!
# Steps of a transfer

A transfer changes in two ways: a name that can be stored is interned, or an entry is carried over whose references
have been carried over before (`Transfer.Step`).  Whatever a transfer does, failing or not, is a sequence of such
steps, so what one step keeps holds throughout: the target keeps its entries, every carried index leads to an entry
alike to its own (`Transfer.Steps.valid`), and carried indices keep their places (`Transfer.Steps.place`).
-/

namespace ClassGraft.Transfer

/-- What holds at all times between a source pool and a transfer out of it. -/
structure Valid (source : Pool) (transfer : Transfer) : Prop where
  wellFormed : source.WellFormed
  sound : transfer.target.Sound
  alike : ∀ index place, transfer.transferred[index]? = some place →
    source.Alike transfer.target.pool index place

/-- An index of an entry of an expected kind that has been carried over to a place. -/
structure Carried (source : Pool) (expected : Expectation) (index place : Index) (transfer : Transfer) : Prop where
  kind : ∃ constant, source.get index = .ok constant ∧ expected.Admits constant.tag
  place : transfer.transferred[index]? = some place

/-- The place that an index has been carried over to. -/
def placeOf (transfer : Transfer) (index : Index) : Index := (transfer.transferred[index]?).getD 0

theorem Carried.placeOf_eq {source : Pool} {expected : Expectation} {index place : Index} {transfer : Transfer}
    (h : transfer.Carried source expected index place) : transfer.placeOf index = place := by
  rw [placeOf, h.place, Option.getD_some]

theorem Carried.at_placeOf {source : Pool} {expected : Expectation} {index place : Index} {transfer : Transfer}
    (h : transfer.Carried source expected index place) :
    transfer.Carried source expected index (transfer.placeOf index) := by
  rw [h.placeOf_eq]
  exact h

/-- One change of a transfer: a name that can be stored is interned, or an entry of a depth below the limit is carried
over whose references have been carried over. -/
inductive Step (source : Pool) (limit : Nat) : Transfer → Transfer → Prop
  | name {before : Transfer} {text : String} {index : Index} {target : Interner}
      (hstorable : (Constant.utf8 (.ofText text)).Storable)
      (hintern : (Interner.intern (.utf8 (.ofText text))).run.run before.target = (.ok index, target)) :
      Step source limit before { before with target := target }
  | entry {before : Transfer} {index new : Index} {constant : Constant} {place : Index → Index} {target : Interner}
      (hget : source.get index = .ok constant) (hdepth : constant.depth < limit)
      (hfresh : before.transferred[index]? = none)
      (hreferences : ∀ reference ∈ constant.references,
        before.Carried source reference.1 reference.2 (place reference.2))
      (hintern : (Interner.intern (constant.renamed place)).run.run before.target = (.ok new, target)) :
      Step source limit before ⟨target, before.transferred.insert index new⟩

/-- Any number of changes one after the other. -/
abbrev Steps (source : Pool) (limit : Nat) : Transfer → Transfer → Prop :=
  Relation.ReflTransGen (Step source limit)

variable {source : Pool} {limit : Nat} {before after : Transfer}

theorem Valid.mono {larger : Interner} (h : before.Valid source) (hsound : larger.Sound)
    (hextends : larger.pool.Extends before.target.pool) : Valid source ⟨larger, before.transferred⟩ where
  wellFormed := h.wellFormed
  sound := hsound
  alike index place hplace :=
    (h.alike index place hplace).mono fun _ _ => hextends.get hsound.pool h.sound.pool

theorem valid_into {target : Pool} (hsource : source.WellFormed) (htarget : target.WellFormed) :
    (into target).Valid source where
  wellFormed := hsource
  sound := Interner.sound_ofPool htarget
  alike index place hplace := by simp [into] at hplace

/-- Places are never zero. -/
theorem Valid.place_ne_zero (h : before.Valid source) {index place : Index}
    (hplace : before.transferred[index]? = some place) : place ≠ 0 := by
  obtain ⟨_, hget⟩ := (h.alike index place hplace).target_get
  exact h.sound.pool.index_ne_zero hget

/-! ### What one step keeps -/

/-- Interning a constant keeps what has been carried over. -/
private theorem Valid.intern (h : before.Valid source) {constant : Constant} (hgenuine : constant.Genuine)
    {index : Index} {target : Interner}
    (hintern : (Interner.intern constant).run.run before.target = (.ok index, target)) :
    Valid source ⟨target, before.transferred⟩ ∧ target.pool.Extends before.target.pool ∧
      target.pool.get index = .ok constant := by
  obtain ⟨hsound, hextends, hget⟩ := h.sound.intern hgenuine hintern
  exact ⟨h.mono hsound hextends, hextends, hget index rfl⟩

theorem Step.valid (hstep : Step source limit before after) (h : before.Valid source) : after.Valid source := by
  cases hstep with
  | name _ hintern => exact (h.intern (Constant.genuine_ofText _) hintern).1
  | @entry index new constant place target hget hdepth hfresh hreferences hintern =>
    obtain ⟨hvalid, hextends, hnew⟩ := h.intern ((h.wellFormed.genuine hget).renamed place) hintern
    refine ⟨h.wellFormed, hvalid.sound, fun i j hplace => ?_⟩
    rw [Std.HashMap.getElem?_insert] at hplace
    split at hplace
    · -- The new place leads to the entry with its references renamed to places that are alike already.
      rename_i hindex
      cases hplace
      rw [beq_iff_eq] at hindex
      subst hindex
      refine .of_renamed hget hnew fun reference hmem => ?_
      exact hvalid.alike _ _ (hreferences reference hmem).place
    · exact hvalid.alike i j hplace

theorem Step.pool_extends (hstep : Step source limit before after) (h : before.Valid source) :
    after.target.pool.Extends before.target.pool := by
  cases hstep with
  | name _ hintern => exact (h.intern (Constant.genuine_ofText _) hintern).2.1
  | entry hget _ _ _ hintern => exact (h.intern ((h.wellFormed.genuine hget).renamed _) hintern).2.1

/-- A step adds entries that can be stored. -/
theorem Step.storable (hstep : Step source limit before after) (hpool : source.WellFormed) (hsource : source.Storable)
    (h : before.target.pool.Storable) : after.target.pool.Storable := by
  cases hstep with
  | name hstorable hintern => exact Interner.storable_of_intern h hstorable hintern
  | @entry index new constant place target hget _ _ _ hintern =>
    exact Interner.storable_of_intern h ((hsource.get hpool hget).renamed place) hintern

theorem Step.place (hstep : Step source limit before after) {index place : Index}
    (h : before.transferred[index]? = some place) : after.transferred[index]? = some place := by
  cases hstep with
  | name _ _ => exact h
  | @entry new _ _ _ _ _ _ hfresh _ _ =>
    have hne : new ≠ index := by
      rintro rfl
      rw [hfresh] at h
      cases h
    rw [Std.HashMap.getElem?_insert, if_neg (by simpa using hne), h]

/-- A step does not carry over entries whose depth reaches the limit. -/
theorem Step.fresh (hstep : Step source limit before after) {index : Index} {constant : Constant}
    (hget : source.get index = .ok constant) (hdepth : limit ≤ constant.depth)
    (h : before.transferred[index]? = none) : after.transferred[index]? = none := by
  cases hstep with
  | name _ _ => exact h
  | @entry new _ found _ _ hfound hbelow _ _ _ =>
    have hne : new ≠ index := by
      rintro rfl
      rw [hget] at hfound
      cases hfound
      omega
    rw [Std.HashMap.getElem?_insert, if_neg (by simpa using hne), h]

theorem Step.weaken {larger : Nat} (hlimit : limit ≤ larger) (hstep : Step source limit before after) :
    Step source larger before after := by
  cases hstep with
  | name hstorable hintern => exact .name hstorable hintern
  | entry hget hdepth hfresh hreferences hintern =>
    exact .entry hget (Nat.lt_of_lt_of_le hdepth hlimit) hfresh hreferences hintern

/-! ### What a sequence of steps keeps -/

namespace Steps

theorem valid (hsteps : Steps source limit before after) (h : before.Valid source) : after.Valid source := by
  induction hsteps with
  | refl => exact h
  | tail _ hstep ih => exact hstep.valid ih

theorem pool_extends (hsteps : Steps source limit before after) (h : before.Valid source) :
    after.target.pool.Extends before.target.pool := by
  induction hsteps with
  | refl => exact .refl _
  | tail hsteps hstep ih => exact (hstep.pool_extends (Steps.valid hsteps h)).trans ih

theorem storable (hsteps : Steps source limit before after) (hpool : source.WellFormed) (hsource : source.Storable)
    (h : before.target.pool.Storable) : after.target.pool.Storable := by
  induction hsteps with
  | refl => exact h
  | tail _ hstep ih => exact hstep.storable hpool hsource ih

/-- The indices of the target lead where they led. -/
theorem get (hsteps : Steps source limit before after) (h : before.Valid source) {index : Index}
    {constant : Constant} (hget : before.target.pool.get index = .ok constant) :
    after.target.pool.get index = .ok constant :=
  (hsteps.pool_extends h).get (hsteps.valid h).sound.pool h.sound.pool hget

theorem place (hsteps : Steps source limit before after) {index place : Index}
    (h : before.transferred[index]? = some place) : after.transferred[index]? = some place := by
  induction hsteps with
  | refl => exact h
  | tail _ hstep ih => exact hstep.place ih

theorem fresh (hsteps : Steps source limit before after) {index : Index} {constant : Constant}
    (hget : source.get index = .ok constant) (hdepth : limit ≤ constant.depth)
    (h : before.transferred[index]? = none) : after.transferred[index]? = none := by
  induction hsteps with
  | refl => exact h
  | tail _ hstep ih => exact hstep.fresh hget hdepth ih

theorem weaken {larger : Nat} (hlimit : limit ≤ larger) (hsteps : Steps source limit before after) :
    Steps source larger before after := by
  induction hsteps with
  | refl => exact .refl
  | tail _ hstep ih => exact ih.tail (hstep.weaken hlimit)

end Steps

/-- A transfer out of a source that has been started with some target and has moved by steps since. -/
def Reachable (source : Pool) (transfer : Transfer) : Prop :=
  ∃ target : Pool, target.Made ∧ Steps source 4 (into target) transfer

theorem reachable_into {target : Pool} (htarget : target.Made) : (into target).Reachable source :=
  ⟨target, htarget, .refl⟩

theorem Reachable.valid {transfer : Transfer} (h : transfer.Reachable source) (hsource : source.Made) :
    transfer.Valid source := by
  obtain ⟨target, htarget, hsteps⟩ := h
  exact hsteps.valid (valid_into hsource.wellFormed htarget.wellFormed)

theorem Carried.mono {expected : Expectation} {index place : Index}
    (h : before.Carried source expected index place) (hsteps : Steps source limit before after) :
    after.Carried source expected index place :=
  ⟨h.kind, hsteps.place h.place⟩

end ClassGraft.Transfer
