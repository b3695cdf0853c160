import ClassGraft.Proofs.Pool.Missing
import ClassGraft.Proofs.Transfer.Contents
import ClassGraft.Proofs.Transfer.Instructions
import ClassGraft.Proofs.Transfer.Nesting
import Mathlib.Data.Set.Insert

/-!
# What transfers of entries reach

Transferring an entry first adds what it refers to, before it is known whether all of it can be transferred, and then
the entry itself.  So when it succeeds, everything that it has added is reached from the place of the entry
(`TransferM.grows_constant`).  When a list of computations succeeds, everything that they have added is reached from
what their results mention.
-/

namespace ClassGraft.TransferM

open Transfer

variable {α β : Type} {source target : Pool} {limit : Nat} {before after : Transfer} {roots : Set Index}

/-- The place of an index is remembered, or its entry is built and interned. -/
theorem runOn_remember_eq_ok {index place : Index} {build : TransferM Constant} {log log' : Log}
    (h : runOn (remember index build) before log = ((.ok place, after), log')) :
    after = before ∨ ∃ built between middle added, runOn build before log = ((.ok built, between), middle) ∧
      runOn (intern built) between middle = ((.ok place, added), log') ∧ after.target = added.target := by
  rw [remember, runOn_bind, runOn_get] at h
  dsimp only at h
  split at h
  · cases h
    exact .inl rfl
  · obtain ⟨built, between, middle, hbuild, h⟩ := runOn_bind_eq_ok h
    obtain ⟨new, added, middle', hintern, h⟩ := runOn_bind_eq_ok h
    cases h
    exact .inr ⟨built, between, middle, added, hbuild, hintern, rfl⟩

/-! ### Entries -/

/-- Everything in the target was in a pool before or is reached from certain indices. -/
abbrev Grown (target : Pool) (roots : Set Index) (transfer : Transfer) : Prop :=
  transfer.target.pool.GrownFrom target roots

/-- When a constant is interned that refers to places from which all that has been added is reached, all of it is
reached from the index that it gets. -/
theorem grown_of_intern {constant : Constant} {place : Index} {log log' : Log} (hvalid : before.Valid source)
    (hgenuine : constant.Genuine) (hgrown : Grown target (roots ∪ constant.targets) before)
    (h : runOn (intern constant) before log = ((.ok place, after), log')) : Grown target (roots ∪ {place}) after := by
  rw [runOn_intern] at h
  rcases hintern : (Interner.intern constant).run.run before.target with ⟨_ | given, grown⟩
  · rw [hintern] at h
    cases h
  · rw [hintern] at h
    cases h
    exact hvalid.sound.grownFrom_intern hgenuine hintern hgrown

/-- When an entry is built from places from which all that has been added is reached, all of it is reached from the
place of the entry. -/
theorem grown_of_remember {index place : Index} {build : TransferM Constant} {log log' : Log}
    (hvalid : before.Valid source) (hgrown : Grown target roots before)
    (hbuild : Ensures source 4 before build fun built after =>
      built.Genuine ∧ Grown target (roots ∪ built.targets) after)
    (h : runOn (remember index build) before log = ((.ok place, after), log')) :
    Grown target (roots ∪ {place}) after := by
  rcases runOn_remember_eq_ok h with rfl | ⟨built, between, middle, added, hrun, hintern, htarget⟩
  · exact hgrown.mono Set.subset_union_left
  · obtain ⟨hsteps, hbuilt⟩ := hbuild _ _ _ _ hrun
    obtain ⟨hgenuine, htargets⟩ := hbuilt built rfl
    rw [Grown, htarget]
    exact grown_of_intern (Steps.valid hsteps hvalid) hgenuine htargets hintern

/-- Whatever was reached before, when an index is transferred, all that it adds is reached from its place. -/
def Grows (source target : Pool) (index : Index) : Prop :=
  ∀ before roots, before.Valid source → Grown target roots before →
    Ensures source 4 before (constant source index) fun place after => Grown target (roots ∪ {place}) after

theorem grows_handedOn {found : Except IndexError α} {index : Index}
    (h : ∀ a, found = .ok a → Grows source target index) (hvalid : before.Valid source)
    (hgrown : Grown target roots before) :
    Ensures source 4 before (handedOn (constant source) found index) fun place after =>
      Grown target (roots ∪ {place}) after := by
  rw [handedOn]
  exact .discard_resolved_bind fun a hok => h a hok before roots hvalid hgrown

theorem grows_handleTargetBy {index : Index} (h : source.Fulfils (.memberRef, index) → Grows source target index)
    (hvalid : before.Valid source) (hgrown : Grown target roots before) :
    Ensures source 4 before (handleTargetBy (constant source) source index) fun place after =>
      Grown target (roots ∪ {place}) after := by
  rw [handleTargetBy]
  refine .resolved_bind fun found hget => ?_
  cases found with
  | member kind ownerIndex signatureIndex => exact h ⟨_, hget, kind, rfl⟩ before roots hvalid hgrown
  | _ => exact .throw

/-- A constant that is built from the place of one reference. -/
theorem grows_one {x : TransferM Index} {build : Index → Constant}
    (hx : Ensures source 4 before x fun place after => Grown target (roots ∪ {place}) after)
    (hgenuine : ∀ place, (build place).Genuine) (hplace : ∀ place, place ∈ (build place).targets) :
    Ensures source 4 before (do return build (← x)) fun built after =>
      built.Genuine ∧ Grown target (roots ∪ built.targets) after := by
  refine hx.bind fun place after _ hgrown => .pure ⟨hgenuine place, hgrown.mono ?_⟩
  exact Set.union_subset_union_right roots (Set.singleton_subset_iff.2 (hplace place))

/-- A constant that is built from the places of two references. -/
theorem grows_two {x y : TransferM Index} {build : Index → Index → Constant}
    (hx : Ensures source 4 before x fun place after => Grown target (roots ∪ {place}) after)
    (hy : ∀ place after, Steps source 4 before after → Grown target (roots ∪ {place}) after →
      Ensures source 4 after y fun place' after => Grown target (roots ∪ {place} ∪ {place'}) after)
    (hgenuine : ∀ place place', (build place place').Genuine)
    (hplace : ∀ place place', place ∈ (build place place').targets)
    (hplace' : ∀ place place', place' ∈ (build place place').targets) :
    Ensures source 4 before (do let place ← x; let place' ← y; return build place place') fun built after =>
      built.Genuine ∧ Grown target (roots ∪ built.targets) after := by
  refine hx.bind fun place middle hsteps hmiddle => ?_
  refine (hy place middle hsteps hmiddle).bind fun place' after _ hgrown =>
    .pure ⟨hgenuine place place', hgrown.mono ?_⟩
  rw [Set.union_assoc]
  refine Set.union_subset_union_right roots (Set.union_subset ?_ ?_)
  · exact Set.singleton_subset_iff.2 (hplace place place')
  · exact Set.singleton_subset_iff.2 (hplace' place place')

/-- Rebuilding an entry adds what is reached from the places of its references. -/
theorem grows_rebuiltBy {index : Index} {found : Constant} (hgenuine : found.Genuine)
    (h : ∀ reference ∈ found.references, source.Fulfils reference → Grows source target reference.2)
    (hvalid : before.Valid source) (hgrown : Grown target roots before) :
    Ensures source 4 before (rebuiltBy (constant source) source index found) fun built after =>
      built.Genuine ∧ Grown target (roots ∪ built.targets) after := by
  have htext : ∀ name, (.entry .utf8, name) ∈ found.references → ∀ text, source.text name = .ok text →
      Grows source target name := fun name hmem _ hok => h (.entry .utf8, name) hmem (Pool.fulfils_of_text hok)
  have howner : ∀ owner, (.entry .classInfo, owner) ∈ found.references → ∀ name, source.className owner = .ok name →
      Grows source target owner :=
    fun owner hmem _ hok => h (.entry .classInfo, owner) hmem (Pool.fulfils_of_className hok)
  have hsignature : ∀ signature, (.entry .nameAndType, signature) ∈ found.references →
      ∀ texts, source.nameAndType signature = .ok texts → Grows source target signature :=
    fun signature hmem _ hok => h (.entry .nameAndType, signature) hmem (Pool.fulfils_of_nameAndType hok)
  cases found with
  | named kind name =>
    exact grows_one (grows_handedOn (htext name List.mem_cons_self) hvalid hgrown) (fun _ => trivial)
      fun _ => ⟨_, List.mem_cons_self⟩
  | member kind ownerIndex signatureIndex =>
    refine grows_two (grows_handedOn (howner ownerIndex List.mem_cons_self) hvalid hgrown)
      (fun place after hsteps hplace =>
        grows_handedOn (hsignature signatureIndex ?_) (Steps.valid hsteps hvalid) hplace)
      (fun _ _ => trivial) (fun _ _ => ⟨_, List.mem_cons_self⟩)
      fun _ _ => ⟨_, List.mem_cons_of_mem _ List.mem_cons_self⟩
    exact List.mem_cons_of_mem _ List.mem_cons_self
  | nameAndType name descriptor =>
    refine grows_two (grows_handedOn (htext name List.mem_cons_self) hvalid hgrown)
      (fun place after hsteps hplace => grows_handedOn (htext descriptor ?_) (Steps.valid hsteps hvalid) hplace)
      (fun _ _ => trivial) (fun _ _ => ⟨_, List.mem_cons_self⟩)
      fun _ _ => ⟨_, List.mem_cons_of_mem _ List.mem_cons_self⟩
    exact List.mem_cons_of_mem _ List.mem_cons_self
  | methodHandle kind member =>
    exact grows_one (grows_handleTargetBy (h (.memberRef, member) List.mem_cons_self) hvalid hgrown) (fun _ => trivial)
      fun _ => ⟨_, List.mem_cons_self⟩
  | dynamic kind bootstrap signature =>
    refine .lift_bind fun _ => ?_
    exact grows_one (grows_handedOn (hsignature signature List.mem_cons_self) hvalid hgrown) (fun _ => trivial)
      fun _ => ⟨_, List.mem_cons_self⟩
  | _ => exact .pure ⟨hgenuine, hgrown.mono Set.subset_union_left⟩

/-- When an entry is transferred, everything that this adds is reached from its place. -/
theorem grows_constant (index : Index) : Grows source target index := by
  -- The entries that the references of an entry lead to are of smaller depth.
  induction hdepth : ((source.get index).toOption.map Constant.depth).getD 0 using Nat.strong_induction_on
    generalizing index with
  | _ depth ih =>
    intro before roots hvalid hgrown
    refine (ensures_constant index).of_runs fun log place after log' hrun => ?_
    cases hget : source.get index with
    | error error =>
      rw [constant, hget] at hrun
      cases hrun
    | ok found =>
      rw [constant_eq hget] at hrun
      refine grown_of_remember hvalid hgrown ?_ hrun
      refine grows_rebuiltBy (hvalid.wellFormed.genuine hget) (fun reference hmem hfulfils => ?_) hvalid hgrown
      obtain ⟨next, hnext, hadmits⟩ := hfulfils
      refine ih _ ?_ reference.2 rfl
      rw [← hdepth, hget, hnext]
      exact Constant.depth_lt_of_admits hmem hadmits

theorem grows_text (hvalid : before.Valid source) (hgrown : Grown target roots before) (index : Index) :
    Ensures source 4 before (text source index) fun place after => Grown target (roots ∪ {place}) after := by
  rw [text_eq]
  exact grows_handedOn (fun _ _ => grows_constant index) hvalid hgrown

theorem grows_optional (hvalid : before.Valid source) (hgrown : Grown target roots before) (index : Index) :
    Ensures source 4 before (optional source index) fun place after =>
      Grown target (roots ∪ {root | root = place ∧ root ≠ 0}) after := by
  rw [optional]
  by_cases hzero : index = 0
  · rw [if_pos hzero]
    exact .pure (hgrown.mono Set.subset_union_left)
  · rw [if_neg hzero]
    refine ((grows_constant index before roots hvalid hgrown).and (ensures_constant index)).imp ?_
    rintro place after hsteps ⟨hafter, hplace⟩
    have hnonzero := (Steps.valid hsteps hvalid).place_ne_zero hplace
    exact hafter.mono (Set.union_subset_union_right roots (Set.singleton_subset_iff.2 ⟨rfl, hnonzero⟩))

/-! ### Lists -/

/-- What the results of a list of computations mention covers what the computations have added, when this holds of each
of them. -/
theorem grows_mapM {f : α → TransferM β} {as : List α} {mentioned : β → Set Index}
    (h : ∀ a ∈ as, ∀ {before : Transfer} {roots : Set Index}, before.Valid source → Grown target roots before →
      Ensures source 4 before (f a) fun b after => Grown target (roots ∪ mentioned b) after)
    (hvalid : before.Valid source) (hgrown : Grown target roots before) :
    Ensures source 4 before (as.mapM f) fun bs after =>
      Grown target (roots ∪ {root | ∃ b ∈ bs, root ∈ mentioned b}) after := by
  induction as generalizing before roots with
  | nil => exact .pure (hgrown.mono Set.subset_union_left)
  | cons a as ih =>
    rw [List.mapM_cons]
    refine (h a List.mem_cons_self hvalid hgrown).bind fun b middle hsteps hmiddle => ?_
    refine (ih (fun c hc => h c (List.mem_cons_of_mem _ hc)) (Steps.valid hsteps hvalid) hmiddle).bind
      fun bs after _ hafter => .pure (hafter.mono ?_)
    rintro root ((hroot | hroot) | ⟨c, hc, hroot⟩)
    · exact .inl hroot
    · exact .inr ⟨b, List.mem_cons_self, hroot⟩
    · exact .inr ⟨c, List.mem_cons_of_mem _ hc, hroot⟩

/-- The same of a list of computations of which some give nothing, when what results mention in a pool they mention in
its extensions. -/
theorem grows_filterMapM {f : α → TransferM (Option β)} {as : List α} {mentioned : Pool → β → Set Index}
    (hkept : ∀ {pool larger : Pool} (b : β), larger.Extends pool → larger.WellFormed → pool.WellFormed →
      mentioned pool b ⊆ mentioned larger b)
    (h : ∀ a ∈ as, ∀ {before : Transfer} {roots : Set Index}, before.Valid source → Grown target roots before →
      Ensures source 4 before (f a) fun found after =>
        Grown target (roots ∪ {root | ∃ b, found = some b ∧ root ∈ mentioned after.target.pool b}) after)
    (hvalid : before.Valid source) (hgrown : Grown target roots before) :
    Ensures source 4 before (as.filterMapM f) fun bs after =>
      Grown target (roots ∪ {root | ∃ b ∈ bs, root ∈ mentioned after.target.pool b}) after := by
  induction as generalizing before roots with
  | nil => exact .pure (hgrown.mono Set.subset_union_left)
  | cons a as ih =>
    rw [List.filterMapM_cons]
    refine (h a List.mem_cons_self hvalid hgrown).bind fun found middle hsteps hmiddle => ?_
    have hvalid := Steps.valid hsteps hvalid
    have hrest := ih (fun c hc => h c (List.mem_cons_of_mem _ hc)) hvalid hmiddle
    cases found with
    | none =>
      refine hrest.imp fun bs after _ hafter => hafter.mono ?_
      rintro root ((hroot | ⟨_, hnone, -⟩) | hroot)
      · exact .inl hroot
      · cases hnone
      · exact .inr hroot
    | some b =>
      refine hrest.bind fun bs after hsteps hafter => .pure (hafter.mono ?_)
      have hextends := hkept b (Steps.pool_extends hsteps hvalid) (Steps.valid hsteps hvalid).sound.pool
        hvalid.sound.pool
      rintro root ((hroot | ⟨_, ⟨⟩, hroot⟩) | ⟨c, hc, hroot⟩)
      · exact .inl hroot
      · exact .inr ⟨b, List.mem_cons_self, hextends hroot⟩
      · exact .inr ⟨c, List.mem_cons_of_mem _ hc, hroot⟩

/-! ### Contents and code arrays -/

/-- When indices are transferred one after the other, everything that this adds is reached from their places. -/
theorem grown_of_constants {indices places : List Index} {log log' : Log} (hvalid : before.Valid source)
    (hgrown : Grown target roots before)
    (h : runOn (constants source indices) before log = ((.ok places, after), log')) :
    Grown target (roots ∪ {root | root ∈ places}) after := by
  have hgrows : Ensures source 4 before (constants source indices) fun places after =>
      Grown target (roots ∪ {root | ∃ place ∈ places, root ∈ ({place} : Set Index)}) after :=
    grows_mapM (fun index _ {before roots} => grows_constant index before roots) hvalid hgrown
  refine ((hgrows log _ after log' h).2 places rfl).mono (Set.union_subset_union_right roots ?_)
  rintro _ ⟨place, hmem, rfl⟩
  exact hmem

/-- The new name of an index is found in the renamed pieces. -/
private theorem mem_indices_renamed {place : Index → Index} {pieces : List Piece} {index : Index}
    (hmem : index ∈ pieces.flatMap Piece.indices) (hnarrow : ∀ offset index, .slot (.narrow offset index) ∉ pieces)
    (hplace : place index ≠ 0) : place index ∈ (pieces.map (Piece.renamed place)).flatMap Piece.indices := by
  obtain ⟨piece, hpiece, hindex⟩ := List.mem_flatMap.1 hmem
  refine List.mem_flatMap.2 ⟨piece.renamed place, List.mem_map_of_mem hpiece, ?_⟩
  cases piece with
  | fixed content => cases hindex
  | slot hole =>
    cases hole with
    | narrow offset held => exact absurd hpiece (hnarrow offset held)
    | wide held =>
      rw [List.mem_singleton.1 hindex]
      exact List.mem_singleton_self _
    | optional held =>
      rw [Piece.indices, Slot.indices] at hindex
      split at hindex
      · cases hindex
      · rename_i hheld
        rw [List.mem_singleton.1 hindex] at hplace ⊢
        rw [Piece.renamed, Slot.renamed, if_neg hheld, Piece.indices, Slot.indices, if_neg hplace]
        exact List.mem_singleton_self _

/-- Transferred contents mention places from which all that has been added is reached. -/
theorem grows_contents (hvalid : before.Valid source) (hgrown : Grown target roots before) (name : String)
    (layout : Layout) (info : Bytes) :
    Ensures source 4 before (contents source name layout info) fun output after =>
      Grown target (roots ∪ {root | root ∈ (layout.template output).pieces.flatMap Piece.indices}) after := by
  refine (ensures_contents name layout info).of_runs fun log output after log' hrun => ?_
  have hafter := Steps.valid (ensures_contents name layout info log _ _ _ hrun).1 hvalid
  obtain ⟨pieces, rest, noted, hshape, -, hconstants, htransferred, rfl⟩ := pieces_of_contents hrun
  refine (grown_of_constants hvalid hgrown hconstants).mono (Set.union_subset_union_right roots fun root hmem => ?_)
  obtain ⟨index, hindex, rfl⟩ := List.mem_map.1 hmem
  rw [Set.mem_ofPred_eq, (rewritten_renamed hshape after.placeOf).again]
  exact mem_indices_renamed hindex hshape.no_narrow (hafter.place_ne_zero (htransferred index hindex))

/-- The operands of a code array that is transferred are transferred one after the other. -/
theorem constants_of_instructions {code output : Bytes} {log log' : Log}
    (h : runOn (instructions source code) before log = ((.ok output, after), log')) :
    runOn (constants source ((Instruction.operands code).map Prod.snd)) before log =
      ((.ok (((Instruction.operands code).map Prod.snd).map after.placeOf), after), log') := by
  obtain ⟨⟨bytes, leftOver⟩, htemplate, rfl⟩ := runOn_map_eq_ok h
  obtain ⟨parts, hparts, houtcome, rfl⟩ := runOn_template_eq_ok htemplate
  obtain ⟨tiles, htiles, -, rfl⟩ := Instruction.exists_tiles_of_walkOnto (Instruction.outcome_template_iff.1 houtcome).1
  rw [htiles.pieces_template] at hparts
  rw [← htiles.indices]
  exact (constants_of_pieces hparts).1

/-- The operands of a transferred code array are places from which all that has been added is reached. -/
theorem grows_instructions (hvalid : before.Valid source) (hgrown : Grown target roots before) (code : Bytes) :
    Ensures source 4 before (instructions source code) fun output after =>
      Grown target (roots ∪ {root | ∃ instruction, (instruction, root) ∈ Instruction.operands output}) after := by
  refine (ensures_instructions code).of_runs fun log output after log' hrun => ?_
  refine (grown_of_constants hvalid hgrown (constants_of_instructions hrun)).mono
    (Set.union_subset_union_right roots fun root hmem => ?_)
  obtain ⟨tiles, htiles, rfl, hplaces, rfl⟩ := tiles_of_instructions hrun
  obtain ⟨index, hindex, rfl⟩ := List.mem_map.1 hmem
  obtain ⟨operand, hoperand, rfl⟩ := List.mem_map.1 hindex
  obtain ⟨tile, htile, -, hold⟩ := htiles.mem_operands_iff.1 hoperand
  refine ⟨tile.1, (htiles.renamed after.placeOf).mem_operands_iff.2 ⟨_, List.mem_map_of_mem htile, rfl, ?_⟩⟩
  rw [(htiles.tile tile htile).operand?_renamed fun hopcode old hold => (hplaces tile htile old hold).2 hopcode, hold,
    Option.map_some]

end ClassGraft.TransferM
