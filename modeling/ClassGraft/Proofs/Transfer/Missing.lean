import ClassGraft.Proofs.Transfer.CopiedMethod
import ClassGraft.Proofs.Transfer.Reached

/-!
# Transferred methods add what is missing

A method mentions indices in its header, in its attributes and in its code.  When a method has been transferred into a
pool, the entries that this has added are none of them twice, and all of them are reached from what the transferred
method mentions: nothing is added for attributes that are left out, and nothing is left behind by attempts
(`Transfer.method_adds_missing`).
-/

namespace ClassGraft

/-! ### What a method mentions -/

/-- The indices that an attribute kept as bytes mentions: that of its name, and those in its contents if there is a
layout for this name. -/
inductive Attribute.Mentions (pool : Pool) (layoutOf? : String → Option Layout) (entry : Attribute) : Index → Prop
  | name : entry.Mentions pool layoutOf? entry.nameIndex
  | slot {name : String} {layout : Layout} {index : Index} (hname : pool.text entry.nameIndex = .ok name)
      (hlayout : layoutOf? name = some layout)
      (hindex : index ∈ (layout.template entry.info).pieces.flatMap Piece.indices) :
      entry.Mentions pool layoutOf? index

/-- The indices that the contents of a code attribute mention: those in the operands of its instructions, its catch
types, and what its attributes mention. -/
inductive Code.Mentions (pool : Pool) (code : Code) : Index → Prop
  | operand {instruction : Instruction} {index : Index} (h : (instruction, index) ∈ Instruction.operands code.code) :
      code.Mentions pool index
  | catchType {handler : ExceptionHandler} (hmem : handler ∈ code.handlers) (hnonzero : handler.catchType ≠ 0) :
      code.Mentions pool handler.catchType
  | nested {entry : Attribute} {index : Index} (hmem : entry ∈ code.attributes)
      (h : entry.Mentions pool Layout.ofCodeAttribute? index) : code.Mentions pool index

/-- The indices that an attribute of a method mentions, as bytes or as code. -/
inductive Attribute.MentionsInMethod (pool : Pool) (entry : Attribute) : Index → Prop
  | raw {index : Index} (h : entry.Mentions pool Layout.ofMethodAttribute? index) : entry.MentionsInMethod pool index
  | code {code : Code} {index : Index} (hname : pool.text entry.nameIndex = .ok codeName)
      (hinfo : entry.info = code.bytes) (h : code.Mentions pool index) : entry.MentionsInMethod pool index

/-- The indices that a method mentions: its name, its descriptor, and what its attributes mention. -/
inductive Method.Mentions (pool : Pool) (method : Method) : Index → Prop
  | name : method.Mentions pool method.nameIndex
  | descriptor : method.Mentions pool method.descriptorIndex
  | entry {entry : Attribute} {index : Index} (hmem : entry ∈ method.attributes)
      (h : entry.MentionsInMethod pool index) : method.Mentions pool index

section

variable {pool larger : Pool}

/-- What an attribute mentions in a pool it mentions in the extensions of the pool. -/
theorem Attribute.mentions_subset {layoutOf? : String → Option Layout} (entry : Attribute)
    (hextends : larger.Extends pool) (hlarger : larger.WellFormed) (hpool : pool.WellFormed) :
    {root | entry.Mentions pool layoutOf? root} ⊆ {root | entry.Mentions larger layoutOf? root} := by
  rintro _ (_ | ⟨hname, hlayout, hindex⟩)
  · exact .name
  · exact .slot (hextends.text hlarger hpool hname) hlayout hindex

theorem Code.mentions_subset (code : Code) (hextends : larger.Extends pool) (hlarger : larger.WellFormed)
    (hpool : pool.WellFormed) : {root | code.Mentions pool root} ⊆ {root | code.Mentions larger root} := by
  rintro _ (hoperand | ⟨hmem, hnonzero⟩ | ⟨hmem, h⟩)
  · exact .operand hoperand
  · exact .catchType hmem hnonzero
  · exact .nested hmem (Attribute.mentions_subset _ hextends hlarger hpool h)

theorem Attribute.mentionsInMethod_subset (entry : Attribute) (hextends : larger.Extends pool)
    (hlarger : larger.WellFormed) (hpool : pool.WellFormed) :
    {root | entry.MentionsInMethod pool root} ⊆ {root | entry.MentionsInMethod larger root} := by
  rintro _ (h | ⟨hname, hinfo, h⟩)
  · exact .raw (Attribute.mentions_subset entry hextends hlarger hpool h)
  · exact .code (hextends.text hlarger hpool hname) hinfo (Code.mentions_subset _ hextends hlarger hpool h)

end

namespace TransferM

open Transfer

variable {source target : Pool} {limit : Nat} {before after : Transfer} {roots : Set Index}

/-! ### Attributes -/

theorem grows_handler (hvalid : before.Valid source) (hgrown : Grown target roots before) (handler : ExceptionHandler) :
    Ensures source 4 before (TransferM.handler source handler) fun handler' after =>
      Grown target (roots ∪ {root | root = handler'.catchType ∧ root ≠ 0}) after :=
  (grows_optional hvalid hgrown handler.catchType).bind fun _ _ _ hafter => .pure hafter

/-- Putting a name in front of contents adds the name. -/
theorem grows_finish (hvalid : before.Valid source) (hgrown : Grown target roots before) {name : String}
    (hstorable : (Constant.utf8 (.ofText name)).Storable) (info : Bytes) :
    Ensures source 4 before (finish name info) fun entry after =>
      (after.target.pool.text entry.nameIndex = .ok name ∧ entry.info = info) ∧
        Grown target (roots ∪ {entry.nameIndex}) after := by
  have hnamed : Ensures source 4 before (finish name info) fun entry after =>
      after.target.pool.text entry.nameIndex = .ok name ∧ entry.info = info :=
    (ensures_finish hvalid hstorable info).imp fun _ _ _ ⟨hname, hinfo⟩ => ⟨hname.text, hinfo⟩
  refine hnamed.and (hnamed.of_runs fun log entry after log' hrun => ?_)
  obtain ⟨index, between, middle, hintern, hrest⟩ := runOn_bind_eq_ok hrun
  cases hrest
  exact grown_of_intern hvalid (Constant.genuine_ofText name) (hgrown.mono Set.subset_union_left) hintern

/-- Transferred contents are put under their name, and mention what they have added. -/
theorem grows_rewritten (hvalid : before.Valid source) (hgrown : Grown target roots before) {name : String}
    (hstorable : (Constant.utf8 (.ofText name)).Storable) {layoutOf? : String → Option Layout} {layout : Layout}
    (hlayout : layoutOf? name = some layout) (info : Bytes) :
    Ensures source 4 before (do return some (← finish name (← contents source name layout info))) fun found after =>
      Grown target (roots ∪ {root | ∃ entry : Attribute, found = some entry ∧
        entry.Mentions after.target.pool layoutOf? root}) after := by
  refine (grows_contents hvalid hgrown name layout info).bind fun bytes middle hsteps hmiddle => ?_
  refine (grows_finish (Steps.valid hsteps hvalid) hmiddle hstorable bytes).bind fun entry after _ hafter => .pure ?_
  obtain ⟨⟨hname, rfl⟩, hafter⟩ := hafter
  refine hafter.mono ?_
  rintro root ((hroot | hroot) | rfl)
  · exact .inl hroot
  · exact .inr ⟨entry, rfl, .slot hname hlayout hroot⟩
  · exact .inr ⟨entry, rfl, .name⟩

/-- Contents that are kept as they are add their name only. -/
theorem grows_verbatim (hvalid : before.Valid source) (hgrown : Grown target roots before) {name : String}
    (hstorable : (Constant.utf8 (.ofText name)).Storable) (layoutOf? : String → Option Layout) (info : Bytes) :
    Ensures source 4 before (do return some (← finish name info)) fun found after =>
      Grown target (roots ∪ {root | ∃ entry : Attribute, found = some entry ∧
        entry.Mentions after.target.pool layoutOf? root}) after := by
  refine (grows_finish hvalid hgrown hstorable info).bind fun entry after _ ⟨_, hafter⟩ => .pure (hafter.mono ?_)
  refine Set.union_subset_union_right roots ?_
  rintro _ rfl
  exact ⟨entry, rfl, .name⟩

theorem grows_codeAttribute (hvalid : before.Valid source) (hgrown : Grown target roots before)
    (parsed : ParsedAttribute) :
    Ensures source 4 before (codeAttribute source parsed) fun found after =>
      Grown target (roots ∪ {root | ∃ entry : Attribute, found = some entry ∧
        entry.Mentions after.target.pool Layout.ofCodeAttribute? root}) after := by
  cases parsed with
  | code nameIndex declaredLength body attributes =>
    exact .lift_bind fun _ => .pure (hgrown.mono Set.subset_union_left)
  | raw nameIndex name info =>
    rw [codeAttribute]
    by_cases hlines : name = "LineNumberTable"
    · rw [if_pos hlines]
      exact grows_verbatim hvalid hgrown (storable_of_kept (by simp [hlines])) _ info
    · rw [if_neg hlines]
      cases hlayout : Layout.ofCodeAttribute? name with
      | none => exact .lift_bind fun _ => .pure (hgrown.mono Set.subset_union_left)
      | some layout =>
        exact grows_rewritten hvalid hgrown (storable_of_kept (.inr (.inr (hlayout ▸ rfl)))) hlayout info

/-- The contents of a code attribute mention what they have added. -/
theorem grows_code (hvalid : before.Valid source) (hgrown : Grown target roots before) (body : CodeBody)
    (attributes : List ParsedAttribute) :
    Ensures source 4 before (TransferM.code source body attributes) fun code after =>
      Grown target (roots ∪ {root | code.Mentions after.target.pool root}) after := by
  rw [TransferM.code]
  refine (grows_instructions hvalid hgrown body.code).bind fun instructions first hfirst hinstructions => ?_
  have hvalid := Steps.valid hfirst hvalid
  refine (grows_mapM (fun handler _ _ _ hvalid hgrown => grows_handler hvalid hgrown handler) hvalid
    hinstructions).bind fun handlers second hsecond hhandlers => ?_
  have hvalid := Steps.valid hsecond hvalid
  refine (grows_filterMapM Attribute.mentions_subset
    (fun parsed _ _ _ hvalid hgrown => grows_codeAttribute hvalid hgrown parsed) hvalid hhandlers).bind
    fun entries after _ hentries => .pure (hentries.mono ?_)
  rintro root (((hroot | ⟨instruction, hoperand⟩) | ⟨handler, hmem, rfl, hnonzero⟩) | ⟨entry, hmem, hmentions⟩)
  · exact .inl hroot
  · exact .inr (.operand hoperand)
  · exact .inr (.catchType hmem hnonzero)
  · exact .inr (.nested hmem hmentions)

theorem grows_methodAttribute (hvalid : before.Valid source) (hgrown : Grown target roots before)
    (parsed : ParsedAttribute) :
    Ensures source 4 before (methodAttribute source parsed) fun found after =>
      Grown target (roots ∪ {root | ∃ entry : Attribute, found = some entry ∧
        entry.MentionsInMethod after.target.pool root}) after := by
  have hraw : ∀ {found : Option Attribute} {after : Transfer}, Grown target (roots ∪ {root | ∃ entry : Attribute,
      found = some entry ∧ entry.Mentions after.target.pool Layout.ofMethodAttribute? root}) after →
      Grown target (roots ∪ {root | ∃ entry : Attribute,
        found = some entry ∧ entry.MentionsInMethod after.target.pool root}) after := by
    refine fun hafter => hafter.mono (Set.union_subset_union_right roots ?_)
    rintro root ⟨entry, hfound, hmentions⟩
    exact ⟨entry, hfound, .raw hmentions⟩
  cases parsed with
  | code nameIndex declaredLength body attributes =>
    refine (grows_code hvalid hgrown body attributes).bind fun code middle hsteps hmiddle => ?_
    have hvalid := Steps.valid hsteps hvalid
    have hstorable : (Constant.utf8 (.ofText codeName)).Storable := storable_of_kept (by simp [codeName])
    refine (grows_finish hvalid hmiddle hstorable code.bytes).bind fun entry after hsteps hafter => .pure ?_
    obtain ⟨⟨hname, hinfo⟩, hafter⟩ := hafter
    have hsubset := Code.mentions_subset code (Steps.pool_extends hsteps hvalid)
      (Steps.valid hsteps hvalid).sound.pool hvalid.sound.pool
    refine hafter.mono ?_
    rintro root ((hroot | hroot) | rfl)
    · exact .inl hroot
    · exact .inr ⟨entry, rfl, .code hname hinfo (hsubset hroot)⟩
    · exact .inr ⟨entry, rfl, .raw .name⟩
  | raw nameIndex name info =>
    rw [methodAttribute]
    by_cases hmark : (name = "Deprecated" || name = "Synthetic") = true
    · rw [if_pos hmark]
      have hstorable : (Constant.utf8 (.ofText name)).Storable := by
        rw [Bool.or_eq_true, decide_eq_true_eq, decide_eq_true_eq] at hmark
        rcases hmark with rfl | rfl <;> exact storable_of_kept (by simp)
      exact (grows_verbatim hvalid hgrown hstorable _ info).imp fun _ _ _ hafter => hraw hafter
    · rw [if_neg hmark]
      cases hlayout : Layout.ofMethodAttribute? name with
      | none => exact .lift_bind fun _ => .pure (hgrown.mono Set.subset_union_left)
      | some layout =>
        exact (grows_rewritten hvalid hgrown (storable_of_kept (.inr (.inl (hlayout ▸ rfl)))) hlayout info).imp
          fun _ _ _ hafter => hraw hafter

/-! ### Methods -/

/-- A transferred method mentions what it has added. -/
theorem grows_method (hvalid : before.Valid source) (hgrown : Grown target roots before) (parsed : ParsedMethod) :
    Ensures source 4 before (method source parsed) fun member after =>
      Grown target (roots ∪ {root | Method.Mentions after.target.pool member root}) after := by
  rw [method]
  refine (grows_text hvalid hgrown parsed.nameIndex).bind fun nameIndex first hfirst hname => ?_
  have hvalid := Steps.valid hfirst hvalid
  refine (grows_text hvalid hname parsed.descriptorIndex).bind fun descriptorIndex second hsecond hdescriptor => ?_
  have hvalid := Steps.valid hsecond hvalid
  refine (grows_filterMapM Attribute.mentionsInMethod_subset
    (fun one _ _ _ hvalid hgrown => grows_methodAttribute hvalid hgrown one) hvalid hdescriptor).bind
    fun entries after _ hentries => .get_bind (.lift_bind fun _ => .pure (hentries.mono ?_))
  rintro root (((hroot | rfl) | rfl) | ⟨entry, hmem, hmentions⟩)
  · exact .inl hroot
  · exact .inr .name
  · exact .inr .descriptor
  · exact .inr (.entry hmem hmentions)

/-! ### Attributes that are left out -/

/-- An attribute of a code attribute that is left out adds nothing. -/
theorem unchanged_of_codeAttribute_none {parsed : ParsedAttribute} {log log' : Log}
    (h : runOn (codeAttribute source parsed) before log = ((.ok none, after), log')) : after = before := by
  cases parsed with
  | code nameIndex declaredLength body attributes =>
    cases h
    rfl
  | raw nameIndex name info =>
    rw [codeAttribute] at h
    split at h
    · obtain ⟨_, _, _, -, h⟩ := runOn_bind_eq_ok h
      cases h
    · split at h
      · obtain ⟨_, _, _, -, h⟩ := runOn_bind_eq_ok h
        obtain ⟨_, _, _, -, h⟩ := runOn_bind_eq_ok h
        cases h
      · cases h
        rfl

/-- An attribute of a method that is left out adds nothing. -/
theorem unchanged_of_methodAttribute_none {parsed : ParsedAttribute} {log log' : Log}
    (h : runOn (methodAttribute source parsed) before log = ((.ok none, after), log')) : after = before := by
  cases parsed with
  | code nameIndex declaredLength body attributes =>
    obtain ⟨_, _, _, -, h⟩ := runOn_bind_eq_ok h
    obtain ⟨_, _, _, -, h⟩ := runOn_bind_eq_ok h
    cases h
  | raw nameIndex name info =>
    rw [methodAttribute] at h
    split at h
    · obtain ⟨_, _, _, -, h⟩ := runOn_bind_eq_ok h
      cases h
    · split at h
      · obtain ⟨_, _, _, -, h⟩ := runOn_bind_eq_ok h
        obtain ⟨_, _, _, -, h⟩ := runOn_bind_eq_ok h
        cases h
      · cases h
        rfl

end TransferM

namespace Transfer

open TransferM

variable {source target : Pool} {limit : Nat} {before after : Transfer}

/-! ### Nothing twice -/

theorem Step.addsMissing (hstep : Step source limit before after) (hvalid : before.Valid source)
    (h : before.target.AddsMissing target) : after.target.AddsMissing target := by
  cases hstep with
  | name _ hintern => exact hvalid.sound.addsMissing_intern h hintern
  | entry _ _ _ _ hintern => exact hvalid.sound.addsMissing_intern h hintern

theorem Steps.addsMissing (hsteps : Steps source limit before after) (hvalid : before.Valid source)
    (h : before.target.AddsMissing target) : after.target.AddsMissing target := by
  induction hsteps with
  | refl => exact h
  | tail hsteps hstep ih => exact hstep.addsMissing (Steps.valid hsteps hvalid) ih

/-- When a method has been transferred into a pool, the pool has grown by entries that have been counted, all of them
with different bytes and with bytes that were not in the pool, and every one of them is reached from an index that the
transferred method mentions.  Attributes that are left out add nothing. -/
theorem method_adds_missing (hsource : source.Made) (htarget : target.Made) (parsed : ParsedMethod) (log : Log)
    {copied : Method} (hcopied : outcome (TransferM.method source parsed) (into target, log) = .ok copied)
    {grown : Interner} (hgrown : grown = (following (TransferM.method source parsed) (into target, log)).1.target) :
    (∃ appended, grown.pool.entries = target.entries ++ appended ∧ grown.added = appended.length ∧
      (appended.map fun new => new.2.bytes).Nodup ∧
      (∀ new ∈ appended, ∀ old ∈ target.entries, old.2.bytes ≠ new.2.bytes) ∧
      ∀ new ∈ appended, ∃ root, copied.Mentions grown.pool root ∧ grown.pool.Reaches root new.1) ∧
    ∀ (one : ParsedAttribute) (state : State),
      (outcome (methodAttribute source one) state = .ok none →
        (following (methodAttribute source one) state).1 = state.1) ∧
      (outcome (codeAttribute source one) state = .ok none →
        (following (codeAttribute source one) state).1 = state.1) := by
  have hinto := valid_into hsource.wellFormed htarget.wellFormed
  have hensures := @grows_method source target (into target) ∅ hinto (.refl target) parsed
  obtain ⟨hsteps, hmentioned⟩ := @Ensures.following _ source 4 (into target, log) _ _ hensures
  have hmentioned := hmentioned copied hcopied
  have hvalid := Steps.valid hsteps hinto
  have hadds := Steps.addsMissing hsteps hinto (Interner.addsMissing_ofPool target)
  rw [Grown, ← hgrown, Set.empty_union] at hmentioned
  rw [← hgrown] at hadds
  have hpool : grown.pool.WellFormed := hgrown ▸ hvalid.sound.pool
  obtain ⟨appended, hentries, hcount, hnodup, hdifferent⟩ := hadds
  refine ⟨⟨appended, hentries, hcount, hnodup, hdifferent, fun new hmem => ?_⟩, fun one state => ⟨fun hnone => ?_,
    fun hnone => ?_⟩⟩
  · have hget : grown.pool.get new.1 = .ok new.2 :=
      hpool.mem_entries_iff.1 (hentries ▸ List.mem_append_right _ hmem)
    refine (hmentioned new.1 new.2 hget).resolve_left fun hold => ?_
    -- an entry of the target has no bytes in common with what has been added
    exact hdifferent new hmem new (htarget.wellFormed.mem_entries_iff.2 hold) rfl
  · exact unchanged_of_methodAttribute_none (runOn_of_outcome hnone)
  · exact unchanged_of_codeAttribute_none (runOn_of_outcome hnone)

/-- A method that is transferred without one of its attributes adds texts, each of which it mentions. -/
theorem method_adds_missing_returning :
    ∃ grown : Interner,
      grown = (following (TransferM.method methodPool returnMethod) (into wordPool, #[])).1.target ∧
      ∃ appended, grown.pool.entries = wordPool.entries ++ appended ∧ grown.added = appended.length ∧
        (appended.map fun new => new.2.bytes).Nodup ∧
        ∀ new ∈ appended, ∃ root, movedMethod.Mentions grown.pool root ∧ grown.pool.Reaches root new.1 := by
  refine ⟨_, rfl, ?_⟩
  obtain ⟨⟨appended, hentries, hcount, hnodup, -, hreached⟩, -⟩ :=
    method_adds_missing methodPool_made wordPool_made returnMethod #[] outcome_returnMethod rfl
  exact ⟨appended, hentries, hcount, hnodup, hreached⟩

end Transfer

end ClassGraft
