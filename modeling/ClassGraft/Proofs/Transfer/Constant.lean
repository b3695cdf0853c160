import ClassGraft.Proofs.Transfer.Ensures

/-!
# Transfer of constants

Transferring a constant moves by steps and gives the place that its index has been carried over to
(`TransferM.ensures_constant`).  There is one lemma for each kind of constant; each builds the constant from its
references, which are of smaller depth.
-/

namespace ClassGraft.TransferM

open Transfer

variable {source : Pool} {limit : Nat} {before : Transfer}

theorem ensures_text (hlimit : 0 < limit) (index : Index) :
    Ensures source limit before (text source index) fun place after =>
      after.Carried source (.entry .utf8) index place := by
  rw [text]
  refine .resolved_bind fun constant hget => ?_
  cases constant with
  | utf8 stored =>
    refine (Ensures.remember hget hlimit (.pure ⟨rfl, ?_⟩)).imp fun place after _ hplace =>
      ⟨⟨_, hget, rfl⟩, hplace⟩
    intro reference hmem
    cases hmem
  | _ => exact .throw

theorem ensures_named (hlimit : 1 < limit) {index name : Index} {kind : NamedKind}
    (hget : source.get index = .ok (.named kind name)) :
    Ensures source limit before (named source index kind name) fun place after =>
      after.transferred[index]? = some place := by
  have hdepth : (Constant.named kind name).depth = 1 := kind.depth_tag
  refine .remember hget (by omega) ?_
  refine (ensures_text (by omega) name).bind fun place after _ hname => .pure ⟨?_, ?_⟩
  · rw [Constant.renamed, hname.placeOf_eq]
  · intro reference hmem
    rw [List.mem_singleton.1 hmem]
    exact hname.at_placeOf

theorem ensures_nameAndType (hlimit : 1 < limit) {index name descriptor : Index}
    (hget : source.get index = .ok (.nameAndType name descriptor)) :
    Ensures source limit before (nameAndType source index name descriptor) fun place after =>
      after.transferred[index]? = some place := by
  refine .remember hget hlimit ?_
  refine (ensures_text Nat.zero_lt_one name).bind fun place middle _ hname => ?_
  refine (ensures_text Nat.zero_lt_one descriptor).bind fun place' after hsteps hdescriptor => .pure ?_
  have hname := hname.mono hsteps
  refine ⟨by rw [Constant.renamed, hname.placeOf_eq, hdescriptor.placeOf_eq], ?_⟩
  intro reference hmem
  rcases List.mem_pair.1 hmem with rfl | rfl
  · exact hname.at_placeOf
  · exact hdescriptor.at_placeOf

theorem ensures_owner (hlimit : 1 < limit) (index : Index) :
    Ensures source limit before (owner source index) fun place after =>
      after.Carried source (.entry .classInfo) index place := by
  rw [owner]
  refine .discard_resolved_bind fun text hclass => .resolved_bind fun constant hget => ?_
  obtain ⟨name, hnamed, -⟩ := Pool.className_eq_ok_iff.1 hclass
  rw [hget] at hnamed
  cases hnamed
  exact (ensures_named hlimit hget).imp fun place after _ hplace => ⟨⟨_, hget, rfl⟩, hplace⟩

theorem ensures_signature (hlimit : 1 < limit) (index : Index) :
    Ensures source limit before (signature source index) fun place after =>
      after.Carried source (.entry .nameAndType) index place := by
  rw [signature]
  refine .discard_resolved_bind fun texts hpair => .resolved_bind fun constant hget => ?_
  obtain ⟨name, descriptor, hboth, -⟩ := Pool.nameAndType_eq_ok_iff.1 hpair
  rw [hget] at hboth
  cases hboth
  exact (ensures_nameAndType hlimit hget).imp fun place after _ hplace => ⟨⟨_, hget, rfl⟩, hplace⟩

theorem ensures_member (hlimit : 2 < limit) {index ownerIndex signatureIndex : Index} {kind : MemberKind}
    (hget : source.get index = .ok (.member kind ownerIndex signatureIndex)) :
    Ensures source limit before (member source index kind ownerIndex signatureIndex) fun place after =>
      after.transferred[index]? = some place := by
  have hdepth : (Constant.member kind ownerIndex signatureIndex).depth = 2 := kind.depth_tag
  refine .remember hget (by omega) ?_
  refine (ensures_owner (by omega) ownerIndex).bind fun place middle _ howner => ?_
  refine (ensures_signature (by omega) signatureIndex).bind fun place' after hsteps hsignature => .pure ?_
  have howner := howner.mono hsteps
  refine ⟨by rw [Constant.renamed, howner.placeOf_eq, hsignature.placeOf_eq], ?_⟩
  intro reference hmem
  rcases List.mem_pair.1 hmem with rfl | rfl
  · exact howner.at_placeOf
  · exact hsignature.at_placeOf

theorem ensures_handleTarget (hlimit : 2 < limit) (index : Index) :
    Ensures source limit before (handleTarget source index) fun place after =>
      after.Carried source .memberRef index place := by
  rw [handleTarget]
  refine .resolved_bind fun constant hget => ?_
  cases constant with
  | member kind ownerIndex signatureIndex =>
    exact (ensures_member hlimit hget).imp fun place after _ hplace => ⟨⟨_, hget, kind, rfl⟩, hplace⟩
  | _ => exact .throw

theorem ensures_dynamic (hlimit : 2 < limit) {index signatureIndex : Index} {kind : DynamicKind}
    {bootstrap : UInt16} (hget : source.get index = .ok (.dynamic kind bootstrap signatureIndex)) :
    Ensures source limit before (dynamic source index kind bootstrap signatureIndex) fun place after =>
      after.transferred[index]? = some place := by
  have hdepth : (Constant.dynamic kind bootstrap signatureIndex).depth = 2 := kind.depth_tag
  refine .remember hget (by omega) (.lift_bind fun _ => ?_)
  refine (ensures_signature (by omega) signatureIndex).bind fun place after _ hsignature => .pure ⟨?_, ?_⟩
  · rw [Constant.renamed, hsignature.placeOf_eq]
  · intro reference hmem
    rw [List.mem_singleton.1 hmem]
    exact hsignature.at_placeOf

/-- Transferring an entry gives the place that its index has been carried over to. -/
theorem ensures_constant (index : Index) :
    Ensures source 4 before (constant source index) fun place after => after.transferred[index]? = some place := by
  rw [constant]
  refine .resolved_bind fun found hget => ?_
  cases found with
  | named kind name => exact ensures_named (by decide) hget
  | member kind ownerIndex signatureIndex => exact ensures_member (by decide) hget
  | nameAndType name descriptor => exact ensures_nameAndType (by decide) hget
  | methodHandle kind target =>
    refine .remember hget (Constant.depth_lt _) ?_
    refine (ensures_handleTarget (Nat.lt_add_one 2) target).bind fun place after _ htarget => .pure ⟨?_, ?_⟩
    · rw [Constant.renamed, htarget.placeOf_eq]
    · intro reference hmem
      rw [List.mem_singleton.1 hmem]
      exact htarget.at_placeOf
  | dynamic kind bootstrap signatureIndex => exact ensures_dynamic (by decide) hget
  | _ => exact .remember hget (Constant.depth_lt _) (.pure ⟨rfl, fun reference hmem => by cases hmem⟩)

/-! ### Slots and templates -/

/-- The bytes of a slot whose index has been carried over. -/
inductive SlotCarried (transfer : Transfer) : Slot → Bytes → Prop
  | narrow {offset : Nat} {index : UInt8} {place : Index} (hplace : transfer.transferred[index.toUInt16]? = some place)
      (hsmall : place ≤ 255) : SlotCarried transfer (.narrow offset index) [place.toUInt8]
  | wide {index place : Index} (hplace : transfer.transferred[index]? = some place) :
      SlotCarried transfer (.wide index) (u16Bytes place)
  | absent : SlotCarried transfer (.optional 0) (u16Bytes 0)
  | optional {index place : Index} (hnonzero : index ≠ 0) (hplace : transfer.transferred[index]? = some place) :
      SlotCarried transfer (.optional index) (u16Bytes place)

/-- The bytes of a piece whose indices have been carried over. -/
inductive PieceCarried (transfer : Transfer) : Piece → Bytes → Prop
  | fixed (bytes : Bytes) : PieceCarried transfer (.fixed bytes) bytes
  | slot {place : Slot} {bytes : Bytes} (h : SlotCarried transfer place bytes) :
      PieceCarried transfer (.slot place) bytes

variable {after : Transfer}

theorem SlotCarried.mono {place : Slot} {bytes : Bytes} (h : SlotCarried before place bytes)
    (hsteps : Steps source limit before after) : SlotCarried after place bytes := by
  cases h with
  | narrow hplace hsmall => exact .narrow (Steps.place hsteps hplace) hsmall
  | wide hplace => exact .wide (Steps.place hsteps hplace)
  | absent => exact .absent
  | optional hnonzero hplace => exact .optional hnonzero (Steps.place hsteps hplace)

theorem PieceCarried.mono {piece : Piece} {bytes : Bytes} (h : PieceCarried before piece bytes)
    (hsteps : Steps source limit before after) : PieceCarried after piece bytes := by
  cases h with
  | fixed bytes => exact .fixed bytes
  | slot h => exact .slot (h.mono hsteps)

theorem SlotCarried.length_eq {place : Slot} {bytes : Bytes} (h : SlotCarried before place bytes) :
    bytes.length = place.bytes.length := by
  cases h <;> rfl

theorem PieceCarried.length_eq {piece : Piece} {bytes : Bytes} (h : PieceCarried before piece bytes) :
    bytes.length = piece.bytes.length := by
  cases h with
  | fixed bytes => rfl
  | slot h => exact h.length_eq

theorem ensures_optional (index : Index) :
    Ensures source 4 before (optional source index) fun place after =>
      index = 0 ∧ place = 0 ∨ index ≠ 0 ∧ after.transferred[index]? = some place := by
  rw [optional]
  by_cases hzero : index = 0
  · rw [if_pos hzero]
    exact .pure (.inl ⟨hzero, rfl⟩)
  · rw [if_neg hzero]
    exact (ensures_constant index).imp fun place after _ hplace => .inr ⟨hzero, hplace⟩

theorem ensures_slot (place : Slot) :
    Ensures source 4 before (slot source place) fun bytes after => SlotCarried after place bytes := by
  cases place with
  | narrow offset index =>
    refine (ensures_constant index.toUInt16).bind fun new after _ hnew => ?_
    by_cases hlarge : 255 < new
    · rw [if_pos hlarge]
      exact .throw
    · rw [if_neg hlarge]
      exact .pure (.narrow hnew (UInt16.not_lt.1 hlarge))
  | wide index => exact .map ((ensures_constant index).imp fun new after _ hnew => .wide hnew)
  | optional index =>
    refine .map ((ensures_optional index).imp fun new after _ hnew => ?_)
    rcases hnew with ⟨rfl, rfl⟩ | ⟨hnonzero, hplace⟩
    · exact .absent
    · exact .optional hnonzero hplace

theorem ensures_piece (piece : Piece) :
    Ensures source 4 before (TransferM.piece source piece) fun bytes after => PieceCarried after piece bytes := by
  cases piece with
  | fixed bytes => exact .pure (.fixed bytes)
  | slot place => exact (ensures_slot place).imp fun bytes after _ h => .slot h

/-- Transferring a template carries over its slots one by one. -/
theorem ensures_template {ε : Type} (wrap : ε → TransferError) (template : Template ε) :
    Ensures source 4 before (TransferM.template source wrap template) fun result after =>
      template.outcome = .ok result.2 ∧
        ∃ parts, template.pieces.Forall₂ (PieceCarried after) parts ∧ result.1 = parts.flatten := by
  rw [TransferM.template]
  refine (Ensures.mapM (fun _ _ _ _ _ hsteps h => h.mono hsteps) fun piece _ after _ => ensures_piece piece).bind
    fun parts after _ hparts => ?_
  cases houtcome : template.outcome with
  | error stop => exact .throw
  | ok leftOver => exact .pure ⟨rfl, parts, hparts, rfl⟩

/-- Carrying over its slots keeps the length of a template. -/
theorem length_of_pieces {pieces : List Piece} {parts : List Bytes}
    (h : pieces.Forall₂ (PieceCarried before) parts) :
    parts.flatten.length = (pieces.flatMap Piece.bytes).length := by
  induction h with
  | nil => rfl
  | cons hpiece _ ih => rw [List.flatten_cons, List.flatMap_cons, List.length_append, List.length_append, ih,
      hpiece.length_eq]

end ClassGraft.TransferM
