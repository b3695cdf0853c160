import ClassGraft.Proofs.Template
import ClassGraft.Proofs.Transfer.Calls

/-!
# Transferred slots

Transferring pieces is transferring the indices in their slots one after the other.  When it succeeds, the indices have
been given places, and the bytes are those of the pieces with their indices renamed to these places
(`TransferM.constants_of_pieces`).  When all the indices can be given places, only a place that does not fit into its
slot can make it fail (`TransferM.pieces_of_constants`).
-/

namespace ClassGraft.TransferM

open Transfer

variable {source : Pool} {before after : Transfer} {log log' : Log}

/-- Transfers indices one after the other. -/
def constants (source : Pool) (indices : List Index) : TransferM (List Index) := indices.mapM (constant source)

theorem constants_append (earlier later : List Index) :
    constants source (earlier ++ later) =
      do return (← constants source earlier) ++ (← constants source later) :=
  List.mapM_append

theorem runOn_constants_single (index : Index) :
    runOn (constants source [index]) before log =
      match runOn (constant source index) before log with
      | ((.ok place, after), log') => ((.ok [place], after), log')
      | ((.error error, after), log') => ((.error error, after), log') := by
  rw [constants, List.mapM_cons, runOn_bind]
  rcases runOn (constant source index) before log with ⟨⟨_ | place, after⟩, log'⟩ <;> rfl

/-- Indices are transferred to the places that they have been carried over to. -/
theorem ensures_constants (indices : List Index) :
    Ensures source 4 before (constants source indices) fun places after =>
      places = indices.map after.placeOf ∧
        ∀ index ∈ indices, after.transferred[index]? = some (after.placeOf index) := by
  have hcarried : Ensures source 4 before (constants source indices) fun places after =>
      indices.Forall₂ (fun index place => after.transferred[index]? = some place) places :=
    .mapM (fun _ _ _ _ _ hsteps hplace => Steps.place hsteps hplace) fun index _ _ _ => ensures_constant index
  refine hcarried.imp fun places after _ hplaces => ?_
  clear hcarried
  induction hplaces with
  | nil => exact ⟨rfl, fun index hmem => by cases hmem⟩
  | @cons index place indices places hplace _ ih =>
    have hplaceOf : after.placeOf index = place := by rw [placeOf, hplace, Option.getD_some]
    refine ⟨by rw [List.map_cons, hplaceOf, ← ih.1], List.forall_mem_cons.2 ⟨?_, ih.2⟩⟩
    rw [hplaceOf, hplace]

/-! ### One piece -/

private theorem constants_of_piece {piece : Piece} {bytes : Bytes}
    (h : runOn (TransferM.piece source piece) before log = ((.ok bytes, after), log')) :
    ∃ places, runOn (constants source piece.indices) before log = ((.ok places, after), log') := by
  cases piece with
  | fixed content =>
    cases h
    exact ⟨[], rfl⟩
  | slot hole =>
    cases hole with
    | narrow offset index =>
      obtain ⟨new, between, middle, hnew, hrest⟩ := runOn_bind_eq_ok h
      have hsmall : ¬ 255 < new := by
        intro hlarge
        rw [if_pos hlarge] at hrest
        cases hrest
      rw [if_neg hsmall] at hrest
      cases hrest
      exact ⟨[new], by rw [Piece.indices, Slot.indices, runOn_constants_single, hnew]⟩
    | wide index =>
      obtain ⟨new, hnew, rfl⟩ := runOn_map_eq_ok h
      exact ⟨[new], by rw [Piece.indices, Slot.indices, runOn_constants_single, hnew]⟩
    | optional index =>
      obtain ⟨new, hnew, rfl⟩ := runOn_map_eq_ok h
      rw [optional] at hnew
      rw [Piece.indices, Slot.indices]
      split at hnew
      · rw [if_pos ‹_›]
        cases hnew
        exact ⟨[], rfl⟩
      · rw [if_neg ‹_›]
        exact ⟨[new], by rw [runOn_constants_single, hnew]⟩

/-- A piece whose indices can be given places is transferred, unless it is a slot that its place does not fit into. -/
private theorem piece_of_constants {piece : Piece} {places : List Index}
    (h : runOn (constants source piece.indices) before log = ((.ok places, after), log')) :
    (∃ bytes, runOn (TransferM.piece source piece) before log = ((.ok bytes, after), log')) ∨
      ∃ offset index, piece = .slot (.narrow offset index) ∧ 255 < after.placeOf index.toUInt16 ∧
        runOn (TransferM.piece source piece) before log =
          ((.error (.narrowOperand offset (after.placeOf index.toUInt16)), after), log') := by
  have hplaces := ((ensures_constants piece.indices) _ _ _ _ h).2 places rfl
  -- A single index is given its place by its own transfer.
  have hsingle : ∀ index, piece.indices = [index] →
      runOn (constant source index) before log = ((.ok (after.placeOf index), after), log') := by
    intro index hindices
    rw [hindices, runOn_constants_single] at h
    rw [hindices] at hplaces
    rcases hrun : runOn (constant source index) before log with ⟨⟨_ | place, between⟩, middle⟩
    · rw [hrun] at h
      cases h
    · rw [hrun] at h
      cases h
      rw [List.map_singleton, List.singleton_inj] at hplaces
      rw [hplaces.1]
  cases piece with
  | fixed content =>
    cases h
    exact .inl ⟨content, rfl⟩
  | slot hole =>
    cases hole with
    | narrow offset index =>
      have hnew := hsingle _ rfl
      by_cases hlarge : 255 < after.placeOf index.toUInt16
      · refine .inr ⟨offset, index, rfl, hlarge, ?_⟩
        rw [TransferM.piece, slot, runOn_bind, hnew]
        dsimp only
        rw [if_pos hlarge]
        rfl
      · refine .inl ⟨[(after.placeOf index.toUInt16).toUInt8], ?_⟩
        rw [TransferM.piece, slot, runOn_bind, hnew]
        dsimp only
        rw [if_neg hlarge]
        rfl
    | wide index =>
      refine .inl ⟨u16Bytes (after.placeOf index), ?_⟩
      rw [TransferM.piece, slot, map_eq_pure_bind, runOn_bind, hsingle _ rfl]
      rfl
    | optional index =>
      by_cases hzero : index = 0
      · rw [Piece.indices, Slot.indices, if_pos hzero] at h
        cases h
        exact .inl ⟨u16Bytes 0, by rw [TransferM.piece, slot, optional, if_pos hzero]; rfl⟩
      · have hindices : (Piece.slot (.optional index)).indices = [index] := if_neg hzero
        refine .inl ⟨u16Bytes (after.placeOf index), ?_⟩
        rw [TransferM.piece, slot, optional, if_neg hzero, map_eq_pure_bind, runOn_bind, hsingle _ hindices]
        rfl

/-! ### Pieces one after the other -/

theorem SlotCarried.eq_renamed {hole : Slot} {bytes : Bytes} (h : SlotCarried after hole bytes) :
    bytes = (hole.renamed after.placeOf).bytes := by
  have hplaceOf : ∀ {index place : Index}, after.transferred[index]? = some place → after.placeOf index = place := by
    intro index place hplace
    rw [placeOf, hplace, Option.getD_some]
  cases h with
  | narrow hplace _ => rw [Slot.renamed, hplaceOf hplace, Slot.bytes]
  | wide hplace => rw [Slot.renamed, hplaceOf hplace, Slot.bytes]
  | absent => rfl
  | optional hnonzero hplace => rw [Slot.renamed, if_neg hnonzero, hplaceOf hplace, Slot.bytes]

theorem PieceCarried.eq_renamed {piece : Piece} {bytes : Bytes} (h : PieceCarried after piece bytes) :
    bytes = (piece.renamed after.placeOf).bytes := by
  cases h with
  | fixed content => rfl
  | slot h => exact h.eq_renamed

/-- One-byte indices have been carried over to places that fit into one byte. -/
theorem PieceCarried.narrow_le {offset : Nat} {index : UInt8} {bytes : Bytes}
    (h : PieceCarried after (.slot (.narrow offset index)) bytes) : after.placeOf index.toUInt16 ≤ 255 := by
  obtain ⟨⟩ | ⟨h⟩ := h
  cases h with
  | narrow hplace hsmall =>
    rw [placeOf, hplace]
    exact hsmall

private theorem narrow_le_of_carried {pieces : List Piece} {parts : List Bytes}
    (h : pieces.Forall₂ (PieceCarried after) parts) {offset : Nat} {index : UInt8}
    (hmem : .slot (.narrow offset index) ∈ pieces) : after.placeOf index.toUInt16 ≤ 255 := by
  induction h with
  | nil => cases hmem
  | cons hpiece _ ih =>
    rcases List.mem_cons.1 hmem with rfl | hlater
    · exact hpiece.narrow_le
    · exact ih hlater

theorem flatten_of_carried {pieces : List Piece} {parts : List Bytes} (h : pieces.Forall₂ (PieceCarried after) parts) :
    parts.flatten = (pieces.map (Piece.renamed after.placeOf)).flatMap Piece.bytes := by
  induction h with
  | nil => rfl
  | cons hpiece _ ih => rw [List.flatten_cons, List.map_cons, List.flatMap_cons, ih, hpiece.eq_renamed]

private theorem exists_constants_of_pieces {pieces : List Piece} {parts : List Bytes}
    (h : runOn (pieces.mapM (piece source)) before log = ((.ok parts, after), log')) :
    ∃ places, runOn (constants source (pieces.flatMap Piece.indices)) before log = ((.ok places, after), log') := by
  induction pieces generalizing before log parts with
  | nil =>
    cases h
    exact ⟨[], rfl⟩
  | cons first pieces ih =>
    rw [List.mapM_cons] at h
    obtain ⟨bytes, between, middle, hfirst, h⟩ := runOn_bind_eq_ok h
    obtain ⟨parts, after, log', hrest, h⟩ := runOn_bind_eq_ok h
    cases h
    obtain ⟨places, hplaces⟩ := constants_of_piece hfirst
    obtain ⟨places', hplaces'⟩ := ih hrest
    refine ⟨places ++ places', ?_⟩
    rw [List.flatMap_cons, constants_append, runOn_bind, hplaces]
    dsimp only
    rw [runOn_bind, hplaces']
    rfl

/-- When pieces are transferred, so are the indices in their slots, to places that fit, and the bytes are those of the
pieces with these places. -/
theorem constants_of_pieces {pieces : List Piece} {parts : List Bytes}
    (h : runOn (pieces.mapM (piece source)) before log = ((.ok parts, after), log')) :
    runOn (constants source (pieces.flatMap Piece.indices)) before log =
        ((.ok ((pieces.flatMap Piece.indices).map after.placeOf), after), log') ∧
      (∀ index ∈ pieces.flatMap Piece.indices, after.transferred[index]? = some (after.placeOf index)) ∧
      (∀ offset index, .slot (.narrow offset index) ∈ pieces → after.placeOf index.toUInt16 ≤ 255) ∧
      parts.flatten = (pieces.map (Piece.renamed after.placeOf)).flatMap Piece.bytes := by
  obtain ⟨places, hplaces⟩ := exists_constants_of_pieces h
  obtain ⟨hsame, htransferred⟩ := (ensures_constants _ _ _ _ _ hplaces).2 places rfl
  have hcarried : pieces.Forall₂ (PieceCarried after) parts :=
    ((Ensures.mapM (fun _ _ _ _ _ hsteps hpiece => hpiece.mono hsteps) fun piece _ after _ => ensures_piece piece)
      _ _ _ _ h).2 parts rfl
  exact ⟨hsame ▸ hplaces, htransferred, fun _ _ hmem => narrow_le_of_carried hcarried hmem, flatten_of_carried hcarried⟩

/-- When the indices in the slots of pieces can be given places, the pieces are transferred, unless there is a slot that
its place does not fit into. -/
theorem pieces_of_constants {pieces : List Piece} {places : List Index}
    (h : runOn (constants source (pieces.flatMap Piece.indices)) before log = ((.ok places, after), log')) :
    (∃ parts, runOn (pieces.mapM (piece source)) before log = ((.ok parts, after), log')) ∨
      ∃ offset index, .slot (.narrow offset index) ∈ pieces ∧ 255 < after.placeOf index.toUInt16 ∧
        ∃ failed noted, runOn (pieces.mapM (piece source)) before log =
          ((.error (.narrowOperand offset (after.placeOf index.toUInt16)), failed), noted) := by
  induction pieces generalizing before log places with
  | nil =>
    cases h
    exact .inl ⟨[], rfl⟩
  | cons first pieces ih =>
    rw [List.flatMap_cons, constants_append] at h
    obtain ⟨firstPlaces, between, middle, hfirst, h⟩ := runOn_bind_eq_ok h
    obtain ⟨restPlaces, after, log', hrest, h⟩ := runOn_bind_eq_ok h
    cases h
    have hsteps : Steps source 4 between after := (ensures_constants _ _ _ _ _ hrest).1
    rw [List.mapM_cons]
    rcases piece_of_constants hfirst with ⟨bytes, hbytes⟩ | ⟨offset, index, rfl, hlarge, herror⟩
    · rcases ih hrest with ⟨parts, hparts⟩ | ⟨offset, index, hmem, hlarge, failed, noted, herror⟩
      · refine .inl ⟨bytes :: parts, ?_⟩
        rw [runOn_bind, hbytes]
        dsimp only
        rw [runOn_bind, hparts]
        rfl
      · refine .inr ⟨offset, index, List.mem_cons_of_mem _ hmem, hlarge, failed, noted, ?_⟩
        rw [runOn_bind, hbytes]
        dsimp only
        rw [runOn_bind, herror]
    · -- The index keeps its place while the others are transferred.
      have hplace := ((ensures_constants _ _ _ _ _ hfirst).2 _ rfl).2 index.toUInt16 List.mem_cons_self
      have hsame : after.placeOf index.toUInt16 = between.placeOf index.toUInt16 := by
        rw [placeOf, Steps.place hsteps hplace, Option.getD_some]
      refine .inr ⟨offset, index, List.mem_cons_self, hsame ▸ hlarge, between, middle, ?_⟩
      rw [runOn_bind, herror, hsame]

/-- Transferring a template that has been read to its end is transferring its pieces. -/
theorem runOn_template {ε : Type} {wrap : ε → TransferError} {template : Template ε} {leftOver : Bytes}
    (h : template.outcome = .ok leftOver) (before : Transfer) (log : Log) :
    runOn (TransferM.template source wrap template) before log =
      match runOn (template.pieces.mapM (piece source)) before log with
      | ((.ok parts, after), log') => ((.ok (parts.flatten, leftOver), after), log')
      | ((.error error, after), log') => ((.error error, after), log') := by
  rw [TransferM.template, runOn_bind, h]
  rcases runOn (template.pieces.mapM (piece source)) before log with ⟨⟨_ | parts, after⟩, log'⟩ <;> rfl

/-- A template that is transferred has been read to its end, and its pieces are transferred. -/
theorem runOn_template_eq_ok {ε : Type} {wrap : ε → TransferError} {template : Template ε} {bytes leftOver : Bytes}
    (h : runOn (TransferM.template source wrap template) before log = ((.ok (bytes, leftOver), after), log')) :
    ∃ parts, runOn (template.pieces.mapM (piece source)) before log = ((.ok parts, after), log') ∧
      template.outcome = .ok leftOver ∧ bytes = parts.flatten := by
  cases houtcome : template.outcome with
  | error stop =>
    rw [TransferM.template] at h
    obtain ⟨parts, between, middle, -, hrest⟩ := runOn_bind_eq_ok h
    rw [houtcome] at hrest
    cases hrest
  | ok rest =>
    rw [runOn_template houtcome] at h
    rcases hparts : runOn (template.pieces.mapM (piece source)) before log with ⟨⟨_ | parts, between⟩, middle⟩
    · rw [hparts] at h
      cases h
    · rw [hparts] at h
      cases h
      exact ⟨parts, rfl, rfl, rfl⟩

/-- A computation that succeeds leaves the state that follows it. -/
theorem runOn_of_outcome {α : Type} {x : TransferM α} {state : State} {a : α} (h : outcome x state = .ok a) :
    runOn x state.1 state.2 = ((.ok a, (following x state).1), (following x state).2) := by
  rw [← h]
  rfl

/-- The class of a pool is carried over to index four of a pool whose entry takes up two indices. -/
theorem outcome_constants_classPool :
    outcome (constants classPool [2]) (into wordPool, #[]) = .ok [4] := by
  have htwo : classPool.get 2 = .ok (.named .classInfo 1) := by decide +kernel
  have hone : classPool.get 1 = .ok (.utf8 (.ofText "A")) := by decide +kernel
  have hknown : (Interner.ofPool wordPool).firstIndex =
      (∅ : Std.HashMap _ _).insertIfNew (Constant.long 7).bytes 1 := rfl
  have hcount : (Interner.ofPool wordPool).pool.count = 3 := by decide +kernel
  have hword : (Constant.long 7).bytes ≠ (Constant.utf8 (.ofText "A")).bytes := by decide +kernel
  have hword' : (Constant.long 7).bytes ≠ (Constant.named .classInfo 3).bytes := by decide +kernel
  have hname : (Constant.utf8 (.ofText "A")).bytes ≠ (Constant.named .classInfo 3).bytes := by decide +kernel
  rw [outcome, runOn_constants_single]
  simp [TransferM.constant, TransferM.text, TransferM.named, remember, resolved, htwo, hone, runOn_bind, runOn_intern,
    -bind_pure_comp, into, Interner.run_intern, Interner.add, Except.mapError, hknown, hcount, hword, hword', hname,
    Pool.hasRoom_iff, Pool.count_push, Constant.width]

end ClassGraft.TransferM
