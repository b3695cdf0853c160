import ClassGraft.Proofs.Instruction.Operands
import ClassGraft.Proofs.Transfer.Slots

/-!
# Transferred code arrays

A transferred code array has the instructions of the original, with other indices in their constant operands.  When the
original can be walked and its operands can be given places, its transfer fails only for an operand of one byte whose
place does not fit (`TransferM.instructions_by_operands`).
-/

namespace ClassGraft.TransferM

open Transfer Instruction

variable {source : Pool} {before after : Transfer} {log log' : Log}

/-- A code array that is transferred is tiled by instructions, and becomes these instructions with other operands. -/
theorem tiles_of_instructions {code output : Bytes}
    (h : runOn (instructions source code) before log = ((.ok output, after), log')) :
    ∃ tiles, Tiles 0 tiles ∧ code = tiles.flatMap Prod.snd ∧
      (∀ tile ∈ tiles, ∀ old, tile.1.operand? tile.2 = some old →
        after.transferred[old]? = some (after.placeOf old) ∧ (tile.1.opcode = 0x12 → after.placeOf old ≤ 255)) ∧
      output = (tiles.map fun tile => (tile.1, tile.1.renamedBytes after.placeOf tile.2)).flatMap Prod.snd := by
  obtain ⟨⟨bytes, leftOver⟩, htemplate, rfl⟩ := runOn_map_eq_ok h
  obtain ⟨parts, hparts, houtcome, rfl⟩ := runOn_template_eq_ok htemplate
  obtain ⟨tiles, htiles, -, rfl⟩ := exists_tiles_of_walkOnto (outcome_template_iff.1 houtcome).1
  rw [htiles.pieces_template] at hparts
  obtain ⟨-, htransferred, hfits, hbytes⟩ := constants_of_pieces hparts
  refine ⟨tiles, htiles, rfl, fun tile htile old hold => ⟨htransferred old ?_, fun hopcode => ?_⟩, ?_⟩
  · rw [tilePieces, List.flatMap_assoc]
    refine List.mem_flatMap.2 ⟨tile, htile, ?_⟩
    rw [(htiles.tile tile htile).indices, hold]
    exact List.mem_singleton.2 rfl
  · obtain ⟨offset, index, hmem, rfl⟩ := (htiles.tile tile htile).exists_narrow_mem hopcode hold
    exact hfits offset index (List.mem_flatMap.2 ⟨tile, htile, hmem⟩)
  · rw [flatMap_renamedBytes]
    exact hbytes

/-- When a code array is transferred, the places of all its operands of one byte fit. -/
theorem fits_of_instructions {code output : Bytes}
    (h : runOn (instructions source code) before log = ((.ok output, after), log')) :
    ∀ operand ∈ operands code, operand.1.opcode = 0x12 → after.placeOf operand.2 ≤ 255 := by
  obtain ⟨tiles, htiles, rfl, hplaces, -⟩ := tiles_of_instructions h
  intro operand hmem hopcode
  obtain ⟨tile, htile, hinstruction, hold⟩ := htiles.mem_operands_iff.1 hmem
  rw [← hinstruction] at hopcode
  exact (hplaces tile htile _ hold).2 hopcode

theorem runOn_instructions {code leftOver : Bytes} (h : (Instruction.template code).outcome = .ok leftOver)
    (before : Transfer) (log : Log) :
    runOn (instructions source code) before log =
      match runOn ((Instruction.template code).pieces.mapM (piece source)) before log with
      | ((.ok parts, after), log') => ((.ok parts.flatten, after), log')
      | ((.error error, after), log') => ((.error error, after), log') := by
  rw [instructions, map_eq_pure_bind, runOn_bind, runOn_template h]
  rcases runOn ((Instruction.template code).pieces.mapM (piece source)) before log with ⟨⟨_ | parts, after⟩, log'⟩ <;>
    rfl

/-- A code array that can be walked, and whose operands can be given places, is transferred, or there is an operand of
one byte whose place does not fit into it. -/
theorem instructions_of_constants {code : Bytes} {places : List Index} (hstop : (walk code).stop = none)
    (h : runOn (constants source ((operands code).map Prod.snd)) before log = ((.ok places, after), log')) :
    (∃ output, runOn (instructions source code) before log = ((.ok output, after), log')) ∨
      ∃ operand ∈ operands code, operand.1.opcode = 0x12 ∧ 255 < after.placeOf operand.2 ∧
        ∃ offset, outcome (instructions source code) (before, log) =
          .error (.narrowOperand offset (after.placeOf operand.2)) := by
  obtain ⟨tiles, htiles, -, rfl⟩ := exists_tiles_of_walkOnto hstop
  rw [← htiles.indices] at h
  have hinstructions := @runOn_instructions source _ _ (outcome_template_iff.2 ⟨hstop, rfl⟩) before log
  rw [htiles.pieces_template] at hinstructions
  rcases pieces_of_constants h with ⟨parts, hparts⟩ | ⟨offset, index, hmem, hlarge, failed, noted, herror⟩
  · exact .inl ⟨parts.flatten, by rw [hinstructions, hparts]⟩
  · obtain ⟨tile, htile, hslot⟩ := List.mem_flatMap.1 hmem
    obtain ⟨hopcode, hold⟩ := (htiles.tile tile htile).operand?_of_narrow_mem hslot
    have hoperand : (tile.1, index.toUInt16) ∈ operands (tiles.flatMap Prod.snd) :=
      htiles.mem_operands_iff.2 ⟨tile, htile, rfl, hold⟩
    refine .inr ⟨_, hoperand, hopcode, hlarge, offset, ?_⟩
    rw [outcome, hinstructions, herror]

theorem zip_of_constants {code : Bytes} {places : List Index}
    (h : runOn (constants source ((operands code).map Prod.snd)) before log = ((.ok places, after), log')) :
    (operands code).zip places = (operands code).map fun operand => (operand, after.placeOf operand.2) := by
  rw [((ensures_constants _ _ _ _ _ h).2 places rfl).1, List.map_map]
  exact List.map_prod_left_eq_zip.symm

/-- Whatever a code array is, when it is transferred, the new one has its length and its instructions, it differs only
in constant operands, and each of these leads to an entry alike to the one that it led to.  When the code array can be
walked to its end and its operands can be given places, its transfer fails only because an operand does not fit, and
exactly when the place of an operand of one byte is above 255. -/
theorem instructions_by_operands (hsource : source.Made) {state : State} (hreachable : state.1.Reachable source)
    (code : Bytes) :
    (∀ output, outcome (instructions source code) state = .ok output →
      output.length = code.length ∧ (walk code).stop = none ∧ walk output = walk code ∧
      (∀ position, (∀ instruction ∈ (walk code).instructions, ¬ instruction.OperandCovers position) →
        output[position]? = code[position]?) ∧
      ∀ instruction ∈ (walk code).instructions, ∀ old, operandIn? code instruction = some old →
        ∃ new, operandIn? output instruction = some new ∧
          source.Alike (following (instructions source code) state).1.target.pool old new) ∧
    ((walk code).stop = none → ∀ places, outcome (constants source ((operands code).map Prod.snd)) state = .ok places →
      (∀ error, outcome (instructions source code) state = .error error →
        ∃ offset new, error = .narrowOperand offset new) ∧
      ((∃ error, outcome (instructions source code) state = .error error) ↔
        ∃ operand ∈ (operands code).zip places, operand.1.1.opcode = 0x12 ∧ 255 < operand.2)) := by
  refine ⟨fun output hok => ?_, fun hstop places hplaces => ?_⟩
  · obtain ⟨tiles, htiles, rfl, hplaces, rfl⟩ := tiles_of_instructions (runOn_of_outcome hok)
    generalize hafter : (following (instructions source (tiles.flatMap Prod.snd)) state).1 = after at hplaces
    have hvalid : after.Valid source := by
      rw [← hafter]
      exact Steps.valid (Ensures.following (ensures_instructions _)).1 (hreachable.valid hsource)
    have hwalk := htiles.walk_eq
    have hrenamed := htiles.renamed after.placeOf
    refine ⟨?_, by rw [hwalk], ?_, fun position houtside => ?_, ?_⟩
    · rw [flatMap_renamedBytes, Piece.length_bytes_map_renamed, flatMap_bytes_tilePieces]
    · rw [hwalk]
      exact walk_eq_iff.2 ⟨_, hrenamed, by simp, rfl⟩
    · rw [flatMap_renamedBytes, ← flatMap_bytes_tilePieces]
      refine Piece.getElem?_bytes_renamed 0 fun slot hmem hcovers => ?_
      rw [Nat.zero_add] at hcovers
      obtain ⟨tile, htile, hposition⟩ := htiles.covers hmem hcovers
      refine houtside tile.1 ?_ hposition
      rw [hwalk]
      exact List.mem_map_of_mem htile
    · intro instruction hinstruction old hold
      rw [hwalk] at hinstruction
      obtain ⟨tile, htile, rfl⟩ := List.mem_map.1 hinstruction
      rw [operandIn?, htiles.bytesIn tile htile] at hold
      refine ⟨after.placeOf old, ?_, hvalid.alike _ _ (hplaces tile htile old hold).1⟩
      have hbytes := hrenamed.bytesIn _ (List.mem_map_of_mem htile)
      rw [operandIn?, hbytes, (htiles.tile tile htile).operand?_renamed, hold, Option.map_some]
      exact fun hopcode index hindex => (hplaces tile htile index hindex).2 hopcode
  · have hrun := runOn_of_outcome hplaces
    generalize (following (constants source ((operands code).map Prod.snd)) state).1 = after at hrun
    rw [zip_of_constants hrun]
    rcases instructions_of_constants hstop hrun with
      ⟨output, houtput⟩ | ⟨operand, hmem, hopcode, hlarge, offset, herror⟩
    · have hok : outcome (instructions source code) state = .ok output := by rw [outcome, houtput]
      rw [hok]
      refine ⟨fun error herror => ?_, ?_, ?_⟩
      · cases herror
      · rintro ⟨error, herror⟩
        cases herror
      · rintro ⟨_, hmem, hopcode, hlarge⟩
        obtain ⟨operand, hoperand, rfl⟩ := List.mem_map.1 hmem
        exact absurd hlarge (UInt16.not_lt.2 (fits_of_instructions houtput operand hoperand hopcode))
    · rw [herror]
      refine ⟨fun error herror => ?_, fun _ => ⟨_, List.mem_map_of_mem hmem, hopcode, hlarge⟩, fun _ => ⟨_, rfl⟩⟩
      cases herror
      exact ⟨offset, _, rfl⟩

/-- The instructions that load a string and return. -/
def loadingTiles : List (Instruction × Bytes) := [(⟨0, 0x12, 2⟩, [0x12, 2]), (⟨2, 0xB1, 1⟩, [0xB1])]

private theorem tiles_loadingTiles : Tiles 0 loadingTiles := by
  have hload : lengthAt 0 [0x12, 2] = .ok 2 := lengthAt_eq_ok_iff.2 ⟨rfl, Nat.le_refl 2⟩
  have hreturn : lengthAt 2 [0xB1] = .ok 1 := lengthAt_eq_ok_iff.2 ⟨rfl, Nat.le_refl 1⟩
  exact .cons (.intro hload) (.cons (.intro hreturn) (.nil 3))

/-- An instruction that loads a string is transferred with the instruction behind it, and its operand still leads to the
string. -/
theorem instructions_by_operands_loading :
    classPool.Made ∧ (into wordPool).Reachable classPool ∧
      ∃ output, outcome (instructions classPool [0x12, 2, 0xB1]) (into wordPool, #[]) = .ok output ∧
        walk output = ⟨[⟨0, 0x12, 2⟩, ⟨2, 0xB1, 1⟩], none⟩ ∧
        ∃ new, operandIn? output ⟨0, 0x12, 2⟩ = some new ∧
          classPool.Alike (following (instructions classPool [0x12, 2, 0xB1]) (into wordPool, #[])).1.target.pool 2
            new := by
  have hreachable : (into wordPool).Reachable classPool := reachable_into wordPool_made
  have hwalk : walk [0x12, 2, 0xB1] = ⟨loadingTiles.map Prod.fst, none⟩ := tiles_loadingTiles.walk_eq
  have hoperands : (operands [0x12, 2, 0xB1]).map Prod.snd = [2] := tiles_loadingTiles.indices.symm
  obtain ⟨hkept, hfails⟩ := @instructions_by_operands _ classPool_made (into wordPool, #[]) hreachable
    [0x12, 2, 0xB1]
  refine ⟨classPool_made, hreachable, ?_⟩
  cases houtcome : outcome (instructions classPool [0x12, 2, 0xB1]) (into wordPool, #[]) with
  | error error =>
    -- The only operand is given place four, which fits.
    obtain ⟨operand, hmem, -, hlarge⟩ :=
      (hfails (by rw [hwalk]) [4] (by rw [hoperands]; exact outcome_constants_classPool)).2.1 ⟨error, houtcome⟩
    have hfour : operand.2 = 4 := List.mem_singleton.1 (List.of_mem_zip hmem).2
    rw [hfour] at hlarge
    exact absurd hlarge (by decide)
  | ok output =>
    obtain ⟨-, -, hsame, -, hlead⟩ := hkept output houtcome
    refine ⟨output, rfl, hsame.trans hwalk, hlead _ ?_ 2 (by decide +kernel)⟩
    rw [hwalk]
    exact List.mem_cons_self

end ClassGraft.TransferM
