import ClassGraft.Proofs.Instruction
import ClassGraft.Proofs.Template

/-!
# Constant operands

An instruction whose opcode has a constant operand is long enough for it, and its length depends on nothing else
(`Instruction.exists_shape_of_constantOperand`).  So renaming the operands of the instructions of a code array gives
instructions with the same offsets, opcodes and lengths (`Instruction.Tiles.renamed`).
-/

namespace ClassGraft

/-- The index that the bytes of a slot are read as. -/
def Slot.value (slot : Slot) : Index := UInt16.ofNat (ofBigEndian slot.bytes)

namespace Instruction

/-- The index in the constant operand of an instruction with the given bytes, if it has one. -/
def operand? (instruction : Instruction) (bytes : Bytes) : Option Index :=
  (constantOperand? instruction.opcode).map fun width => UInt16.ofNat (ofBigEndian ((bytes.drop 1).take width.size))

/-- The index in the constant operand of an instruction of a code array, if it has one. -/
def operandIn? (code : Bytes) (instruction : Instruction) : Option Index :=
  instruction.operand? (bytesIn code instruction)

/-- The instructions of a code array that have constant operands, with the indices in these. -/
def operands (code : Bytes) : List (Instruction × Index) :=
  (walk code).instructions.filterMap fun instruction => (operandIn? code instruction).map (instruction, ·)

/-- A position is in the constant operand of an instruction. -/
def OperandCovers (instruction : Instruction) (position : Nat) : Prop :=
  ∃ width, constantOperand? instruction.opcode = some width ∧ instruction.offset + 1 ≤ position ∧
    position < instruction.offset + 1 + width.size

/-- An instruction with a constant operand has a length of its own, in which there is room for the operand. -/
theorem exists_shape_of_constantOperand {opcode : UInt8} {width : OperandWidth}
    (h : constantOperand? opcode = some width) : ∃ extra, shapeOf opcode = .fixed (1 + width.size + extra) := by
  have hall : ∀ opcode, constantOperand? opcode = some width →
      ∃ extra < 4, shapeOf opcode = .fixed (1 + width.size + extra) := by
    cases width <;> exact forall_byte (by decide +kernel)
  obtain ⟨extra, -, hshape⟩ := hall opcode h
  exact ⟨extra, hshape⟩

/-- Only one opcode has an operand of one byte. -/
theorem constantOperand?_eq_narrow_iff {opcode : UInt8} : constantOperand? opcode = some .narrow ↔ opcode = 0x12 := by
  have hall : ∀ opcode, constantOperand? opcode = some .narrow ↔ opcode = 0x12 := forall_byte (by decide +kernel)
  exact hall opcode

/-! ### The operand of one instruction -/

/-- A slot is one for an operand of a width of the instruction at an offset. -/
inductive OperandSlot (offset : Nat) : OperandWidth → Slot → Prop
  | narrow (index : UInt8) : OperandSlot offset .narrow (.narrow offset index)
  | wide (index : Index) : OperandSlot offset .wide (.wide index)

variable {offset : Nat} {width : OperandWidth} {slot : Slot}

theorem OperandSlot.length_bytes (h : OperandSlot offset width slot) : slot.bytes.length = width.size := by
  cases h <;> rfl

private theorem value_narrow (offset : Nat) (index : UInt8) : (Slot.narrow offset index).value = index.toUInt16 := by
  simp [Slot.value, Slot.bytes, ofBigEndian]

theorem OperandSlot.indices (h : OperandSlot offset width slot) : slot.indices = [slot.value] := by
  cases h with
  | narrow index => rw [value_narrow, Slot.indices]
  | wide index => simp [Slot.indices, Slot.value, Slot.bytes, ofBigEndian_u16Bytes]

theorem OperandSlot.renamed (h : OperandSlot offset width slot) (place : Index → Index) :
    OperandSlot offset width (slot.renamed place) := by
  cases h with
  | narrow index => exact .narrow _
  | wide index => exact .wide _

/-- An operand is renamed to its new name when this fits into its slot. -/
theorem OperandSlot.value_renamed (h : OperandSlot offset width slot) {place : Index → Index}
    (hfits : width = .narrow → place slot.value ≤ 255) : (slot.renamed place).value = place slot.value := by
  cases h with
  | narrow index =>
    rw [value_narrow] at hfits ⊢
    have hsmall : (place index.toUInt16).toNat < 256 := Nat.lt_succ_of_le (UInt16.le_iff_toNat_le.1 (hfits rfl))
    simp [Slot.value, Slot.renamed, Slot.bytes, ofBigEndian, Nat.mod_eq_of_lt hsmall]
  | wide index => simp [Slot.value, Slot.renamed, Slot.bytes, ofBigEndian_u16Bytes]

/-- An instruction has no constant operand and is one piece, or it has one in the slot behind its opcode. -/
theorem Tile.pieces_cases {tile : Instruction × Bytes} (h : Tile tile) :
    (constantOperand? tile.1.opcode = none ∧ tile.1.pieces tile.2 = [.fixed tile.2]) ∨
      ∃ width slot rest, constantOperand? tile.1.opcode = some width ∧ OperandSlot tile.1.offset width slot ∧
        tile.2 = tile.1.opcode :: (slot.bytes ++ rest) ∧
        tile.1.pieces tile.2 = [.fixed [tile.1.opcode], .slot slot, .fixed rest] := by
  obtain @⟨offset, opcode, operands, hlength⟩ := h
  dsimp only
  cases hoperand : constantOperand? opcode with
  | none => exact .inl ⟨rfl, by simp [pieces, hoperand]⟩
  | some width =>
    obtain ⟨extra, hshape⟩ := exists_shape_of_constantOperand hoperand
    have hdeclared := (lengthAt_eq_ok_iff.1 hlength).1
    rw [declaredLength, hshape] at hdeclared
    have hsize := Except.ok.inj hdeclared
    right
    cases width with
    | narrow =>
      cases operands with
      | nil =>
        rw [List.length_nil, OperandWidth.size] at hsize
        omega
      | cons index rest =>
        exact ⟨.narrow, .narrow offset index, rest, rfl, .narrow index, rfl, by simp [pieces, hoperand]⟩
    | wide =>
      rcases operands with _ | ⟨high, _ | ⟨low, rest⟩⟩
      · rw [List.length_nil, OperandWidth.size] at hsize
        omega
      · rw [List.length_singleton, OperandWidth.size] at hsize
        omega
      · refine ⟨.wide, .wide (UInt16.ofNat (ofBigEndian [high, low])), rest, rfl, .wide _, ?_,
          by simp [pieces, hoperand]⟩
        rw [Slot.bytes, u16Bytes_ofBigEndian]
        rfl

variable {tile : Instruction × Bytes}

/-- The operand of an instruction is the index in the slot behind its opcode. -/
private theorem operand?_of_slot {instruction : Instruction} {rest : Bytes}
    (hoperand : constantOperand? instruction.opcode = some width) (hslot : OperandSlot offset width slot) :
    instruction.operand? (instruction.opcode :: (slot.bytes ++ rest)) = some slot.value := by
  rw [operand?, hoperand, Option.map_some, List.drop_one, List.tail_cons, ← hslot.length_bytes, List.take_left,
    Slot.value]

theorem Tile.indices (h : Tile tile) :
    (tile.1.pieces tile.2).flatMap Piece.indices = (tile.1.operand? tile.2).toList := by
  rcases h.pieces_cases with ⟨hnone, hpieces⟩ | ⟨width, slot, rest, hoperand, hslot, hbytes, hpieces⟩
  · rw [hpieces, operand?, hnone]
    rfl
  · rw [hpieces, hbytes, operand?_of_slot hoperand hslot, Option.toList_some, ← hslot.indices]
    simp [Piece.indices]

/-- The slot of an instruction is where its operand is. -/
theorem Tile.mem_slotsFrom (h : Tile tile) {position : Nat}
    (hmem : (position, slot) ∈ Piece.slotsFrom tile.1.offset (tile.1.pieces tile.2)) :
    position = tile.1.offset + 1 ∧ ∃ width, constantOperand? tile.1.opcode = some width ∧
      slot.bytes.length = width.size := by
  rcases h.pieces_cases with ⟨-, hpieces⟩ | ⟨width, held, rest, hoperand, hslot, -, hpieces⟩
  · rw [hpieces] at hmem
    cases hmem
  · rw [hpieces] at hmem
    obtain ⟨rfl, rfl⟩ := Prod.mk.inj (List.mem_singleton.1 hmem)
    exact ⟨rfl, width, hoperand, hslot.length_bytes⟩

/-- A slot of one byte holds the operand of an instruction whose operand has one byte. -/
theorem Tile.operand?_of_narrow_mem (h : Tile tile) {index : UInt8}
    (hmem : .slot (.narrow offset index) ∈ tile.1.pieces tile.2) :
    tile.1.opcode = 0x12 ∧ tile.1.operand? tile.2 = some index.toUInt16 := by
  rcases h.pieces_cases with ⟨-, hpieces⟩ | ⟨width, slot, rest, hoperand, hslot, hbytes, hpieces⟩
  · rw [hpieces] at hmem
    simp at hmem
  · rw [hpieces] at hmem
    obtain rfl : slot = .narrow offset index := by simpa [eq_comm] using hmem
    rw [hbytes, operand?_of_slot hoperand hslot, value_narrow]
    cases hslot with
    | narrow index => exact ⟨constantOperand?_eq_narrow_iff.1 hoperand, rfl⟩

/-- An operand of one byte is in a slot of one byte. -/
theorem Tile.exists_narrow_mem (h : Tile tile) (hopcode : tile.1.opcode = 0x12) {old : Index}
    (hold : tile.1.operand? tile.2 = some old) :
    ∃ offset index, .slot (.narrow offset index) ∈ tile.1.pieces tile.2 ∧ index.toUInt16 = old := by
  have hnarrow := constantOperand?_eq_narrow_iff.2 hopcode
  rcases h.pieces_cases with ⟨hnone, -⟩ | ⟨width, slot, rest, hoperand, hslot, hbytes, hpieces⟩
  · rw [hnone] at hnarrow
    cases hnarrow
  · rw [hbytes, operand?_of_slot hoperand hslot] at hold
    obtain rfl : width = .narrow := Option.some.inj (hoperand.symm.trans hnarrow)
    cases hslot with
    | narrow index =>
      rw [value_narrow] at hold
      exact ⟨tile.1.offset, index, by rw [hpieces]; simp, Option.some.inj hold⟩

/-! ### Renaming operands -/

/-- The bytes of an instruction with its operand renamed. -/
def renamedBytes (place : Index → Index) (instruction : Instruction) (bytes : Bytes) : Bytes :=
  ((instruction.pieces bytes).map (Piece.renamed place)).flatMap Piece.bytes

private theorem renamedBytes_of_fixed {place : Index → Index} {instruction : Instruction} {bytes : Bytes}
    (h : instruction.pieces bytes = [.fixed bytes]) : instruction.renamedBytes place bytes = bytes := by
  rw [renamedBytes, h]
  simp [Piece.renamed, Piece.bytes]

private theorem renamedBytes_of_slot {place : Index → Index} {instruction : Instruction} {bytes rest : Bytes}
    (h : instruction.pieces bytes = [.fixed [instruction.opcode], .slot slot, .fixed rest]) :
    instruction.renamedBytes place bytes = instruction.opcode :: ((slot.renamed place).bytes ++ rest) := by
  rw [renamedBytes, h]
  simp [Piece.renamed, Piece.bytes]

/-- An instruction keeps its length when its operand is renamed. -/
theorem Tile.renamed (h : Tile tile) (place : Index → Index) : Tile (tile.1, tile.1.renamedBytes place tile.2) := by
  rcases h.pieces_cases with ⟨-, hpieces⟩ | ⟨width, slot, rest, hoperand, hslot, hbytes, hpieces⟩
  · rwa [renamedBytes_of_fixed hpieces]
  · rw [renamedBytes_of_slot hpieces]
    obtain @⟨offset, opcode, operands, hlength⟩ := h
    obtain rfl : operands = slot.bytes ++ rest := (List.cons.inj hbytes).2
    obtain ⟨extra, hshape⟩ := exists_shape_of_constantOperand hoperand
    -- The length is that of the opcode, whatever follows it.
    have hdeclared : ∀ operands, declaredLength offset (opcode :: operands) = .ok (1 + width.size + extra) := by
      intro operands
      rw [declaredLength, hshape]
    have hsame : ((slot.renamed place).bytes ++ rest).length = (slot.bytes ++ rest).length := by
      rw [List.length_append, List.length_append, slot.length_bytes_renamed]
    rw [lengthAt_eq_ok_iff, hdeclared, ← hsame] at hlength
    rw [← hsame]
    exact .intro (lengthAt_eq_ok_iff.2 ⟨(hdeclared _).trans hlength.1, Nat.le_refl _⟩)

theorem Tile.operand?_renamed (h : Tile tile) {place : Index → Index}
    (hfits : tile.1.opcode = 0x12 → ∀ index, tile.1.operand? tile.2 = some index → place index ≤ 255) :
    tile.1.operand? (tile.1.renamedBytes place tile.2) = (tile.1.operand? tile.2).map place := by
  rcases h.pieces_cases with ⟨hnone, hpieces⟩ | ⟨width, slot, rest, hoperand, hslot, hbytes, hpieces⟩
  · simp [operand?, hnone]
  · have hold := @operand?_of_slot _ _ _ _ rest hoperand hslot
    rw [renamedBytes_of_slot hpieces, operand?_of_slot hoperand (hslot.renamed place), hbytes, hold, Option.map_some]
    refine congrArg some (hslot.value_renamed fun hwidth => ?_)
    rw [hwidth, constantOperand?_eq_narrow_iff] at hoperand
    exact hfits hoperand _ (hbytes ▸ hold)

/-! ### The operands of a code array -/

/-- The pieces of instructions with their bytes. -/
def tilePieces (tiles : List (Instruction × Bytes)) : List Piece := tiles.flatMap fun tile => tile.1.pieces tile.2

variable {tiles : List (Instruction × Bytes)}

theorem flatMap_bytes_tilePieces (tiles : List (Instruction × Bytes)) :
    (tilePieces tiles).flatMap Piece.bytes = tiles.flatMap Prod.snd := by
  rw [tilePieces, List.flatMap_assoc]
  simp only [flatMap_pieces]

/-- Instructions keep their offsets, opcodes and lengths when their operands are renamed. -/
theorem Tiles.renamed (h : Tiles offset tiles) (place : Index → Index) :
    Tiles offset (tiles.map fun tile => (tile.1, tile.1.renamedBytes place tile.2)) := by
  induction h with
  | nil offset => exact .nil offset
  | @cons tile tiles htile _ ih =>
    refine .cons (htile.renamed place) ?_
    have hlength : (tile.1.renamedBytes place tile.2).length = tile.2.length := by
      rw [renamedBytes, Piece.length_bytes_map_renamed, flatMap_pieces]
    rw [hlength]
    exact ih

theorem flatMap_renamedBytes (place : Index → Index) (tiles : List (Instruction × Bytes)) :
    (tiles.map fun tile => (tile.1, tile.1.renamedBytes place tile.2)).flatMap Prod.snd =
      ((tilePieces tiles).map (Piece.renamed place)).flatMap Piece.bytes := by
  rw [tilePieces, List.map_flatMap, List.flatMap_assoc, List.flatMap_map]
  rfl

/-- The template of a code array consists of the pieces of its instructions. -/
theorem Tiles.pieces_template (h : Tiles 0 tiles) :
    (template (tiles.flatMap Prod.snd)).pieces = tilePieces tiles := by
  have hpieces : (template (tiles.flatMap Prod.snd)).pieces = (walk (tiles.flatMap Prod.snd)).instructions.flatMap
      fun instruction => instruction.pieces (Instruction.bytesIn (tiles.flatMap Prod.snd) instruction) := rfl
  rw [hpieces, h.walk_eq, tilePieces, List.flatMap_map]
  exact List.flatMap_congr fun tile hmem => by rw [h.bytesIn tile hmem]

/-- The slots of instructions are where their operands are. -/
theorem Tiles.covers (h : Tiles offset tiles) {held : Nat × Slot}
    (hmem : held ∈ Piece.slotsFrom offset (tilePieces tiles)) {position : Nat} (hcovers : Piece.Covers held position) :
    ∃ tile ∈ tiles, tile.1.OperandCovers position := by
  induction h with
  | nil => cases hmem
  | @cons tile tiles htile _ ih =>
    rw [tilePieces, List.flatMap_cons, Piece.slotsFrom_append, flatMap_pieces] at hmem
    rcases List.mem_append.1 hmem with hfirst | hlater
    · obtain ⟨hstart, width, hoperand, hlength⟩ := htile.mem_slotsFrom hfirst
      refine ⟨tile, List.mem_cons_self, width, hoperand, ?_⟩
      rw [Piece.Covers, hstart, hlength] at hcovers
      exact hcovers
    · obtain ⟨later, hlater, hposition⟩ := ih hlater
      exact ⟨later, List.mem_cons_of_mem _ hlater, hposition⟩

/-- The indices in the slots of a code array are those in its operands. -/
theorem Tiles.indices (h : Tiles 0 tiles) :
    (tilePieces tiles).flatMap Piece.indices = (operands (tiles.flatMap Prod.snd)).map Prod.snd := by
  rw [operands, h.walk_eq, tilePieces, List.flatMap_assoc, List.filterMap_map, List.map_filterMap,
    List.filterMap_eq_flatMap_toList]
  refine List.flatMap_congr fun tile hmem => ?_
  rw [(h.tile tile hmem).indices, Function.comp_apply, operandIn?, h.bytesIn tile hmem]
  cases tile.1.operand? tile.2 <;> rfl

theorem Tiles.mem_operands_iff (h : Tiles 0 tiles) {operand : Instruction × Index} :
    operand ∈ operands (tiles.flatMap Prod.snd) ↔
      ∃ tile ∈ tiles, tile.1 = operand.1 ∧ tile.1.operand? tile.2 = some operand.2 := by
  rw [operands, h.walk_eq, List.mem_filterMap]
  constructor
  · rintro ⟨_, hinstruction, hoperand⟩
    obtain ⟨tile, htile, rfl⟩ := List.mem_map.1 hinstruction
    rw [operandIn?, h.bytesIn tile htile] at hoperand
    obtain ⟨old, hold, rfl⟩ := Option.map_eq_some_iff.1 hoperand
    exact ⟨tile, htile, rfl, hold⟩
  · rintro ⟨tile, htile, hinstruction, hold⟩
    refine ⟨tile.1, List.mem_map_of_mem htile, ?_⟩
    rw [operandIn?, h.bytesIn tile htile, hold, Option.map_some, hinstruction]

end Instruction

end ClassGraft
