import ClassGraft.Proofs.Instruction.Tiles
import ClassGraft.Template

/-!
# Templates of code arrays

The template of a code array is read to its end when the walk does not stop early, and then its pieces put together are
the array (`Instruction.bytes_template`).
-/

namespace ClassGraft.Instruction

/-- The pieces of an instruction put together are its bytes. -/
theorem flatMap_pieces (instruction : Instruction) (bytes : Bytes) :
    (instruction.pieces bytes).flatMap Piece.bytes = bytes := by
  unfold pieces
  split
  · simp [Piece.bytes, Slot.bytes]
  · simp [Piece.bytes, Slot.bytes, u16Bytes_ofBigEndian]
  · simp [Piece.bytes]

/-- A template of a code array is read to its end when the walk does not stop early. -/
theorem outcome_template_iff {code leftOver : Bytes} :
    (template code).outcome = .ok leftOver ↔ (walk code).stop = none ∧ leftOver = [] := by
  dsimp only [template]
  cases (walk code).stop with
  | none => simp [eq_comm]
  | some error => simp

/-- The pieces of a template of a code array put together are the array. -/
theorem bytes_template {code leftOver : Bytes} (h : (template code).outcome = .ok leftOver) :
    (template code).bytes = code := by
  rw [Template.bytes, template, List.flatMap_assoc]
  simp only [flatMap_pieces]
  exact walk_tiles (outcome_template_iff.1 h).1

end ClassGraft.Instruction
