import ClassGraft.Proofs.Codec.Reading
import ClassGraft.Template

/-!
# Templates with renamed indices

Renaming the indices of pieces keeps the number of bytes, and changes bytes only inside slots
(`getElem?_bytes_renamed`): the slots stay at their offsets (`slotsFrom_renamed`), and each holds the new name of its
index (`take_bytes_of_mem_slotsFrom`).
-/

namespace ClassGraft

namespace Slot

/-- The index in a slot, unless it stands for no entry. -/
def indices : Slot → List Index
  | .narrow _ index => [index.toUInt16]
  | .wide index => [index]
  | .optional index => if index = 0 then [] else [index]

/-- A slot with its index renamed. -/
def renamed (place : Index → Index) : Slot → Slot
  | .narrow offset index => .narrow offset (place index.toUInt16).toUInt8
  | .wide index => .wide (place index)
  | .optional index => .optional (if index = 0 then 0 else place index)

@[simp]
theorem length_bytes_renamed (place : Index → Index) (slot : Slot) :
    (slot.renamed place).bytes.length = slot.bytes.length := by
  cases slot <;> rfl

end Slot

namespace Piece

/-- The indices in a piece. -/
def indices : Piece → List Index
  | .fixed _ => []
  | .slot place => place.indices

/-- A piece with its indices renamed. -/
def renamed (place : Index → Index) : Piece → Piece
  | .fixed content => .fixed content
  | .slot hole => .slot (hole.renamed place)

@[simp]
theorem length_bytes_renamed (place : Index → Index) (piece : Piece) :
    (piece.renamed place).bytes.length = piece.bytes.length := by
  cases piece with
  | fixed content => rfl
  | slot hole => exact hole.length_bytes_renamed place

/-- The slots of pieces with their offsets, counted from a start. -/
def slotsFrom (start : Nat) : List Piece → List (Nat × Slot)
  | [] => []
  | .fixed content :: pieces => slotsFrom (start + content.length) pieces
  | .slot hole :: pieces => (start, hole) :: slotsFrom (start + hole.bytes.length) pieces

/-- A position is one of the bytes of a slot at an offset. -/
def Covers (slot : Nat × Slot) (position : Nat) : Prop := slot.1 ≤ position ∧ position < slot.1 + slot.2.bytes.length

variable {place : Index → Index}

theorem length_bytes_map_renamed (place : Index → Index) (pieces : List Piece) :
    ((pieces.map (renamed place)).flatMap bytes).length = (pieces.flatMap bytes).length := by
  induction pieces with
  | nil => rfl
  | cons piece pieces ih =>
    rw [List.map_cons, List.flatMap_cons, List.flatMap_cons, List.length_append, List.length_append, ih,
      length_bytes_renamed]

theorem slotsFrom_append (start : Nat) (earlier later : List Piece) :
    slotsFrom start (earlier ++ later) =
      slotsFrom start earlier ++ slotsFrom (start + (earlier.flatMap bytes).length) later := by
  induction earlier generalizing start with
  | nil => rfl
  | cons piece earlier ih =>
    cases piece with
    | fixed content =>
      rw [List.cons_append, slotsFrom, slotsFrom, ih, List.flatMap_cons, List.length_append, Nat.add_assoc]
      rfl
    | slot hole =>
      rw [List.cons_append, slotsFrom, slotsFrom, ih, List.flatMap_cons, List.length_append, Nat.add_assoc]
      rfl

theorem slotsFrom_renamed (place : Index → Index) (start : Nat) (pieces : List Piece) :
    slotsFrom start (pieces.map (renamed place)) =
      (slotsFrom start pieces).map fun slot => (slot.1, slot.2.renamed place) := by
  induction pieces generalizing start with
  | nil => rfl
  | cons piece pieces ih =>
    cases piece with
    | fixed content => exact ih _
    | slot hole =>
      rw [List.map_cons, renamed, slotsFrom, slotsFrom, List.map_cons, ih, hole.length_bytes_renamed]

/-- Every slot holds its bytes at its offset. -/
theorem take_bytes_of_mem_slotsFrom {start offset : Nat} {slot : Slot} {pieces : List Piece}
    (hmem : (offset, slot) ∈ slotsFrom start pieces) :
    ∃ skipped, offset = start + skipped ∧
      ((pieces.flatMap bytes).drop skipped).take slot.bytes.length = slot.bytes := by
  induction pieces generalizing start with
  | nil => cases hmem
  | cons piece pieces ih =>
    cases piece with
    | fixed content =>
      obtain ⟨skipped, rfl, hbytes⟩ := ih hmem
      refine ⟨content.length + skipped, Nat.add_assoc .., ?_⟩
      rw [List.flatMap_cons, Piece.bytes, List.drop_length_add_append]
      exact hbytes
    | slot first =>
      rcases List.mem_cons.1 hmem with heq | hlater
      · cases heq
        exact ⟨0, rfl, List.take_left⟩
      · obtain ⟨skipped, rfl, hbytes⟩ := ih hlater
        refine ⟨first.bytes.length + skipped, Nat.add_assoc .., ?_⟩
        rw [List.flatMap_cons, Piece.bytes, List.drop_length_add_append]
        exact hbytes

/-- Bytes outside of the slots stay as they are when the indices are renamed. -/
theorem getElem?_bytes_renamed (start : Nat) {position : Nat} {pieces : List Piece}
    (h : ∀ slot ∈ slotsFrom start pieces, ¬ Covers slot (start + position)) :
    ((pieces.map (renamed place)).flatMap bytes)[position]? = (pieces.flatMap bytes)[position]? := by
  induction pieces generalizing start position with
  | nil => rfl
  | cons piece pieces ih =>
    rw [List.map_cons, List.flatMap_cons, List.flatMap_cons]
    by_cases hfirst : position < piece.bytes.length
    · cases piece with
      | fixed content =>
        rw [renamed, List.getElem?_append_left hfirst, List.getElem?_append_left hfirst]
      | slot hole =>
        -- the position would be covered by the first slot
        refine absurd ⟨Nat.le_add_right start position, ?_⟩ (h (start, hole) List.mem_cons_self)
        exact Nat.add_lt_add_left hfirst start
    · have hle := Nat.le_of_not_lt hfirst
      have hlength := piece.length_bytes_renamed place
      rw [List.getElem?_append_right (by omega), List.getElem?_append_right hle, hlength]
      refine ih (start + piece.bytes.length) fun slot hmem => ?_
      rw [Nat.add_assoc, Nat.add_sub_cancel' hle]
      cases piece with
      | fixed content => exact h slot hmem
      | slot first => exact h slot (List.mem_cons_of_mem _ hmem)

end Piece

end ClassGraft
