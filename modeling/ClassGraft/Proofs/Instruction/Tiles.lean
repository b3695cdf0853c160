import ClassGraft.Instruction
import ClassGraft.Proofs.Codec.Reading
import Mathlib.Algebra.Group.Int.Defs
import Mathlib.Algebra.Group.Nat.Defs
import Mathlib.Data.List.Basic

/-!
# Code arrays as instructions with their bytes

The length of an instruction depends on the bytes of this length only (`Instruction.lengthAt_of_take_eq`), so an
instruction has the same length whatever follows it.  A walk that does not stop early finds instructions that tile the
code array, and whatever instructions tile a code array are found by the walk (`Instruction.walk_eq_iff`).  So a walk
decides whether instructions make up a code array (`Instruction.stop_walk_eq_none_iff`).
-/

namespace ClassGraft.Instruction

/-! ### The length of an instruction -/

private theorem shapeOf_mem : ∀ opcode, shapeOf opcode ∈
    [.fixed 1, .fixed 2, .fixed 3, .fixed 4, .fixed 5, .tableSwitch, .lookupSwitch, .widened, .unknown] :=
  forall_byte (by decide +kernel)

theorem switchPadding_lt (offset : Nat) : switchPadding offset < 4 := Nat.mod_lt _ (by decide)

/-- A number in the operands of an instruction has 32 bits. -/
theorem signedWord?_bounds {bytes : Bytes} {start : Nat} {n : Int} (h : signedWord? bytes start = some n) :
    -2 ^ 31 ≤ n ∧ n < 2 ^ 31 := by
  obtain ⟨word, -, rfl⟩ := Option.map_eq_some_iff.1 h
  have hlow := @Int.le_bmod (ofBigEndian word.1) 0x100000000 (by decide)
  have hhigh := @Int.bmod_lt (ofBigEndian word.1) 0x100000000 (by decide)
  dsimp only
  omega

section Length

variable {offset length : Nat} {bytes operands other : Bytes}

private theorem tableSwitchLength_eq_ok_iff : tableSwitchLength offset bytes = .ok length ↔
    ∃ low high, signedWord? bytes (1 + switchPadding offset + 4) = some low ∧
      signedWord? bytes (1 + switchPadding offset + 8) = some high ∧ low ≤ high ∧
      length = 1 + switchPadding offset + 12 + 4 * (high - low + 1).toNat := by
  dsimp only [tableSwitchLength]
  constructor
  · intro h
    split at h
    · rename_i low high hlow hhigh
      split at h
      · cases h
      · rename_i hrange
        exact ⟨low, high, hlow, hhigh, Int.not_lt.1 hrange, (Except.ok.inj h).symm⟩
    · cases h
  · rintro ⟨low, high, hlow, hhigh, hrange, rfl⟩
    rw [hlow, hhigh]
    exact if_neg (Int.not_lt.2 hrange)

private theorem lookupSwitchLength_eq_ok_iff : lookupSwitchLength offset bytes = .ok length ↔
    ∃ pairs, signedWord? bytes (1 + switchPadding offset + 4) = some pairs ∧ 0 ≤ pairs ∧
      length = 1 + switchPadding offset + 8 + 8 * pairs.toNat := by
  dsimp only [lookupSwitchLength]
  constructor
  · intro h
    split at h
    · rename_i pairs hpairs
      split at h
      · cases h
      · rename_i hrange
        exact ⟨pairs, hpairs, Int.not_lt.1 hrange, (Except.ok.inj h).symm⟩
    · cases h
  · rintro ⟨pairs, hpairs, hrange, rfl⟩
    rw [hpairs]
    exact if_neg (Int.not_lt.2 hrange)

private theorem widenedLength_eq_ok_iff : widenedLength offset operands = .ok length ↔
    ∃ opcode, operands.head? = some opcode ∧ length = if opcode = 0x84 then 6 else 4 := by
  cases operands with
  | nil => simp [widenedLength]
  | cons opcode rest => simp [widenedLength, eq_comm]

private theorem widened_bounds (opcode : UInt8) : 4 ≤ (if opcode = 0x84 then 6 else 4) ∧
    (if opcode = 0x84 then 6 else 4) ≤ 6 := by
  split <;> decide

/-- An instruction has at least its opcode, and the longest one is a `tableswitch` over all numbers of 32 bits. -/
theorem declaredLength_bounds (h : declaredLength offset bytes = .ok length) :
    0 < length ∧ length ≤ 16 + 4 * 2 ^ 32 := by
  have hpadding := switchPadding_lt offset
  cases bytes with
  | nil => cases h
  | cons opcode operands =>
    have hmem := shapeOf_mem opcode
    rw [declaredLength] at h
    cases hshape : shapeOf opcode with
    | fixed size =>
      rw [hshape] at h hmem
      obtain rfl : size = length := Except.ok.inj h
      simp only [List.mem_cons, Shape.fixed.injEq, reduceCtorEq, List.not_mem_nil, or_false] at hmem
      omega
    | tableSwitch =>
      rw [hshape] at h
      obtain ⟨low, high, hlow, hhigh, -, rfl⟩ := tableSwitchLength_eq_ok_iff.1 h
      have hlowBounds := signedWord?_bounds hlow
      have hhighBounds := signedWord?_bounds hhigh
      omega
    | lookupSwitch =>
      rw [hshape] at h
      obtain ⟨pairs, hpairs, -, rfl⟩ := lookupSwitchLength_eq_ok_iff.1 h
      have hbounds := signedWord?_bounds hpairs
      omega
    | widened =>
      rw [hshape] at h
      obtain ⟨widened, -, rfl⟩ := widenedLength_eq_ok_iff.1 h
      have hbounds := widened_bounds widened
      omega
    | unknown =>
      rw [hshape] at h
      cases h

theorem declaredLength_pos (h : declaredLength offset bytes = .ok length) : 0 < length := (declaredLength_bounds h).1

theorem lengthAt_eq_ok_iff : lengthAt offset bytes = .ok length ↔
    declaredLength offset bytes = .ok length ∧ length ≤ bytes.length := by
  rw [lengthAt]
  cases declaredLength offset bytes with
  | error error =>
    constructor
    · intro h
      cases h
    · rintro ⟨h, -⟩
      cases h
  | ok declared =>
    change (if (cut declared bytes).isSome then _ else _) = _ ↔ _
    cases hcut : cut declared bytes with
    | none =>
      rw [cut_eq_none_iff] at hcut
      constructor
      · intro h
        cases h
      · rintro ⟨h, hle⟩
        cases h
        omega
    | some found =>
      obtain ⟨front, rest⟩ := found
      obtain ⟨rfl, rfl⟩ := cut_eq_some_iff.1 hcut
      constructor
      · intro h
        cases h
        exact ⟨rfl, by simp⟩
      · rintro ⟨h, -⟩
        cases h
        rfl

private theorem signedWord?_of_take_eq {start : Nat} (hlength : start + 4 ≤ length)
    (htake : other.take length = bytes.take length) : signedWord? other start = signedWord? bytes start := by
  have hword : ∀ bs : Bytes, signedWord? bs start =
      if ((bs.drop start).take 4).length = 4 then
        some (Int.bmod (ofBigEndian ((bs.drop start).take 4)) 0x100000000)
      else none := by
    intro bs
    simp only [signedWord?, cut, List.splitAt_eq]
    split <;> rfl
  have hfront : ∀ bs : Bytes, (bs.drop start).take 4 = ((bs.take length).drop start).take 4 := by
    intro bs
    rw [List.drop_take, List.take_take, Nat.min_eq_left (by omega)]
  rw [hword, hword, hfront other, hfront bytes, htake]

/-- The bounds of a switch lie within the length that they give. -/
private theorem tableSwitchLength_of_take_eq (h : tableSwitchLength offset bytes = .ok length)
    (htake : other.take length = bytes.take length) : tableSwitchLength offset other = .ok length := by
  obtain ⟨low, high, hlow, hhigh, hrange, hlength⟩ := tableSwitchLength_eq_ok_iff.1 h
  refine tableSwitchLength_eq_ok_iff.2 ⟨low, high, ?_, ?_, hrange, hlength⟩
  · rw [signedWord?_of_take_eq (by omega) htake, hlow]
  · rw [signedWord?_of_take_eq (by omega) htake, hhigh]

private theorem lookupSwitchLength_of_take_eq (h : lookupSwitchLength offset bytes = .ok length)
    (htake : other.take length = bytes.take length) : lookupSwitchLength offset other = .ok length := by
  obtain ⟨pairs, hpairs, hrange, hlength⟩ := lookupSwitchLength_eq_ok_iff.1 h
  refine lookupSwitchLength_eq_ok_iff.2 ⟨pairs, ?_, hrange, hlength⟩
  rw [signedWord?_of_take_eq (by omega) htake, hpairs]

private theorem widenedLength_of_take_eq (h : widenedLength offset operands = .ok length)
    (htake : other.take (length - 1) = operands.take (length - 1)) : widenedLength offset other = .ok length := by
  obtain ⟨opcode, hopcode, hlength⟩ := widenedLength_eq_ok_iff.1 h
  have hbounds := widened_bounds opcode
  have hpos : length - 1 ≠ 0 := by omega
  have hfirst := congrArg List.head? htake
  rw [List.head?_take, List.head?_take, if_neg hpos, if_neg hpos] at hfirst
  exact widenedLength_eq_ok_iff.2 ⟨opcode, hfirst.trans hopcode, hlength⟩

/-- The length of an instruction depends on the bytes of this length only. -/
theorem lengthAt_of_take_eq (h : lengthAt offset bytes = .ok length)
    (htake : other.take length = bytes.take length) : lengthAt offset other = .ok length := by
  obtain ⟨hdeclared, hle⟩ := lengthAt_eq_ok_iff.1 h
  have hpos := declaredLength_pos hdeclared
  have hlengths := congrArg List.length htake
  rw [List.length_take, List.length_take, Nat.min_eq_left hle] at hlengths
  refine lengthAt_eq_ok_iff.2 ⟨?_, by omega⟩
  obtain ⟨size, rfl⟩ : ∃ size, length = size + 1 := ⟨length - 1, by omega⟩
  cases bytes with
  | nil => cases hdeclared
  | cons opcode operands =>
    cases other with
    | nil =>
      rw [List.length_nil] at hlengths
      omega
    | cons opcode' operands' =>
      obtain ⟨rfl, hoperands⟩ := List.cons.inj htake
      rw [declaredLength] at hdeclared ⊢
      cases hshape : shapeOf opcode' with
      | fixed length =>
        rw [hshape] at hdeclared
        exact hdeclared
      | tableSwitch =>
        rw [hshape] at hdeclared
        exact tableSwitchLength_of_take_eq hdeclared htake
      | lookupSwitch =>
        rw [hshape] at hdeclared
        exact lookupSwitchLength_of_take_eq hdeclared htake
      | widened =>
        rw [hshape] at hdeclared
        exact widenedLength_of_take_eq hdeclared hoperands
      | unknown =>
        rw [hshape] at hdeclared
        cases hdeclared

end Length

/-! ### Instructions with their bytes -/

/-- The bytes of an instruction in a code array. -/
def bytesIn (code : Bytes) (instruction : Instruction) : Bytes :=
  (code.toArray.extract instruction.offset (instruction.offset + instruction.length)).toList

/-- An instruction and its bytes. -/
inductive Tile : Instruction × Bytes → Prop
  | intro {offset : Nat} {opcode : UInt8} {operands : Bytes}
      (hlength : lengthAt offset (opcode :: operands) = .ok (operands.length + 1)) :
      Tile (⟨offset, opcode, operands.length + 1⟩, opcode :: operands)

/-- Instructions follow one another from an offset on, each with its bytes. -/
inductive Tiles : Nat → List (Instruction × Bytes) → Prop
  | nil (offset : Nat) : Tiles offset []
  | cons {tile : Instruction × Bytes} {tiles : List (Instruction × Bytes)} (htile : Tile tile)
      (htiles : Tiles (tile.1.offset + tile.2.length) tiles) : Tiles tile.1.offset (tile :: tiles)

variable {offset : Nat} {tiles : List (Instruction × Bytes)}

theorem Tiles.tile (h : Tiles offset tiles) : ∀ tile ∈ tiles, Tile tile := by
  induction h with
  | nil => exact fun tile hmem => by cases hmem
  | cons htile _ ih => exact List.forall_mem_cons.2 ⟨htile, ih⟩

private theorem Tiles.bytesIn_of_drop {code : Bytes} (h : Tiles offset tiles)
    (hcode : code.drop offset = tiles.flatMap Prod.snd) :
    ∀ tile ∈ tiles, Instruction.bytesIn code tile.1 = tile.2 := by
  induction h with
  | nil => exact fun tile hmem => by cases hmem
  | @cons tile tiles htile _ ih =>
    refine List.forall_mem_cons.2 ⟨?_, ih ?_⟩
    · obtain ⟨hlength⟩ := htile
      simp [Instruction.bytesIn, hcode]
    · rw [← List.drop_drop, hcode, List.flatMap_cons, List.drop_left]

/-- The bytes that an instruction comes with are those that it has in the code array. -/
theorem Tiles.bytesIn (h : Tiles 0 tiles) :
    ∀ tile ∈ tiles, Instruction.bytesIn (tiles.flatMap Prod.snd) tile.1 = tile.2 :=
  h.bytesIn_of_drop rfl

/-- Instructions that follow one another are found by a walk. -/
theorem walkOnto_of_tiles (h : Tiles offset tiles) (found : List Instruction) :
    walkOnto offset (tiles.flatMap Prod.snd) found = ⟨found.reverse ++ tiles.map Prod.fst, none⟩ := by
  induction h generalizing found with
  | nil offset => rw [List.flatMap_nil, walkOnto, List.map_nil, List.append_nil]
  | @cons tile tiles htile _ ih =>
    obtain @⟨offset, opcode, operands, hlength⟩ := htile
    have hfirst : lengthAt offset (opcode :: (operands ++ tiles.flatMap Prod.snd)) = .ok (operands.length + 1) :=
      lengthAt_of_take_eq hlength (by simp)
    have hrest : (operands ++ tiles.flatMap Prod.snd).drop (operands.length + 1 - 1) = tiles.flatMap Prod.snd := by
      rw [Nat.add_sub_cancel, List.drop_left]
    rw [List.flatMap_cons, List.cons_append, walkOnto, hfirst]
    dsimp only
    rw [hrest]
    refine (ih _).trans ?_
    simp

/-- The instructions that a walk finds, when it does not stop early, follow one another and make up the bytes. -/
theorem exists_tiles_of_walkOnto {bytes : Bytes} {found : List Instruction}
    (hstop : (walkOnto offset bytes found).stop = none) :
    ∃ tiles, Tiles offset tiles ∧ (walkOnto offset bytes found).instructions = found.reverse ++ tiles.map Prod.fst ∧
      tiles.flatMap Prod.snd = bytes := by
  induction offset, bytes, found using walkOnto.induct with
  | case1 offset found =>
    refine ⟨[], .nil offset, ?_, rfl⟩
    rw [walkOnto, List.map_nil, List.append_nil]
  | case2 offset found opcode operands stop hlength =>
    rw [walkOnto, hlength] at hstop
    cases hstop
  | case3 offset found opcode operands length hlength ih =>
    obtain ⟨hdeclared, hle⟩ := lengthAt_eq_ok_iff.1 hlength
    have hpos := declaredLength_pos hdeclared
    rw [List.length_cons] at hle
    obtain ⟨size, rfl⟩ : ∃ size, length = size + 1 := ⟨length - 1, by omega⟩
    rw [walkOnto, hlength] at hstop ⊢
    obtain ⟨tiles, htiles, hfound, hbytes⟩ := ih hstop
    -- The instruction has the same length without the bytes that follow it.
    have hsize : (operands.take size).length = size := by
      rw [List.length_take, Nat.min_eq_left (by omega)]
    have hfirst : lengthAt offset (opcode :: operands.take size) = .ok ((operands.take size).length + 1) := by
      rw [hsize]
      refine lengthAt_of_take_eq hlength ?_
      rw [List.take_succ_cons, List.take_succ_cons, List.take_take, Nat.min_self]
    have hnext : Tiles (offset + (opcode :: operands.take size).length) tiles := by
      rw [List.length_cons, hsize]
      exact htiles
    refine ⟨_, .cons (.intro hfirst) hnext, ?_, ?_⟩
    · dsimp only
      rw [hfound, hsize]
      simp
    · rw [List.flatMap_cons, hbytes, Nat.add_sub_cancel, List.cons_append, List.take_append_drop]

/-- A walk finds some instructions and does not stop early exactly when they tile the code array. -/
theorem walk_eq_iff {code : Bytes} {instructions : List Instruction} :
    walk code = ⟨instructions, none⟩ ↔
      ∃ tiles, Tiles 0 tiles ∧ tiles.map Prod.fst = instructions ∧ tiles.flatMap Prod.snd = code := by
  constructor
  · intro h
    obtain ⟨tiles, htiles, hfound, hcode⟩ := @exists_tiles_of_walkOnto 0 code [] (congrArg Walk.stop h)
    refine ⟨tiles, htiles, ?_, hcode⟩
    exact hfound.symm.trans (congrArg Walk.instructions h)
  · rintro ⟨tiles, htiles, rfl, rfl⟩
    exact walkOnto_of_tiles htiles []

/-- Instructions with their bytes make up a code array, from its start to its end. -/
def Tiled (code : Bytes) : Prop := ∃ tiles, Tiles 0 tiles ∧ tiles.flatMap Prod.snd = code

/-- A walk stops early exactly when no instructions make up the code array. -/
theorem stop_walk_eq_none_iff {code : Bytes} : (walk code).stop = none ↔ Tiled code := by
  constructor
  · intro hstop
    obtain ⟨tiles, htiles, -, hcode⟩ := exists_tiles_of_walkOnto hstop
    exact ⟨tiles, htiles, hcode⟩
  · rintro ⟨tiles, htiles, hcode⟩
    exact congrArg Walk.stop (walk_eq_iff.2 ⟨tiles, htiles, rfl, hcode⟩)

theorem Tiles.walk_eq (h : Tiles 0 tiles) : walk (tiles.flatMap Prod.snd) = ⟨tiles.map Prod.fst, none⟩ :=
  walk_eq_iff.2 ⟨tiles, h, rfl, rfl⟩

/-- When a walk does not stop early, its instructions put together are the code array. -/
theorem walk_tiles {code : Bytes} (h : (walk code).stop = none) :
    (walk code).instructions.flatMap (bytesIn code) = code := by
  obtain ⟨tiles, htiles, hfound, rfl⟩ := exists_tiles_of_walkOnto h
  rw [walk, hfound, List.reverse_nil, List.nil_append, List.flatMap_map]
  exact List.flatMap_congr htiles.bytesIn

end ClassGraft.Instruction
