import ClassGraft.Proofs.Instruction.Words

/-!
# Walking a code array

The length of an instruction depends on its own bytes and on its offset modulo four, on which the padding of a switch
depends (`Instruction.lengthIn_of_slice_eq`).  A walk finds instructions that stand one behind the other from the start
of the array on, up to its end or to the first of these offsets at which there is no instruction
(`Instruction.walk_by_lengths`).
-/

namespace ClassGraft

namespace BytecodeError

/-- The offset that a bytecode error tells. -/
def offset : BytecodeError → Nat
  | unknownOpcode _ offset => offset
  | truncated offset => offset
  | badSwitchRange offset => offset

/-- The same error at another offset. -/
def movedTo (start : Nat) : BytecodeError → BytecodeError
  | unknownOpcode opcode _ => unknownOpcode opcode start
  | truncated _ => truncated start
  | badSwitchRange _ => badSwitchRange start

theorem offset_movedTo (start : Nat) (error : BytecodeError) : (error.movedTo start).offset = start := by
  cases error <;> rfl

end BytecodeError

namespace Instruction

/-! ### Instructions at other offsets -/

variable {offset start length : Nat}

private theorem switchPadding_eq (h : start % 4 = offset % 4) : switchPadding start = switchPadding offset := by
  unfold switchPadding
  omega

/-- The same bytes declare the same length at every offset that leaves the same padding, or the same error there. -/
theorem declaredLength_moved (h : start % 4 = offset % 4) (bytes : Bytes) :
    declaredLength start bytes = (declaredLength offset bytes).mapError (·.movedTo start) := by
  cases bytes with
  | nil => rfl
  | cons opcode operands =>
    rw [declaredLength, declaredLength]
    cases shapeOf opcode with
    | fixed size => rfl
    | tableSwitch =>
      dsimp only [tableSwitchLength]
      rw [switchPadding_eq h]
      split
      · split <;> rfl
      · rfl
    | lookupSwitch =>
      dsimp only [lookupSwitchLength]
      rw [switchPadding_eq h]
      split
      · split <;> rfl
      · rfl
    | widened => cases operands <;> rfl
    | unknown => rfl

theorem lengthAt_moved (h : start % 4 = offset % 4) (bytes : Bytes) :
    lengthAt start bytes = (lengthAt offset bytes).mapError (·.movedTo start) := by
  rw [lengthAt, lengthAt, declaredLength_moved h]
  cases declaredLength offset bytes with
  | error error => rfl
  | ok length =>
    change (if (cut length bytes).isSome then _ else _) =
      Except.mapError _ (if (cut length bytes).isSome then _ else _)
    split <;> rfl

/-- An error tells the offset at which there is no instruction. -/
theorem offset_of_lengthAt {bytes : Bytes} {error : BytecodeError} (h : lengthAt offset bytes = .error error) :
    error.offset = offset := by
  have hmoved := @lengthAt_moved offset offset rfl bytes
  rw [h] at hmoved
  rw [Except.error.inj hmoved, BytecodeError.offset_movedTo]

/-- An instruction has the same length wherever the same bytes stand at an offset that leaves the same padding. -/
theorem lengthIn_of_slice_eq {code other : Bytes} (h : lengthIn code offset = .ok length)
    (hmod : start % 4 = offset % 4) (hslice : (other.drop start).take length = (code.drop offset).take length) :
    lengthIn other start = .ok length := by
  refine lengthAt_of_take_eq ?_ hslice
  rw [lengthIn] at h
  rw [lengthAt_moved hmod, h]
  rfl

/-! ### The course of a walk -/

/-- Instructions stand in a code array one behind the other, from an offset up to another one. -/
inductive Follow (code : Bytes) : Nat → List Instruction → Nat → Prop
  | nil (offset : Nat) : Follow code offset [] offset
  | cons {offset length last : Nat} {opcode : UInt8} {rest : List Instruction}
      (hopcode : code[offset]? = some opcode) (hlength : lengthIn code offset = .ok length)
      (hrest : Follow code (offset + length) rest last) : Follow code offset (⟨offset, opcode, length⟩ :: rest) last

/-- A walk ends at an offset: at the end of the code array, or where there is no instruction. -/
def EndsAt (code : Bytes) (stop : Option BytecodeError) (last : Nat) : Prop :=
  stop = none ∧ last = code.length ∨
    ∃ error, stop = some error ∧ last < code.length ∧ lengthIn code last = .error error ∧ error.offset = last

theorem Follow.length_pos {code : Bytes} {instructions : List Instruction} {first last : Nat}
    (h : Follow code first instructions last) : ∀ instruction ∈ instructions, 1 ≤ instruction.length := by
  induction h with
  | nil => exact List.forall_mem_nil _
  | cons _ hlength _ ih => exact List.forall_mem_cons.2 ⟨declaredLength_pos (lengthAt_eq_ok_iff.1 hlength).1, ih⟩

private theorem follow_walkOnto {code bytes : Bytes} {found : List Instruction} (hbytes : code.drop offset = bytes)
    (hoffset : offset ≤ code.length) : ∃ instructions last,
      (walkOnto offset bytes found).instructions = found.reverse ++ instructions ∧
      Follow code offset instructions last ∧ EndsAt code (walkOnto offset bytes found).stop last := by
  fun_induction walkOnto offset bytes found with
  | case1 offset found =>
    refine ⟨[], offset, (List.append_nil _).symm, .nil offset, .inl ⟨rfl, ?_⟩⟩
    exact Nat.le_antisymm hoffset (List.drop_eq_nil_iff.1 hbytes)
  | case2 offset found opcode operands stop hlength =>
    have hlt : offset < code.length := by
      rw [← Nat.not_le, ← List.drop_eq_nil_iff, hbytes]
      exact List.cons_ne_nil _ _
    refine ⟨[], offset, (List.append_nil _).symm, .nil offset, .inr ⟨stop, rfl, hlt, ?_, offset_of_lengthAt hlength⟩⟩
    rw [lengthIn, hbytes, hlength]
  | case3 offset found opcode operands length hlength ih =>
    obtain ⟨hdeclared, hle⟩ := lengthAt_eq_ok_iff.1 hlength
    have hpos := declaredLength_pos hdeclared
    have hsize : code.length - offset = (opcode :: operands).length := by
      rw [← hbytes, List.length_drop]
    have hopcode : code[offset]? = some opcode := by
      rw [← Nat.add_zero offset, ← List.getElem?_drop, hbytes]
      rfl
    have hnext : code.drop (offset + length) = operands.drop (length - 1) := by
      rw [← List.drop_drop, hbytes, List.drop_cons hpos]
    obtain ⟨instructions, last, hfound, hfollow, hends⟩ := ih hnext (by omega)
    refine ⟨⟨offset, opcode, length⟩ :: instructions, last, ?_, .cons hopcode ?_ hfollow, hends⟩
    · rw [hfound, List.reverse_cons, List.append_assoc]
      rfl
    · rw [lengthIn, hbytes, hlength]

/-- A walk finds instructions, each of at least one byte, that stand one behind the other from the start of the code
array on, up to its end or to an offset with no instruction, which the error tells.  No number overflows in computing a
length in an array that is not longer than arrays can be, and the length depends on the bytes of the instruction and on
its offset modulo four alone. -/
theorem walk_by_lengths (code : Bytes) :
    (∃ last, Follow code 0 (walk code).instructions last ∧ EndsAt code (walk code).stop last) ∧
    (∀ instruction ∈ (walk code).instructions, 1 ≤ instruction.length) ∧
    (code.length < 2 ^ 63 → ∀ offset, InWords.Fits (lengthInWords code offset) (lengthIn code offset)) ∧
    ∀ offset length, lengthIn code offset = .ok length → ∀ (other : Bytes) (start : Nat), start % 4 = offset % 4 →
      (other.drop start).take length = (code.drop offset).take length → lengthIn other start = .ok length := by
  obtain ⟨instructions, last, hfound, hfollow, hends⟩ :=
    @follow_walkOnto 0 code code [] List.drop_zero (Nat.zero_le _)
  rw [List.reverse_nil, List.nil_append] at hfound
  rw [walk, hfound]
  exact ⟨⟨last, hfollow, hends⟩, hfollow.length_pos, fits_lengthInWords,
    fun offset length h other start => lengthIn_of_slice_eq h⟩

/-- A `nop`, a `tableswitch` with two targets behind two bytes of padding, and an opcode that there is none of. -/
def switchingCode : Bytes :=
  [0x00, 0xAA, 0, 0, 0, 0, 0, 0, 0, 0, 0, 1, 0, 0, 0, 2, 0, 0, 0, 0, 0, 0, 0, 0, 0xCB]

/-- A `tableswitch` over all numbers of 32 bits, without its targets. -/
def boundlessCode : Bytes := [0xAA, 0, 0, 0, 0, 0, 0, 0, 0x80, 0, 0, 0, 0x7F, 0xFF, 0xFF, 0xFF]

/-- A walk goes over a switch and ends behind it.  The switch has the same length four bytes further on, and one with
the widest bounds makes no number overflow. -/
theorem walk_by_lengths_switching :
    (walk switchingCode).instructions = [⟨0, 0x00, 1⟩, ⟨1, 0xAA, 23⟩] ∧
      Follow switchingCode 0 [⟨0, 0x00, 1⟩, ⟨1, 0xAA, 23⟩] 24 ∧
      EndsAt switchingCode (some (.unknownOpcode 0xCB 24)) 24 ∧
      lengthIn (0x00 :: 0x00 :: 0x00 :: 0x00 :: switchingCode) 5 = .ok 23 ∧
      boundlessCode.length < 2 ^ 63 ∧ InWords.Fits (lengthInWords boundlessCode 0) (.error (.truncated 0)) := by
  have hwalk : walk switchingCode = ⟨[⟨0, 0x00, 1⟩, ⟨1, 0xAA, 23⟩], some (.unknownOpcode 0xCB 24)⟩ := by
    decide +kernel
  have hswitch : lengthIn switchingCode 1 = .ok 23 := by decide +kernel
  have hboundless : lengthIn boundlessCode 0 = .error (.truncated 0) := by decide +kernel
  obtain ⟨⟨last, hfollow, hends⟩, -, -, hlocal⟩ := walk_by_lengths switchingCode
  obtain ⟨-, -, hfits, -⟩ := walk_by_lengths boundlessCode
  rw [hwalk] at hfollow hends
  obtain rfl : last = 24 := by
    rcases hends with ⟨hnone, -⟩ | ⟨error, herror, -, -, hoffset⟩
    · cases hnone
    · cases herror
      exact hoffset.symm
  refine ⟨by rw [hwalk], hfollow, hends, hlocal 1 23 hswitch _ 5 rfl rfl, by decide, ?_⟩
  rw [← hboundless]
  exact hfits (by decide) 0

end Instruction

end ClassGraft
