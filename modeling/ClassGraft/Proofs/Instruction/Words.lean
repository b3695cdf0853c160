import ClassGraft.Proofs.Instruction.Tiles

/-!
# Lengths in words

The length of an instruction computed in words of 64 bits: offsets and lengths without a sign, the bounds of a switch
with one.  Each number that comes up has to fit into its word.  In a code array of fewer than `2 ^ 63` bytes, which is
as long as an array can be, all of them do, and the length is the one that unbounded numbers give
(`Instruction.fits_lengthInWords`).
-/

namespace ClassGraft

/-- A computation in words of 64 bits, which gives nothing at all when a number does not fit into its word. -/
abbrev InWords (α : Type) := ExceptT BytecodeError Option α

namespace InWords

/-- A number that has to fit into a word without a sign. -/
def word (n : Nat) : InWords Nat := ExceptT.lift (if n < 2 ^ 64 then some n else none)

/-- A difference that has to fit into a word without a sign. -/
def difference (m n : Nat) : InWords Nat := ExceptT.lift (if n ≤ m then some (m - n) else none)

/-- A number that has to fit into a word with a sign. -/
def signedWord (n : Int) : InWords Int := ExceptT.lift (if -2 ^ 63 ≤ n ∧ n < 2 ^ 63 then some n else none)

/-- The word without a sign that has the bits of a word with one. -/
def unsigned (n : Int) : Nat := (n % 2 ^ 64).toNat

/-- No number overflows, and the computation has the given outcome. -/
def Fits {α : Type} (x : InWords α) (outcome : Except BytecodeError α) : Prop := x.run = some outcome

variable {α β : Type}

theorem Fits.pure (a : α) : Fits (pure a) (.ok a) := rfl

theorem Fits.throw (error : BytecodeError) : Fits (throw error : InWords α) (.error error) := rfl

/-- A number that fits is handed on. -/
theorem Fits.next {x : InWords α} {f : α → InWords β} {a : α} {outcome : Except BytecodeError β}
    (hx : Fits x (.ok a)) (hf : Fits (f a) outcome) : Fits (x >>= f) outcome := by
  rw [Fits, ExceptT.run_bind, hx]
  exact hf

/-- Computations go on side by side after the same outcome. -/
theorem Fits.bind {x : InWords α} {f : α → InWords β} {outcome : Except BytecodeError α}
    {g : α → Except BytecodeError β} (hx : Fits x outcome) (hf : ∀ a, outcome = .ok a → Fits (f a) (g a)) :
    Fits (x >>= f) (outcome >>= g) := by
  cases outcome with
  | error error =>
    rw [Fits, ExceptT.run_bind, hx]
    rfl
  | ok a => exact hx.next (hf a rfl)

theorem fits_word {n : Nat} (h : n < 2 ^ 64) : Fits (word n) (.ok n) := by
  rw [Fits, word, if_pos h]
  rfl

theorem fits_difference {m n : Nat} (h : n ≤ m) : Fits (difference m n) (.ok (m - n)) := by
  rw [Fits, difference, if_pos h]
  rfl

theorem fits_signedWord {n : Int} (hlow : -2 ^ 63 ≤ n) (hhigh : n < 2 ^ 63) : Fits (signedWord n) (.ok n) := by
  rw [Fits, signedWord, if_pos ⟨hlow, hhigh⟩]
  rfl

theorem unsigned_eq {n : Int} (hlow : 0 ≤ n) (hhigh : n < 2 ^ 64) : unsigned n = n.toNat := by
  rw [unsigned, Int.emod_eq_of_lt hlow hhigh]

end InWords

namespace Instruction

open InWords

/-! ### Computing the length -/

/-- The number of bytes between the opcode of a switch and its operands. -/
def paddingInWords (offset : Nat) : InWords Nat := do
  let next ← word (offset + 1)
  let gap ← difference 4 (next % 4)
  return gap % 4

/-- The signed 32-bit number at a position, in the operands of the instruction at an offset. -/
def boundInWords (code : Bytes) (position offset : Nat) : InWords Int := do
  let stop ← word (position + 4)
  if stop ≤ code.length then return Int.bmod (ofBigEndian ((code.take stop).drop position)) 0x100000000
  else throw (.truncated offset)

/-- The length of a `tableswitch`. -/
def tableSwitchInWords (code : Bytes) (offset : Nat) : InWords Nat := do
  let padding ← paddingInWords offset
  let next ← word (offset + 1)
  let base ← word (next + padding)
  let low ← boundInWords code (← word (base + 4)) offset
  let high ← boundInWords code (← word (base + 8)) offset
  if high < low then throw (.badSwitchRange offset) else
    let start ← word (1 + padding)
    let fixed ← word (start + 12)
    let span ← signedWord (high - low)
    let targets ← signedWord (span + 1)
    let table ← word (unsigned targets * 4)
    word (fixed + table)

/-- The length of a `lookupswitch`. -/
def lookupSwitchInWords (code : Bytes) (offset : Nat) : InWords Nat := do
  let padding ← paddingInWords offset
  let next ← word (offset + 1)
  let base ← word (next + padding)
  let pairs ← boundInWords code (← word (base + 4)) offset
  if pairs < 0 then throw (.truncated offset) else
    let start ← word (1 + padding)
    let fixed ← word (start + 8)
    let table ← word (unsigned pairs * 8)
    word (fixed + table)

/-- The length of a widened instruction. -/
def widenedInWords (code : Bytes) (offset : Nat) : InWords Nat := do
  let next ← word (offset + 1)
  match code[next]? with
  | some opcode => return if opcode = 0x84 then 6 else 4
  | none => throw (.truncated offset)

/-- The length that an instruction with an opcode declares. -/
def declaredInWords (code : Bytes) (offset : Nat) (opcode : UInt8) : InWords Nat :=
  match shapeOf opcode with
  | .fixed length => pure length
  | .tableSwitch => tableSwitchInWords code offset
  | .lookupSwitch => lookupSwitchInWords code offset
  | .widened => widenedInWords code offset
  | .unknown => throw (.unknownOpcode opcode offset)

/-- The length of the instruction at an offset of a code array. -/
def lengthInWords (code : Bytes) (offset : Nat) : InWords Nat :=
  match code[offset]? with
  | none => throw (.truncated offset)
  | some opcode => do
    let length ← declaredInWords code offset opcode
    let stop ← word (offset + length)
    if code.length < stop then throw (.truncated offset) else return length

/-! ### No number overflows -/

variable {code : Bytes} {offset : Nat}

private theorem fits_paddingInWords (h : offset < 2 ^ 63) :
    Fits (paddingInWords offset) (.ok (switchPadding offset)) := by
  refine (fits_word (by omega)).next ((fits_difference ?_).next (.pure _))
  have := Nat.mod_lt (offset + 1) (by decide : 0 < 4)
  omega

/-- The outcome of reading a number in the operands of an instruction. -/
private def boundAt (bytes : Bytes) (start offset : Nat) : Except BytecodeError Int :=
  match signedWord? bytes start with
  | some n => .ok n
  | none => .error (.truncated offset)

private theorem fits_boundInWords {start position : Nat} (hposition : position = offset + start)
    (hfits : position + 4 < 2 ^ 64) :
    Fits (boundInWords code position offset) (boundAt (code.drop offset) start offset) := by
  refine (fits_word hfits).next ?_
  rw [boundAt, signedWord?, List.drop_drop, ← hposition]
  by_cases hstop : position + 4 ≤ code.length
  · have hcut : cut 4 (code.drop position) =
        some ((code.take (position + 4)).drop position, code.drop (position + 4)) := by
      rw [cut_eq_some_iff]
      constructor
      · rw [← List.drop_drop, List.drop_take, Nat.add_sub_cancel_left, List.take_append_drop]
      · rw [List.length_drop, List.length_take]
        omega
    rw [if_pos hstop, hcut]
    exact .pure _
  · have hcut : cut 4 (code.drop position) = none := by
      rw [cut_eq_none_iff, List.length_drop]
      omega
    rw [if_neg hstop, hcut]
    exact .throw _

private theorem boundAt_bounds {bytes : Bytes} {start : Nat} {n : Int} (h : boundAt bytes start offset = .ok n) :
    -2 ^ 31 ≤ n ∧ n < 2 ^ 31 := by
  rw [boundAt] at h
  split at h
  · rename_i found hfound
    cases h
    exact signedWord?_bounds hfound
  · cases h

private theorem tableSwitchLength_eq (offset : Nat) (bytes : Bytes) :
    tableSwitchLength offset bytes =
      boundAt bytes (1 + switchPadding offset + 4) offset >>= fun low =>
        boundAt bytes (1 + switchPadding offset + 8) offset >>= fun high =>
          if high < low then .error (.badSwitchRange offset)
          else .ok (1 + switchPadding offset + 12 + 4 * (high - low + 1).toNat) := by
  unfold tableSwitchLength boundAt
  dsimp only
  cases signedWord? bytes (1 + switchPadding offset + 4) with
  | none => rfl
  | some low =>
    cases signedWord? bytes (1 + switchPadding offset + 8) with
    | none => rfl
    | some high => rfl

private theorem lookupSwitchLength_eq (offset : Nat) (bytes : Bytes) :
    lookupSwitchLength offset bytes =
      boundAt bytes (1 + switchPadding offset + 4) offset >>= fun pairs =>
        if pairs < 0 then .error (.truncated offset) else .ok (1 + switchPadding offset + 8 + 8 * pairs.toNat) := by
  unfold lookupSwitchLength boundAt
  dsimp only
  cases signedWord? bytes (1 + switchPadding offset + 4) with
  | none => rfl
  | some pairs => rfl

private theorem fits_tableSwitchInWords (h : offset < 2 ^ 63) :
    Fits (tableSwitchInWords code offset) (tableSwitchLength offset (code.drop offset)) := by
  have hpadding := switchPadding_lt offset
  rw [tableSwitchLength_eq]
  refine (fits_paddingInWords h).next ((fits_word (by omega)).next ((fits_word (by omega)).next ?_))
  refine (fits_word (by omega)).next ((fits_boundInWords (by omega) (by omega)).bind fun low hlow => ?_)
  refine (fits_word (by omega)).next ((fits_boundInWords (by omega) (by omega)).bind fun high hhigh => ?_)
  have hlowBounds := boundAt_bounds hlow
  have hhighBounds := boundAt_bounds hhigh
  by_cases hrange : high < low
  · rw [if_pos hrange, if_pos hrange]
    exact .throw _
  · rw [if_neg hrange, if_neg hrange]
    refine (fits_word (by omega)).next ((fits_word (by omega)).next ?_)
    refine (fits_signedWord (by omega) (by omega)).next ((fits_signedWord (by omega) (by omega)).next ?_)
    rw [unsigned_eq (by omega) (by omega), Nat.mul_comm 4]
    exact (fits_word (by omega)).next (fits_word (by omega))

private theorem fits_lookupSwitchInWords (h : offset < 2 ^ 63) :
    Fits (lookupSwitchInWords code offset) (lookupSwitchLength offset (code.drop offset)) := by
  have hpadding := switchPadding_lt offset
  rw [lookupSwitchLength_eq]
  refine (fits_paddingInWords h).next ((fits_word (by omega)).next ((fits_word (by omega)).next ?_))
  refine (fits_word (by omega)).next ((fits_boundInWords (by omega) (by omega)).bind fun pairs hpairs => ?_)
  have hbounds := boundAt_bounds hpairs
  by_cases hrange : pairs < 0
  · rw [if_pos hrange, if_pos hrange]
    exact .throw _
  · rw [if_neg hrange, if_neg hrange]
    refine (fits_word (by omega)).next ((fits_word (by omega)).next ?_)
    rw [unsigned_eq (by omega) (by omega), Nat.mul_comm 8]
    exact (fits_word (by omega)).next (fits_word (by omega))

private theorem fits_widenedInWords {opcode : UInt8} {operands : Bytes} (hcode : code.length < 2 ^ 63)
    (hdrop : code.drop offset = opcode :: operands) (hlt : offset < code.length) :
    Fits (widenedInWords code offset) (widenedLength offset operands) := by
  have hnext : code[offset + 1]? = operands.head? := by
    rw [← List.getElem?_drop, hdrop, List.getElem?_cons_succ, List.head?_eq_getElem?]
  refine (fits_word (by omega)).next ?_
  rw [hnext]
  cases operands with
  | nil => exact .throw _
  | cons widened rest => exact .pure _

private theorem fits_declaredInWords {opcode : UInt8} {operands : Bytes} (hcode : code.length < 2 ^ 63)
    (hdrop : code.drop offset = opcode :: operands) (hlt : offset < code.length) :
    Fits (declaredInWords code offset opcode) (declaredLength offset (code.drop offset)) := by
  rw [declaredInWords, hdrop, declaredLength]
  cases shapeOf opcode with
  | fixed length => exact .pure _
  | tableSwitch =>
    rw [← hdrop]
    exact fits_tableSwitchInWords (by omega)
  | lookupSwitch =>
    rw [← hdrop]
    exact fits_lookupSwitchInWords (by omega)
  | widened => exact fits_widenedInWords hcode hdrop hlt
  | unknown => exact .throw _

/-- No number overflows in computing the length of an instruction, and the length is that of unbounded numbers. -/
theorem fits_lengthInWords (hcode : code.length < 2 ^ 63) (offset : Nat) :
    Fits (lengthInWords code offset) (lengthIn code offset) := by
  rw [lengthInWords, lengthIn, lengthAt]
  by_cases hlt : offset < code.length
  · have hdrop := List.drop_eq_getElem_cons hlt
    rw [List.getElem?_eq_getElem hlt]
    refine (fits_declaredInWords hcode hdrop hlt).bind fun length hlength => ?_
    obtain ⟨-, hle⟩ := declaredLength_bounds hlength
    refine (fits_word (by omega)).next ?_
    by_cases hshort : code.length < offset + length
    · have hcut : cut length (code.drop offset) = none := by
        rw [cut_eq_none_iff, List.length_drop]
        omega
      rw [if_pos hshort, hcut]
      exact .throw _
    · have hcut : (cut length (code.drop offset)).isSome = true := by
        rw [Option.isSome_iff_ne_none, Ne, cut_eq_none_iff, List.length_drop]
        omega
      rw [if_neg hshort, if_pos hcut]
      exact .pure _
  · rw [List.getElem?_eq_none (by omega), List.drop_eq_nil_of_le (by omega)]
    exact .throw _

end Instruction

end ClassGraft
