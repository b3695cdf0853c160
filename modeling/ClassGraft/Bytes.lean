/-!
# Bytes and big-endian words

A byte string is a list of bytes, first byte first.  `bigEndian k n` writes the last `k` base-256 digits of `n`,
most significant first, and `ofBigEndian` reads such digits back: `ofBigEndian_bigEndian` and
`bigEndian_ofBigEndian` say that the two undo each other up to `256 ^ k`.  `cut n` takes exactly `n` bytes off the
front or refuses.
-/

namespace ClassGraft

/-- A byte string, first byte first. -/
abbrev Bytes := List UInt8

/-- The last `k` base-256 digits of `n`, most significant first. -/
def bigEndian : Nat → Nat → Bytes
  | 0, _ => []
  | k + 1, n => UInt8.ofNat (n / Nat.pow 256 k) :: bigEndian k n

/-- The number whose base-256 digits are `bs`, most significant first. -/
def ofBigEndian (bs : Bytes) : Nat :=
  bs.foldl (fun n b => 256 * n + b.toNat) 0

/-- Two bytes, the high one first. -/
def u16Bytes (w : UInt16) : Bytes := bigEndian 2 w.toNat

/-- Four bytes, the highest first. -/
def u32Bytes (w : UInt32) : Bytes := bigEndian 4 w.toNat

/-- Eight bytes, the highest first. -/
def u64Bytes (w : UInt64) : Bytes := bigEndian 8 w.toNat

/-- The length of a sequence as a two-byte count, which wraps at 65536. -/
def countBytes {α : Type} (xs : List α) : Bytes := bigEndian 2 xs.length

/-- A counted sequence: the two-byte count, then the elements one after the other. -/
def countedBytes {α : Type} (encode : α → Bytes) (xs : List α) : Bytes :=
  countBytes xs ++ xs.flatMap encode

/-- The first `n` bytes and the rest, or nothing when fewer than `n` are left. -/
def cut (n : Nat) (bs : Bytes) : Option (Bytes × Bytes) :=
  let (front, rest) := bs.splitAt n
  if front.length = n then some (front, rest) else none

theorem length_bigEndian (k n : Nat) : (bigEndian k n).length = k := by
  induction k with
  | zero => rfl
  | succ k ih => simp [bigEndian, ih]

private theorem pow_digits_succ (k : Nat) : Nat.pow 256 (k + 1) = Nat.pow 256 k * 256 := rfl

private theorem foldl_digits (bs : Bytes) (a : Nat) :
    bs.foldl (fun n b => 256 * n + b.toNat) a = a * Nat.pow 256 bs.length + ofBigEndian bs := by
  induction bs generalizing a with
  | nil => simp [ofBigEndian]
  | cons b bs ih =>
    simp only [ofBigEndian, List.foldl_cons, List.length_cons]
    rw [ih, ih (256 * 0 + b.toNat)]
    simp only [Nat.pow_eq, Nat.pow_succ, Nat.mul_zero, Nat.zero_add, Nat.add_mul]
    rw [Nat.mul_comm 256 a, Nat.mul_assoc a, Nat.mul_comm 256, Nat.add_assoc]

theorem ofBigEndian_cons (b : UInt8) (bs : Bytes) :
    ofBigEndian (b :: bs) = b.toNat * Nat.pow 256 bs.length + ofBigEndian bs := by
  have := foldl_digits bs (256 * 0 + b.toNat)
  simpa only [ofBigEndian, List.foldl_cons, Nat.mul_zero, Nat.zero_add] using this

theorem ofBigEndian_lt (bs : Bytes) : ofBigEndian bs < Nat.pow 256 bs.length := by
  induction bs with
  | nil => simp [ofBigEndian]
  | cons b bs ih =>
    rw [ofBigEndian_cons, List.length_cons, pow_digits_succ]
    have hb : b.toNat ≤ 255 := Nat.le_of_lt_succ b.toNat_lt
    have := Nat.mul_le_mul_right (Nat.pow 256 bs.length) hb
    omega

/-- Reading back what was written gives the number up to its last `k` digits. -/
theorem ofBigEndian_bigEndian (k n : Nat) : ofBigEndian (bigEndian k n) = n % Nat.pow 256 k := by
  induction k with
  | zero => simp [bigEndian, ofBigEndian, Nat.mod_one]
  | succ k ih =>
    rw [bigEndian, ofBigEndian_cons, length_bigEndian, ih, UInt8.toNat_ofNat', pow_digits_succ, Nat.mod_mul,
      Nat.mul_comm (Nat.pow 256 k), Nat.add_comm]

private theorem bigEndian_mod (k n m : Nat) (h : n % Nat.pow 256 k = m % Nat.pow 256 k) :
    bigEndian k n = bigEndian k m := by
  induction k with
  | zero => rfl
  | succ k ih =>
    rw [pow_digits_succ] at h
    have hk : n % Nat.pow 256 k = m % Nat.pow 256 k := by
      rw [← Nat.mod_mul_right_mod n _ 256, ← Nat.mod_mul_right_mod m _ 256, h]
    have hd : n / Nat.pow 256 k % 256 = m / Nat.pow 256 k % 256 := by
      rw [Nat.mod_mul, Nat.mod_mul, hk] at h
      exact Nat.eq_of_mul_eq_mul_left (Nat.pow_pos (by decide : 0 < 256)) (Nat.add_left_cancel h)
    rw [bigEndian, bigEndian, ih hk]
    congr 1
    exact UInt8.toNat_inj.1 (by simpa only [UInt8.toNat_ofNat'] using hd)

/-- Writing as many digits as were read gives the same bytes. -/
theorem bigEndian_ofBigEndian (bs : Bytes) : bigEndian bs.length (ofBigEndian bs) = bs := by
  induction bs with
  | nil => rfl
  | cons b bs ih =>
    have hp : 0 < Nat.pow 256 bs.length := Nat.pow_pos (by decide)
    rw [List.length_cons, bigEndian, ofBigEndian_cons]
    congr 1
    · rw [Nat.mul_comm, Nat.mul_add_div hp, Nat.div_eq_of_lt (ofBigEndian_lt bs), Nat.add_zero,
        UInt8.ofNat_toNat]
    · refine (bigEndian_mod _ _ (ofBigEndian bs) ?_).trans ih
      rw [Nat.add_comm, Nat.add_mul_mod_self_right]

/-- A cut succeeds exactly on a byte string that starts with `n` bytes, and gives those and the rest. -/
theorem cut_eq_some_iff {n : Nat} {bs front rest : Bytes} :
    cut n bs = some (front, rest) ↔ bs = front ++ rest ∧ front.length = n := by
  simp only [cut, List.splitAt_eq]
  constructor
  · intro h
    split at h
    · simp only [Option.some.injEq, Prod.mk.injEq] at h
      obtain ⟨rfl, rfl⟩ := h
      exact ⟨(List.take_append_drop n bs).symm, by assumption⟩
    · simp at h
  · rintro ⟨rfl, rfl⟩
    simp

theorem cut_append (front rest : Bytes) : cut front.length (front ++ rest) = some (front, rest) :=
  cut_eq_some_iff.2 ⟨rfl, rfl⟩

theorem cut_eq_none_iff {n : Nat} {bs : Bytes} : cut n bs = none ↔ bs.length < n := by
  simp only [cut, List.splitAt_eq]
  split
  · rename_i h
    simp only [reduceCtorEq, false_iff, Nat.not_lt]
    rw [List.length_take] at h
    omega
  · rename_i h
    simp only [true_iff]
    rw [List.length_take] at h
    omega

end ClassGraft
