import ClassGraft.Hex
import Mathlib.Data.List.Basic
import Mathlib.Data.List.Induction

/-!
# Reading hex text

Bytes are the values of the pairs of digits that show them, in either case (`Hex.pairs_show_iff`).  Strict reading
accepts the texts that show bytes and hold nothing else but blanks.  Of another text it tells the first character that
is no digit or, when all are digits, their odd number.  Lenient reading gives a byte for every two characters, which
depends on these two alone (`Hex.decode_by_pairs`).
-/

namespace ClassGraft.Hex

/-- The digits in order of their values, in either case. -/
def digitTables : List String := ["0123456789abcdef", "0123456789ABCDEF"]

/-- The character is a digit of a value. -/
def IsDigitOf (c : Char) (value : Nat) : Prop := ∃ table ∈ digitTables, table.toList[value]? = some c

/-- The character is a hexadecimal digit. -/
def IsDigit (c : Char) : Prop := ∃ value, IsDigitOf c value

/-- Characters that differ at most in the case of letters. -/
def SameUpToCase (chars others : List Char) : Prop := chars.map Char.toLower = others.map Char.toLower

/-- The first of some characters that is no digit, with its position. -/
def FirstNonDigit (chars : List Char) (position : Nat) (found : Char) : Prop :=
  chars[position]? = some found ∧ ¬IsDigit found ∧ ∀ c ∈ chars.take position, IsDigit c

/-- The byte that lenient reading gives for a pair. -/
def pairByte (pair : Char × Char) : UInt8 := (pairValue? pair).getD 0

/-! ### Digits -/

section Digits

variable {c : Char} {value : Nat}

theorem IsDigitOf.lt (h : IsDigitOf c value) : value < 16 := by
  obtain ⟨table, htable, hc⟩ := h
  have hlength : ∀ table ∈ digitTables, table.toList.length = 16 := by decide
  rw [← hlength table htable]
  exact (List.getElem?_eq_some_iff.1 hc).1

private theorem isDigitOf_ofNat {first count start : Nat}
    (htables : ∀ k < count, ∃ table ∈ digitTables, table.toList[start + k]? = some (Char.ofNat (first + k)))
    (hfirst : first ≤ c.toNat) (hcount : c.toNat < first + count) : IsDigitOf c (start + (c.toNat - first)) := by
  have hc : Char.ofNat (first + (c.toNat - first)) = c := by
    rw [Nat.add_sub_cancel' hfirst, Char.ofNat_toNat]
  have hdigit := htables (c.toNat - first) (by omega)
  rw [hc] at hdigit
  exact hdigit

/-- The value of a digit is its place in the table. -/
theorem digitValue?_eq_some_iff : digitValue? c = some value ↔ IsDigitOf c value := by
  constructor
  · intro h
    simp only [digitValue?, Bool.and_eq_true, decide_eq_true_eq, Char.le_def, UInt32.le_iff_toNat_le] at h
    split at h
    · rename_i hrange
      obtain rfl := Option.some.inj h
      have hdigit := @isDigitOf_ofNat c 48 10 0 (by decide) hrange.1 (Nat.lt_succ_of_le hrange.2)
      rwa [Nat.zero_add] at hdigit
    split at h
    · rename_i hrange
      obtain rfl := Option.some.inj h
      rw [Nat.add_comm]
      exact @isDigitOf_ofNat c 97 6 10 (by decide) hrange.1 (Nat.lt_succ_of_le hrange.2)
    split at h
    · rename_i hrange
      obtain rfl := Option.some.inj h
      rw [Nat.add_comm]
      exact @isDigitOf_ofNat c 65 6 10 (by decide) hrange.1 (Nat.lt_succ_of_le hrange.2)
    · cases h
  · intro h
    have hlt := h.lt
    obtain ⟨table, htable, hc⟩ := h
    have hall : ∀ table ∈ digitTables, ∀ value < 16, table.toList[value]?.bind digitValue? = some value := by decide
    have hvalue := hall table htable value hlt
    rwa [hc] at hvalue

theorem isSome_digitValue?_iff : (digitValue? c).isSome = true ↔ IsDigit c := by
  simp only [Option.isSome_iff_exists, digitValue?_eq_some_iff, IsDigit]

instance : DecidablePred IsDigit := fun _ => decidable_of_iff _ isSome_digitValue?_iff

theorem isNone_digitValue?_iff : (digitValue? c).isNone = true ↔ ¬IsDigit c := by
  rw [← isSome_digitValue?_iff, Bool.not_eq_true, Option.isSome_eq_false_iff]

/-- A character is a digit of a value when it is the digit that is written for it, up to case. -/
theorem isDigitOf_iff : IsDigitOf c value ↔ value < 16 ∧ c.toLower = digitChar value := by
  constructor
  · intro h
    refine ⟨h.lt, ?_⟩
    have hlt := h.lt
    obtain ⟨table, htable, hc⟩ := h
    have hall : ∀ table ∈ digitTables, ∀ value < 16,
        table.toList[value]?.map Char.toLower = some (digitChar value) := by decide
    have hdigit := hall table htable value hlt
    rw [hc] at hdigit
    exact Option.some.inj hdigit
  · rintro ⟨hlt, hdigit⟩
    by_cases hupper : c.val ≥ 'A'.val ∧ c.val ≤ 'Z'.val
    · -- A capital letter is one of 26.
      have hall : ∀ k < 26, ∀ value < 16, (Char.ofNat (65 + k)).toLower = digitChar value →
          ∃ table ∈ digitTables, table.toList[value]? = some (Char.ofNat (65 + k)) := by decide
      have hlow : 65 ≤ c.toNat := UInt32.le_iff_toNat_le.1 hupper.1
      have hhigh : c.toNat ≤ 90 := UInt32.le_iff_toNat_le.1 hupper.2
      have hc : Char.ofNat (65 + (c.toNat - 65)) = c := by
        rw [Nat.add_sub_cancel' hlow, Char.ofNat_toNat]
      have hfound := hall (c.toNat - 65) (by omega) value hlt
      rw [hc] at hfound
      exact hfound hdigit
    · have hall : ∀ value < 16, ∃ table ∈ digitTables, table.toList[value]? = some (digitChar value) := by decide
      have hlower : c.toLower = c := dif_neg hupper
      rw [← hlower, hdigit]
      exact hall value hlt

end Digits

/-! ### Pairs -/

private theorem pairsOnto_eq {α : Type} (xs : List α) (found : List (α × α)) :
    pairsOnto xs found = ((pairsOnto xs []).1 ++ found, (pairsOnto xs []).2) := by
  induction xs using List.twoStepInduction generalizing found with
  | nil => rfl
  | singleton x => rfl
  | cons_cons x y xs ih _ =>
    rw [pairsOnto, pairsOnto, ih, ih [(x, y)]]
    simp

theorem pairs_cons_cons {α : Type} (x y : α) (xs : List α) :
    pairs (x :: y :: xs) = ((x, y) :: (pairs xs).1, (pairs xs).2) := by
  simp only [pairs, pairsOnto]
  rw [pairsOnto_eq]
  simp

/-- Two elements make a pair. -/
theorem length_pairs {α : Type} (xs : List α) : (pairs xs).1.length = xs.length / 2 := by
  induction xs using List.twoStepInduction with
  | nil => simp [pairs, pairsOnto]
  | singleton x => simp [pairs, pairsOnto]
  | cons_cons x y xs ih _ =>
    rw [pairs_cons_cons, List.length_cons, ih, List.length_cons, List.length_cons]
    omega

/-- The pair at a position is made of the elements at twice this position and behind it. -/
theorem getElem?_pairs {α : Type} {xs : List α} {k : Nat} {x y : α} (hx : xs[2 * k]? = some x)
    (hy : xs[2 * k + 1]? = some y) : (pairs xs).1[k]? = some (x, y) := by
  induction xs using List.twoStepInduction generalizing k with
  | nil => simp at hx
  | singleton z => simp at hy
  | cons_cons z w xs ih _ =>
    rw [pairs_cons_cons]
    cases k with
    | zero =>
      obtain rfl : z = x := Option.some.inj hx
      obtain rfl : w = y := Option.some.inj hy
      rfl
    | succ k =>
      rw [List.getElem?_cons_succ]
      exact ih hx hy

section Pairs

variable {a b : Char}

/-- A pair of digits stands for the byte with their values. -/
theorem toNat_pairByte {high low : Nat} (ha : IsDigitOf a high) (hb : IsDigitOf b low) :
    (pairByte (a, b)).toNat = 16 * high + low := by
  have hhigh := ha.lt
  have hlow := hb.lt
  have hbyte : pairByte (a, b) = UInt8.ofNat (16 * high + low) := by
    simp only [pairByte, pairValue?, digitValue?_eq_some_iff.2 ha, digitValue?_eq_some_iff.2 hb, Option.getD_some]
  rw [hbyte]
  exact UInt8.toNat_ofNat_of_lt' (by change _ < 256; omega)

/-- Another pair stands for zero. -/
theorem pairByte_of_not (h : ¬(IsDigit a ∧ IsDigit b)) : pairByte (a, b) = 0 := by
  unfold pairByte pairValue?
  split
  · rename_i high low ha hb
    exact absurd ⟨⟨high, digitValue?_eq_some_iff.1 ha⟩, ⟨low, digitValue?_eq_some_iff.1 hb⟩⟩ h
  · rfl

/-- A pair shows a byte when it is what is written for it, up to case. -/
private theorem encodeByte_eq_iff {byte : UInt8} :
    [a.toLower, b.toLower] = encodeByte byte ↔ IsDigit a ∧ IsDigit b ∧ pairByte (a, b) = byte := by
  have hbyte : byte.toNat < 256 := byte.toNat_lt
  rw [encodeByte, List.cons.injEq, List.cons.injEq]
  constructor
  · rintro ⟨ha, hb, -⟩
    have hhigh : IsDigitOf a (byte.toNat / 16) := isDigitOf_iff.2 ⟨by omega, ha⟩
    have hlow : IsDigitOf b (byte.toNat % 16) := isDigitOf_iff.2 ⟨by omega, hb⟩
    refine ⟨⟨_, hhigh⟩, ⟨_, hlow⟩, ?_⟩
    rw [← UInt8.toNat_inj, toNat_pairByte hhigh hlow]
    omega
  · rintro ⟨⟨high, ha⟩, ⟨low, hb⟩, rfl⟩
    obtain ⟨hhigh, ha'⟩ := isDigitOf_iff.1 ha
    obtain ⟨hlow, hb'⟩ := isDigitOf_iff.1 hb
    rw [toNat_pairByte ha hb, ha', hb']
    refine ⟨?_, ?_, rfl⟩
    · congr 1
      omega
    · congr 1
      omega

end Pairs

/-- Characters are the digits of bytes, up to case, when all are digits, their number is even and the bytes are those of
their pairs. -/
theorem pairs_show_iff {chars : List Char} {bytes : Bytes} :
    (∀ c ∈ chars, IsDigit c) ∧ chars.length % 2 = 0 ∧ (pairs chars).1.map pairByte = bytes ↔
      chars.map Char.toLower = bytes.flatMap encodeByte := by
  induction chars using List.twoStepInduction generalizing bytes with
  | nil =>
    cases bytes with
    | nil => simp [pairs, pairsOnto]
    | cons byte bytes => simp [pairs, pairsOnto, encodeByte]
  | singleton c =>
    cases bytes with
    | nil => simp
    | cons byte bytes => simp [encodeByte]
  | cons_cons a b chars ih _ =>
    cases bytes with
    | nil => simp [pairs_cons_cons]
    | cons byte bytes =>
      have hsplit : (a :: b :: chars).map Char.toLower = (byte :: bytes).flatMap encodeByte ↔
          [a.toLower, b.toLower] = encodeByte byte ∧ chars.map Char.toLower = bytes.flatMap encodeByte := by
        simp [encodeByte, and_assoc]
      have heven : (a :: b :: chars).length % 2 = chars.length % 2 := by
        rw [List.length_cons, List.length_cons]
        omega
      rw [hsplit, encodeByte_eq_iff, ← ih, heven, pairs_cons_cons, List.map_cons, List.cons.injEq, List.forall_mem_cons,
        List.forall_mem_cons]
      tauto

/-! ### The first character that is no digit -/

private theorem firstNonDigit?_of_not {c : Char} {chars : List Char} (h : ¬IsDigit c) :
    firstNonDigit? (c :: chars) = some (0, c) := by
  have hfound : (c :: chars).find? (fun c => (digitValue? c).isNone) = some c :=
    List.find?_cons_of_pos (isNone_digitValue?_iff.2 h)
  rw [firstNonDigit?, hfound, Option.map_some, List.idxOf_cons_self]

private theorem firstNonDigit?_of_digit {c : Char} {chars : List Char} (h : IsDigit c) :
    firstNonDigit? (c :: chars) = (firstNonDigit? chars).map fun (position, found) => (position + 1, found) := by
  have hc : ¬(digitValue? c).isNone = true := fun hnone => isNone_digitValue?_iff.1 hnone h
  have hskip : (c :: chars).find? (fun c => (digitValue? c).isNone) = chars.find? fun c => (digitValue? c).isNone :=
    List.find?_cons_of_neg hc
  rw [firstNonDigit?, hskip, firstNonDigit?]
  cases hfound : chars.find? fun c => (digitValue? c).isNone with
  | none => rfl
  | some found =>
    -- The character that is found is not the digit in front of it.
    have hne : c ≠ found := by
      rintro rfl
      exact hc (List.find?_some (p := fun c => (digitValue? c).isNone) hfound)
    simp only [Option.map_some]
    rw [List.idxOf_cons_ne _ hne]

theorem firstNonDigit?_eq_none_iff {chars : List Char} : firstNonDigit? chars = none ↔ ∀ c ∈ chars, IsDigit c := by
  rw [firstNonDigit?, Option.map_eq_none_iff, List.find?_eq_none]
  simp only [isNone_digitValue?_iff, Classical.not_not]

theorem firstNonDigit?_eq_some_iff {chars : List Char} {position : Nat} {found : Char} :
    firstNonDigit? chars = some (position, found) ↔ FirstNonDigit chars position found := by
  induction chars generalizing position with
  | nil => simp [firstNonDigit?, FirstNonDigit]
  | cons c chars ih =>
    by_cases hc : IsDigit c
    · rw [firstNonDigit?_of_digit hc, Option.map_eq_some_iff]
      constructor
      · rintro ⟨⟨k, found⟩, hfound, heq⟩
        obtain ⟨rfl, rfl⟩ := Prod.mk.inj heq
        obtain ⟨hk, hnot, hbefore⟩ := ih.1 hfound
        exact ⟨hk, hnot, List.forall_mem_cons.2 ⟨hc, hbefore⟩⟩
      · rintro ⟨hk, hnot, hbefore⟩
        cases position with
        | zero =>
          obtain rfl : c = found := Option.some.inj hk
          exact absurd hc hnot
        | succ k => exact ⟨(k, found), ih.2 ⟨hk, hnot, (List.forall_mem_cons.1 hbefore).2⟩, rfl⟩
    · rw [firstNonDigit?_of_not hc]
      constructor
      · intro h
        obtain ⟨rfl, rfl⟩ := Prod.mk.inj (Option.some.inj h)
        exact ⟨rfl, hc, List.forall_mem_nil _⟩
      · rintro ⟨hk, -, hbefore⟩
        cases position with
        | zero =>
          obtain rfl : c = found := Option.some.inj hk
          rfl
        | succ k => exact absurd (List.forall_mem_cons.1 hbefore).1 hc

/-- Either all characters are digits or there is a first one that is not. -/
theorem digits_or_nonDigit (chars : List Char) :
    (∀ c ∈ chars, IsDigit c) ∨ ∃ position found, FirstNonDigit chars position found := by
  cases h : firstNonDigit? chars with
  | none => exact .inl (firstNonDigit?_eq_none_iff.1 h)
  | some found => exact .inr ⟨found.1, found.2, firstNonDigit?_eq_some_iff.1 h⟩

private theorem FirstNonDigit.not_digits {chars : List Char} {position : Nat} {found : Char}
    (h : FirstNonDigit chars position found) : ¬∀ c ∈ chars, IsDigit c :=
  fun hdigits => h.2.1 (hdigits found (List.mem_of_getElem? h.1))

/-! ### The two ways of reading -/

private theorem map_toLower_digits (bytes : Bytes) :
    (bytes.flatMap encodeByte).map Char.toLower = bytes.flatMap encodeByte := by
  have hdigit : ∀ value < 16, (digitChar value).toLower = digitChar value := by decide
  rw [List.map_flatMap]
  refine List.flatMap_congr fun byte _ => ?_
  have hbyte : byte.toNat < 256 := byte.toNat_lt
  rw [encodeByte, List.map_cons, List.map_cons, List.map_nil, hdigit _ (by omega), hdigit _ (by omega)]

theorem sameUpToCase_encode_iff {chars : List Char} {bytes : Bytes} : SameUpToCase chars (encode bytes).toList ↔
    (∀ c ∈ chars, IsDigit c) ∧ chars.length % 2 = 0 ∧ (pairs chars).1.map pairByte = bytes := by
  rw [pairs_show_iff, SameUpToCase, encode, String.toList_ofList, map_toLower_digits]

variable {text : String}

private theorem decodeStrict_of_nonDigit {position : Nat} {found : Char}
    (h : FirstNonDigit (significant text) position found) :
    decodeStrict text = .error (.invalidDigit position found) := by
  simp only [decodeStrict, firstNonDigit?_eq_some_iff.2 h]

private theorem decodeStrict_of_digits (h : ∀ c ∈ significant text, IsDigit c) : decodeStrict text =
    if (significant text).length % 2 = 0 then .ok (decodeLenient text)
    else .error (.oddLength (significant text).length) := by
  simp only [decodeStrict, firstNonDigit?_eq_none_iff.2 h]
  rfl

/-- A text is read strictly when it shows bytes, up to case and blanks. -/
theorem decodeStrict_eq_ok_iff {bytes : Bytes} :
    decodeStrict text = .ok bytes ↔ SameUpToCase (significant text) (encode bytes).toList := by
  rw [sameUpToCase_encode_iff]
  change _ ↔ _ ∧ _ ∧ decodeLenient text = bytes
  rcases digits_or_nonDigit (significant text) with hdigits | ⟨position, found, hfound⟩
  · rw [decodeStrict_of_digits hdigits]
    by_cases heven : (significant text).length % 2 = 0
    · rw [if_pos heven, Except.ok.injEq]
      exact ⟨fun h => ⟨hdigits, heven, h⟩, fun h => h.2.2⟩
    · rw [if_neg heven]
      exact iff_of_false (by simp) fun h => heven h.2.1
  · rw [decodeStrict_of_nonDigit hfound]
    exact iff_of_false (by simp) fun h => hfound.not_digits h.1

theorem decodeStrict_eq_invalidDigit_iff {position : Nat} {found : Char} :
    decodeStrict text = .error (.invalidDigit position found) ↔ FirstNonDigit (significant text) position found := by
  refine ⟨fun h => ?_, decodeStrict_of_nonDigit⟩
  rcases digits_or_nonDigit (significant text) with hdigits | ⟨position', found', hfound⟩
  · rw [decodeStrict_of_digits hdigits] at h
    split at h <;> cases h
  · rw [decodeStrict_of_nonDigit hfound] at h
    cases h
    exact hfound

theorem decodeStrict_eq_oddLength_iff {length : Nat} : decodeStrict text = .error (.oddLength length) ↔
    (∀ c ∈ significant text, IsDigit c) ∧ length = (significant text).length ∧ length % 2 = 1 := by
  rcases digits_or_nonDigit (significant text) with hdigits | ⟨position, found, hfound⟩
  · rw [decodeStrict_of_digits hdigits]
    constructor
    · intro h
      split at h
      · cases h
      · rename_i hodd
        cases h
        exact ⟨hdigits, rfl, by omega⟩
    · rintro ⟨-, rfl, hodd⟩
      rw [if_neg (by omega)]
  · rw [decodeStrict_of_nonDigit hfound]
    exact iff_of_false (by simp) fun h => hfound.not_digits h.1

/-- Lenient reading gives the same bytes as strict reading where this succeeds. -/
theorem decodeLenient_of_strict {bytes : Bytes} (h : decodeStrict text = .ok bytes) : decodeLenient text = bytes :=
  (sameUpToCase_encode_iff.1 (decodeStrict_eq_ok_iff.1 h)).2.2

/-- Each byte that lenient reading gives depends on two characters alone. -/
theorem getElem?_decodeLenient {k : Nat} {a b : Char} (ha : (significant text)[2 * k]? = some a)
    (hb : (significant text)[2 * k + 1]? = some b) : (decodeLenient text)[k]? = some (pairByte (a, b)) := by
  change ((pairs (significant text)).1.map pairByte)[k]? = _
  rw [List.getElem?_map, getElem?_pairs ha hb, Option.map_some]

/-- Strict reading accepts the texts that show bytes and nothing else but blanks, and of another one tells the first
character that is no digit or, when all are digits, their odd number.  Lenient reading gives a byte for every two
characters, the value of two digits and otherwise zero, and so the same bytes as strict reading where this succeeds. -/
theorem decode_by_pairs (text : String) :
    (∀ bytes, decodeStrict text = .ok bytes ↔ SameUpToCase (significant text) (encode bytes).toList) ∧
    (∀ position found, decodeStrict text = .error (.invalidDigit position found) ↔
      FirstNonDigit (significant text) position found) ∧
    (∀ length, decodeStrict text = .error (.oddLength length) ↔
      (∀ c ∈ significant text, IsDigit c) ∧ length = (significant text).length ∧ length % 2 = 1) ∧
    (decodeLenient text).length = (significant text).length / 2 ∧
    (∀ k a b, (significant text)[2 * k]? = some a → (significant text)[2 * k + 1]? = some b →
      ∃ byte, (decodeLenient text)[k]? = some byte ∧
        (∀ high low, IsDigitOf a high → IsDigitOf b low → byte.toNat = 16 * high + low) ∧
        (¬(IsDigit a ∧ IsDigit b) → byte = 0)) ∧
    ∀ bytes, decodeStrict text = .ok bytes → decodeLenient text = bytes := by
  refine ⟨fun bytes => decodeStrict_eq_ok_iff, fun position found => decodeStrict_eq_invalidDigit_iff,
    fun length => decodeStrict_eq_oddLength_iff, ?_, fun k a b ha hb => ?_, fun bytes => decodeLenient_of_strict⟩
  · change ((pairs (significant text)).1.map pairByte).length = _
    rw [List.length_map, length_pairs]
  · exact ⟨_, getElem?_decodeLenient ha hb, fun high low => toNat_pairByte, pairByte_of_not⟩

/-- A character that is no digit makes strict reading fail where it stands, and costs lenient reading one byte. -/
theorem decode_by_pairs_mixed :
    decodeStrict " 2a\tB1 0g\nF" = .error (.invalidDigit 5 'g') ∧ (decodeLenient " 2a\tB1 0g\nF").length = 3 ∧
      (∃ byte, (decodeLenient " 2a\tB1 0g\nF")[1]? = some byte ∧ byte.toNat = 0xB1) ∧
      (decodeLenient " 2a\tB1 0g\nF")[2]? = some 0 := by
  have hchars : significant " 2a\tB1 0g\nF" = ['2', 'a', 'B', '1', '0', 'g', 'F'] := by decide
  obtain ⟨-, hnonDigit, -, hlength, hpair, -⟩ := decode_by_pairs " 2a\tB1 0g\nF"
  rw [hchars] at hnonDigit hlength hpair
  obtain ⟨first, hfirst, hvalue, -⟩ := hpair 1 'B' '1' rfl rfl
  obtain ⟨second, hsecond, -, hzero⟩ := hpair 2 '0' 'g' rfl rfl
  have hdigits : (['2', 'a', 'B', '1', '0'].all fun c => (digitValue? c).isSome) = true := by decide
  have hbefore : ∀ c ∈ ['2', 'a', 'B', '1', '0'], IsDigit c :=
    fun c hmem => isSome_digitValue?_iff.1 (List.all_eq_true.1 hdigits c hmem)
  refine ⟨(hnonDigit 5 'g').2 ⟨rfl, by decide, hbefore⟩, hlength, ⟨first, hfirst, ?_⟩, ?_⟩
  · exact hvalue 11 1 (digitValue?_eq_some_iff.1 rfl) (digitValue?_eq_some_iff.1 rfl)
  · rw [hsecond, hzero (by decide)]

end ClassGraft.Hex
