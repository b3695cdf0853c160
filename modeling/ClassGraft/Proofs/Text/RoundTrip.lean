import ClassGraft.Proofs.Text.Forms

/-!
# Stored texts

A character is one unit that is no surrogate or a pair of surrogates (`Utf16.unitsOfChar_cases`), so a text is what its
code units show (`Utf16.textOfUnits_unitsOfText`).  Since code units that are written are read back, a text in its
shortest forms is read back as itself, and among the texts that reading or writing gives, the bytes determine the text
(`StoredText.Genuine.eq_of_encoded`).
-/

namespace ClassGraft

namespace Utf16

theorem isHigh_iff {u : UInt16} : isHigh u = true ↔ 0xD800 ≤ u.toNat ∧ u.toNat < 0xDC00 := by
  simp [isHigh, UInt16.le_iff_toNat_le, UInt16.lt_iff_toNat_lt]

theorem isLow_iff {u : UInt16} : isLow u = true ↔ 0xDC00 ≤ u.toNat ∧ u.toNat < 0xE000 := by
  simp [isLow, UInt16.le_iff_toNat_le, UInt16.lt_iff_toNat_lt]

private theorem toNat_valid (c : Char) : c.toNat < 0xD800 ∨ 0xDFFF < c.toNat ∧ c.toNat < 0x110000 := c.valid

private theorem charsOnto_single {u : UInt16} (hhigh : isHigh u = false) (rest : List UInt16) (read : List Char) :
    charsOnto (u :: rest) read = charsOnto rest (charOfUnit u :: read) := by
  cases rest with
  | nil => rfl
  | cons v rest => simp [charsOnto, hhigh]

/-- A character is one unit that is no surrogate, or a pair of surrogates. -/
theorem unitsOfChar_cases (c : Char) :
    (∃ u, unitsOfChar c = [u] ∧ isHigh u = false ∧ isLow u = false ∧ charOfUnit u = c) ∨
      ∃ high low, unitsOfChar c = [high, low] ∧ isHigh high = true ∧ isLow low = true ∧ joinPair high low = c := by
  have hvalid := toNat_valid c
  unfold unitsOfChar
  dsimp only
  split
  · rename_i hone
    have hu : (UInt16.ofNat c.toNat).toNat = c.toNat := UInt16.toNat_ofNat_of_lt' hone
    have hhigh : isHigh (UInt16.ofNat c.toNat) = false := by
      rw [← Bool.not_eq_true, isHigh_iff, hu]
      omega
    have hlow : isLow (UInt16.ofNat c.toNat) = false := by
      rw [← Bool.not_eq_true, isLow_iff, hu]
      omega
    refine .inl ⟨_, rfl, hhigh, hlow, ?_⟩
    rw [charOfUnit, hhigh, hlow, hu]
    exact Char.ofNat_toNat c
  · rename_i hone
    have hu : (UInt16.ofNat (0xD800 + (c.toNat - 0x10000) / 0x400)).toNat =
        0xD800 + (c.toNat - 0x10000) / 0x400 := UInt16.toNat_ofNat_of_lt' (by change _ < 65536; omega)
    have hv : (UInt16.ofNat (0xDC00 + (c.toNat - 0x10000) % 0x400)).toNat =
        0xDC00 + (c.toNat - 0x10000) % 0x400 := UInt16.toNat_ofNat_of_lt' (by change _ < 65536; omega)
    refine .inr ⟨_, _, rfl, ?_, ?_, ?_⟩
    · rw [isHigh_iff, hu]
      omega
    · rw [isLow_iff, hv]
      omega
    · rw [joinPair, hu, hv, show 0x10000 + (0xD800 + (c.toNat - 0x10000) / 0x400 - 0xD800) * 0x400 +
        (0xDC00 + (c.toNat - 0x10000) % 0x400 - 0xDC00) = c.toNat by omega]
      exact Char.ofNat_toNat c

/-- Reading the units of a character gives that character and goes on after it. -/
theorem charsOnto_unitsOfChar (c : Char) (rest : List UInt16) (read : List Char) :
    charsOnto (unitsOfChar c ++ rest) read = charsOnto rest (c :: read) := by
  rcases unitsOfChar_cases c with ⟨u, hunits, hhigh, -, hchar⟩ | ⟨high, low, hunits, hhigh, hlow, hchar⟩
  · rw [hunits, List.cons_append, charsOnto_single hhigh, hchar, List.nil_append]
  · rw [hunits, List.cons_append, List.cons_append, List.nil_append, charsOnto, hhigh, hlow, Bool.and_self, if_pos rfl,
      hchar]

private theorem charsOnto_unitsOfText (chars : List Char) (read : List Char) :
    charsOnto (chars.flatMap unitsOfChar) read = chars.reverse ++ read := by
  induction chars generalizing read with
  | nil => simp [charsOnto]
  | cons c chars ih =>
    rw [List.flatMap_cons, charsOnto_unitsOfChar, ih]
    simp

/-- A text is what its code units show. -/
theorem textOfUnits_unitsOfText (text : String) : textOfUnits (unitsOfText text) = text := by
  simp [textOfUnits, unitsOfText, charsOnto_unitsOfText]

end Utf16

namespace StoredText

/-- Texts with the bytes that they are read from, as reading and writing give them. -/
def Genuine (stored : StoredText) : Prop := ofEncoded stored.encoded = some stored

theorem genuine_of_ofEncoded {encoded : Bytes} {stored : StoredText} (h : ofEncoded encoded = some stored) :
    stored.Genuine := by
  have hencoded : stored.encoded = encoded := by
    obtain ⟨units, -, rfl⟩ := Option.map_eq_some_iff.1 h
    rfl
  rw [Genuine, hencoded, h]

theorem genuine_ofText (text : String) : (ofText text).Genuine := by
  simp [Genuine, ofEncoded, ofText, ModifiedUtf8.encode, ModifiedUtf8.decode_encodeUnits,
    Utf16.textOfUnits_unitsOfText]

/-- The bytes of a genuine text determine it. -/
theorem Genuine.eq_of_encoded {a b : StoredText} (ha : a.Genuine) (hb : b.Genuine) (h : a.encoded = b.encoded) :
    a = b := by
  rw [Genuine, ← h] at hb
  exact Option.some.inj (ha.symm.trans hb)

end StoredText

end ClassGraft
