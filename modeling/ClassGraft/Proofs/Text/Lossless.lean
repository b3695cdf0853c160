import ClassGraft.Proofs.Text.Shown

/-!
# Stored texts without loss

The bytes that are written for a text are read back as this text and without loss (`StoredText.ofText_readBack`).  Of
the byte strings that are read, these are the ones whose forms are shortest and whose surrogates are paired
(`StoredText.ofEncoded_by_forms`): since reading undoes writing, the units of a text that is shown are written as the
bytes it came from only if they are the units that were read.
-/

namespace ClassGraft

open ModifiedUtf8 (Form)

namespace ModifiedUtf8

/-- A written text is read as its code units. -/
theorem decode_encode (text : String) : decode (encode text) = some (Utf16.unitsOfText text) :=
  decode_encodeUnits _

/-- A written text has no byte that is zero or opens a longer form. -/
theorem mem_encode {text : String} {byte : UInt8} (h : byte ∈ encode text) : byte ≠ 0 ∧ byte ≤ 0xEF := by
  obtain ⟨forms, hbytes, -⟩ := exists_forms_encodeUnits (Utf16.unitsOfText text)
  rw [encode, ← hbytes, List.mem_flatMap] at h
  obtain ⟨form, -, hbyte⟩ := h
  obtain ⟨hpos, hle⟩ := Form.mem_bytes hbyte
  refine ⟨?_, UInt8.le_iff_toNat_le.2 hle⟩
  rintro rfl
  exact absurd hpos (by decide)

end ModifiedUtf8

namespace StoredText

theorem isLossy_eq_false_iff {stored : StoredText} :
    stored.isLossy = false ↔ ModifiedUtf8.encode stored.text = stored.encoded := by
  simp [isLossy]

theorem ofEncoded_encode (text : String) : ofEncoded (ModifiedUtf8.encode text) = some (ofText text) :=
  genuine_ofText text

/-- The bytes that are written for a text are read back as its code units and shown as the text without loss, so no
other text has them.  None of them is zero or opens a longer form. -/
theorem ofText_readBack (text : String) :
    ModifiedUtf8.decode (ModifiedUtf8.encode text) = some (Utf16.unitsOfText text) ∧
      ofEncoded (ModifiedUtf8.encode text) = some (ofText text) ∧ (ofText text).isLossy = false ∧
      (∀ other, ModifiedUtf8.encode other = ModifiedUtf8.encode text → other = text) ∧
      ∀ byte ∈ ModifiedUtf8.encode text, byte ≠ 0 ∧ byte ≤ 0xEF := by
  refine ⟨ModifiedUtf8.decode_encode text, ofEncoded_encode text, isLossy_eq_false_iff.2 rfl, fun other h => ?_,
    fun byte => ModifiedUtf8.mem_encode⟩
  have hstored : some (ofText other) = some (ofText text) := by
    rw [← ofEncoded_encode, ← ofEncoded_encode, h]
  exact congrArg StoredText.text (Option.some.inj hstored)

/-! ### Which bytes are read without loss -/

/-- The text that forms show, with their bytes. -/
def ofForms (forms : List Form) : StoredText := ⟨Utf16.textOfUnits (forms.map Form.unit), forms.flatMap Form.bytes⟩

theorem ofEncoded_forms (forms : List Form) : ofEncoded (forms.flatMap Form.bytes) = some (ofForms forms) := by
  rw [ofEncoded, ModifiedUtf8.decode_forms]
  rfl

/-- Forms show a text without loss when they are shortest and their surrogates are paired. -/
theorem isLossy_ofForms_iff {forms : List Form} : (ofForms forms).isLossy = false ↔
    (∀ form ∈ forms, form.Shortest) ∧ Utf16.Paired (forms.map Form.unit) := by
  rw [isLossy_eq_false_iff, ModifiedUtf8.forall_shortest_iff, ← Utf16.unitsOfText_textOfUnits_iff]
  constructor
  · intro h
    -- The units of the shown text are read from the same bytes as those of the forms.
    have hread : some (Utf16.unitsOfText (ofForms forms).text) = some (forms.map Form.unit) := by
      rw [← ModifiedUtf8.decode_encode, h, ← ModifiedUtf8.decode_forms]
      rfl
    have hunits := Option.some.inj hread
    refine ⟨?_, hunits⟩
    rw [← hunits]
    exact h
  · rintro ⟨hbytes, hunits⟩
    rw [ModifiedUtf8.encode, ofForms, hunits, hbytes]

/-- A byte string is read when it splits into forms, which it does in one way only.  It is read without loss when the
forms are shortest and the surrogates paired, that is when it is what some text is written as, and then shows this. -/
theorem ofEncoded_by_forms (bytes : Bytes) :
    (∀ units, ModifiedUtf8.decode bytes = some units ↔
      ∃ forms : List Form, forms.flatMap Form.bytes = bytes ∧ forms.map Form.unit = units) ∧
    (∀ forms others : List Form, forms.flatMap Form.bytes = bytes → others.flatMap Form.bytes = bytes →
      forms = others) ∧
    (∀ form : Form, form.unit = 0 → (form.Shortest ↔ form.bytes = [0xC0, 0x80])) ∧
    ∀ forms : List Form, forms.flatMap Form.bytes = bytes → ∃ stored, ofEncoded bytes = some stored ∧
      (stored.isLossy = false ↔ (∀ form ∈ forms, form.Shortest) ∧ Utf16.Paired (forms.map Form.unit)) ∧
      (stored.isLossy = false ↔ ∃ text, ModifiedUtf8.encode text = bytes) ∧
      ∀ text, ModifiedUtf8.encode text = bytes → stored.text = text := by
  refine ⟨fun units => ModifiedUtf8.decode_eq_some_iff, fun forms others hforms hothers => ?_,
    fun form => Form.shortest_zero_iff, ?_⟩
  · exact Form.eq_of_flatMap_bytes (hforms.trans hothers.symm)
  · rintro forms rfl
    have hwritten : ∀ text, ModifiedUtf8.encode text = forms.flatMap Form.bytes → ofForms forms = ofText text := by
      intro text h
      have hstored := ofEncoded_forms forms
      rw [← h, ofEncoded_encode] at hstored
      exact (Option.some.inj hstored).symm
    refine ⟨ofForms forms, ofEncoded_forms forms, isLossy_ofForms_iff, ⟨fun h => ?_, ?_⟩, fun text h => ?_⟩
    · exact ⟨_, isLossy_eq_false_iff.1 h⟩
    · rintro ⟨text, h⟩
      rw [hwritten text h, isLossy_eq_false_iff]
      rfl
    · rw [hwritten text h]
      rfl

/-- The forms of a replacement character and of a high surrogate on its own. -/
def replacedForms : List Form :=
  [.three 0xEF 0xBF 0xBD (by decide) (by decide) (by decide), .three 0xED 0xA0 0x80 (by decide) (by decide) (by decide)]

private theorem not_paired_replacedForms : ¬Utf16.Paired (replacedForms.map Form.unit) := by
  intro h
  obtain ⟨v, hv, -⟩ := (h 1 0xD800 (by decide)).1 (by decide)
  cases hv

/-- A surrogate on its own is lost although it stands in its shortest form and what is shown for it is also written in
three bytes. -/
theorem ofEncoded_by_forms_replaced :
    (∀ form ∈ replacedForms, form.Shortest) ∧ ∃ stored, ofEncoded (replacedForms.flatMap Form.bytes) = some stored ∧
      stored.text = "\uFFFD\uFFFD" ∧ stored.isLossy = true ∧
      ¬∃ text, ModifiedUtf8.encode text = replacedForms.flatMap Form.bytes := by
  obtain ⟨-, -, -, hforms⟩ := ofEncoded_by_forms (replacedForms.flatMap Form.bytes)
  obtain ⟨stored, hstored, hpaired, htext, -⟩ := hforms replacedForms rfl
  have hlossy : ¬stored.isLossy = false := fun h => not_paired_replacedForms (hpaired.1 h).2
  have hshown : ofEncoded (replacedForms.flatMap Form.bytes) =
      some ⟨"\uFFFD\uFFFD", replacedForms.flatMap Form.bytes⟩ := by decide +kernel
  refine ⟨ModifiedUtf8.forall_shortest_iff.2 (by decide), stored, hstored, ?_, ?_, fun h => hlossy (htext.2 h)⟩
  · rw [hstored] at hshown
    rw [Option.some.inj hshown]
  · simpa using hlossy

end StoredText

end ClassGraft
