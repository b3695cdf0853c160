import ClassGraft.Text.ModifiedUtf8
import Mathlib.Data.List.Basic

/-!
# Forms of modified UTF-8

A form is one, two or three bytes that stand for one code unit.  A byte string is read exactly when it splits into
forms, and then gives their units in order (`ModifiedUtf8.decode_eq_some_iff`); it splits in one way only
(`ModifiedUtf8.Form.eq_of_flatMap_bytes`).  Several forms may stand for one unit, and the one that is written is the
shortest of these (`ModifiedUtf8.Form.shortest_iff`).
-/

namespace ClassGraft.ModifiedUtf8

/-- One, two or three bytes that stand for a code unit. -/
inductive Form where
  | one (a : UInt8) (ha : 0x01 ≤ a.toNat ∧ a.toNat ≤ 0x7F)
  | two (a b : UInt8) (ha : 0xC0 ≤ a.toNat ∧ a.toNat ≤ 0xDF) (hb : 0x80 ≤ b.toNat ∧ b.toNat ≤ 0xBF)
  | three (a b c : UInt8) (ha : 0xE0 ≤ a.toNat ∧ a.toNat ≤ 0xEF) (hb : 0x80 ≤ b.toNat ∧ b.toNat ≤ 0xBF)
      (hc : 0x80 ≤ c.toNat ∧ c.toNat ≤ 0xBF)

namespace Form

/-- The bytes of a form. -/
def bytes : Form → Bytes
  | one a _ => [a]
  | two a b _ _ => [a, b]
  | three a b c _ _ _ => [a, b, c]

/-- The number that a form stands for, made of the bits of its bytes behind the ones that tell their place. -/
def value : Form → Nat
  | one a _ => a.toNat
  | two a b _ _ => 64 * (a.toNat % 32) + b.toNat % 64
  | three a b c _ _ _ => 4096 * (a.toNat % 16) + 64 * (b.toNat % 64) + c.toNat % 64

/-- The code unit that a form stands for. -/
def unit (form : Form) : UInt16 := UInt16.ofNat form.value

/-- No form of the same unit has fewer bytes. -/
def Shortest (form : Form) : Prop := ∀ other : Form, other.unit = form.unit → form.bytes.length ≤ other.bytes.length

theorem value_lt (form : Form) : form.value < 65536 := by
  cases form <;> simp only [value] <;> omega

theorem toNat_unit (form : Form) : form.unit.toNat = form.value := UInt16.toNat_ofNat_of_lt' form.value_lt

theorem unit_eq_iff {form other : Form} : form.unit = other.unit ↔ form.value = other.value := by
  rw [← UInt16.toNat_inj, toNat_unit, toNat_unit]

/-- A form has no byte that is zero or opens a longer form. -/
theorem mem_bytes {form : Form} {byte : UInt8} (h : byte ∈ form.bytes) : 0 < byte.toNat ∧ byte.toNat ≤ 0xEF := by
  cases form <;> simp only [bytes, List.mem_cons, List.not_mem_nil, or_false] at h
  case one a ha =>
    subst h
    omega
  case two a b ha hb => rcases h with rfl | rfl <;> omega
  case three a b c ha hb hc => rcases h with rfl | rfl | rfl <;> omega

end Form

/-! ### Reading forms -/

private theorem isContinuation_iff {b : UInt8} : isContinuation b = true ↔ 0x80 ≤ b.toNat ∧ b.toNat < 0xC0 := by
  simp [isContinuation, UInt8.le_iff_toNat_le, UInt8.lt_iff_toNat_lt]

private theorem opensOne_iff {a : UInt8} : (0 < a && a < 0x80) = true ↔ 0 < a.toNat ∧ a.toNat < 0x80 := by
  simp [UInt8.lt_iff_toNat_lt]

private theorem opensTwo_iff {a : UInt8} : (0xC0 ≤ a && a < 0xE0) = true ↔ 0xC0 ≤ a.toNat ∧ a.toNat < 0xE0 := by
  simp [UInt8.le_iff_toNat_le, UInt8.lt_iff_toNat_lt]

private theorem opensThree_iff {a : UInt8} : (0xE0 ≤ a && a < 0xF0) = true ↔ 0xE0 ≤ a.toNat ∧ a.toNat < 0xF0 := by
  simp [UInt8.le_iff_toNat_le, UInt8.lt_iff_toNat_lt]

/-- Reading a form gives its unit and goes on after it. -/
theorem unitsOnto_form (form : Form) (rest : Bytes) (read : List UInt16) :
    unitsOnto (form.bytes ++ rest) read = unitsOnto rest (form.unit :: read) := by
  cases form with
  | one a ha =>
    have hunit : a.toUInt16 = (Form.one a ha).unit := by
      rw [← UInt16.toNat_inj, Form.toNat_unit, UInt8.toNat_toUInt16, Form.value]
    rw [Form.bytes, List.cons_append, List.nil_append, unitsOnto.eq_def]
    dsimp only
    rw [if_pos (opensOne_iff.2 (by omega)), hunit]
  | two a b ha hb =>
    have hone : ¬(0 < a && a < 0x80) = true := by
      rw [opensOne_iff]
      omega
    have hunit : unitOfTwo a b = (Form.two a b ha hb).unit := by
      rw [unitOfTwo, Form.unit, Form.value]
      congr 1
      omega
    rw [Form.bytes, List.cons_append, List.cons_append, List.nil_append, unitsOnto.eq_def]
    dsimp only
    rw [if_neg hone, if_pos (opensTwo_iff.2 (by omega)), if_pos (isContinuation_iff.2 (by omega)), hunit]
  | three a b c ha hb hc =>
    have hone : ¬(0 < a && a < 0x80) = true := by
      rw [opensOne_iff]
      omega
    have htwo : ¬(0xC0 ≤ a && a < 0xE0) = true := by
      rw [opensTwo_iff]
      omega
    have hcontinue : (isContinuation b && isContinuation c) = true := by
      rw [Bool.and_eq_true, isContinuation_iff, isContinuation_iff]
      omega
    have hunit : unitOfThree a b c = (Form.three a b c ha hb hc).unit := by
      rw [unitOfThree, Form.unit, Form.value]
      congr 1
      omega
    rw [Form.bytes, List.cons_append, List.cons_append, List.cons_append, List.nil_append, unitsOnto.eq_def]
    dsimp only
    rw [if_neg hone, if_neg htwo, if_pos (opensThree_iff.2 (by omega)), if_pos hcontinue, hunit]

private theorem unitsOnto_forms (forms : List Form) (read : List UInt16) :
    unitsOnto (forms.flatMap Form.bytes) read = some ((forms.map Form.unit).reverse ++ read) := by
  induction forms generalizing read with
  | nil => simp [unitsOnto]
  | cons form forms ih =>
    rw [List.flatMap_cons, unitsOnto_form, ih]
    simp

/-- Forms put together are read as their units. -/
theorem decode_forms (forms : List Form) : decode (forms.flatMap Form.bytes) = some (forms.map Form.unit) := by
  simp [decode, unitsOnto_forms]

/-- What is read splits into forms. -/
private theorem exists_forms_of_unitsOnto {bytes : Bytes} {read : List UInt16}
    (h : (unitsOnto bytes read).isSome = true) : ∃ forms : List Form, forms.flatMap Form.bytes = bytes := by
  fun_induction unitsOnto bytes read with
  | case1 read => exact ⟨[], rfl⟩
  | case2 a rest read hone ih =>
    obtain ⟨forms, rfl⟩ := ih h
    rw [opensOne_iff] at hone
    exact ⟨.one a (by omega) :: forms, rfl⟩
  | case3 a read hone htwo b rest hb ih =>
    obtain ⟨forms, rfl⟩ := ih h
    rw [opensTwo_iff] at htwo
    rw [isContinuation_iff] at hb
    exact ⟨.two a b (by omega) (by omega) :: forms, rfl⟩
  | case6 a read hone htwo hthree b c rest hcontinue ih =>
    obtain ⟨forms, rfl⟩ := ih h
    rw [opensThree_iff] at hthree
    rw [Bool.and_eq_true, isContinuation_iff, isContinuation_iff] at hcontinue
    exact ⟨.three a b c (by omega) (by omega) (by omega) :: forms, rfl⟩
  | case4 | case5 | case7 | case8 | case9 => cases h

/-- A byte string is read exactly when it splits into forms, as the units of these. -/
theorem decode_eq_some_iff {bytes : Bytes} {units : List UInt16} :
    decode bytes = some units ↔
      ∃ forms : List Form, forms.flatMap Form.bytes = bytes ∧ forms.map Form.unit = units := by
  constructor
  · intro h
    obtain ⟨read, hread, -⟩ := Option.map_eq_some_iff.1 h
    obtain ⟨forms, rfl⟩ := exists_forms_of_unitsOnto (Option.isSome_of_eq_some hread)
    rw [decode_forms] at h
    exact ⟨forms, rfl, Option.some.inj h⟩
  · rintro ⟨forms, rfl, rfl⟩
    exact decode_forms forms

/-! ### Splitting into forms -/

namespace Form

/-- No form begins another one, since the first byte tells how many follow. -/
private theorem eq_of_append {form other : Form} {rest rest' : Bytes}
    (h : form.bytes ++ rest = other.bytes ++ rest') : form = other ∧ rest = rest' := by
  cases form <;> cases other <;>
    simp only [bytes, List.cons_append, List.nil_append, List.cons.injEq] at h
  case one.one => exact ⟨by simp [h.1], h.2⟩
  case two.two => exact ⟨by simp [h.1, h.2.1], h.2.2⟩
  case three.three => exact ⟨by simp [h.1, h.2.1, h.2.2.1], h.2.2.2⟩
  all_goals
    obtain ⟨rfl, -⟩ := h
    omega

theorem bytes_ne_nil (form : Form) : form.bytes ≠ [] := by
  cases form <;> simp [bytes]

/-- A byte string splits into forms in one way only. -/
theorem eq_of_flatMap_bytes {forms others : List Form} (h : forms.flatMap bytes = others.flatMap bytes) :
    forms = others := by
  induction forms generalizing others with
  | nil =>
    cases others with
    | nil => rfl
    | cons other others =>
      rw [List.flatMap_nil, List.flatMap_cons, eq_comm, List.append_eq_nil_iff] at h
      exact absurd h.1 other.bytes_ne_nil
  | cons form forms ih =>
    cases others with
    | nil =>
      rw [List.flatMap_nil, List.flatMap_cons, List.append_eq_nil_iff] at h
      exact absurd h.1 form.bytes_ne_nil
    | cons other others =>
      rw [List.flatMap_cons, List.flatMap_cons] at h
      obtain ⟨rfl, hrest⟩ := eq_of_append h
      rw [ih hrest]

end Form

/-! ### The form that is written -/

private theorem toNat_ofNat8 {n : Nat} (h : n < 256) : (UInt8.ofNat n).toNat = n := UInt8.toNat_ofNat_of_lt' h

/-- A unit is written in one of its forms. -/
theorem exists_form_encodeUnit (u : UInt16) : ∃ form : Form, form.bytes = encodeUnit u ∧ form.unit = u := by
  have hu : u.toNat < 65536 := u.toNat_lt
  unfold encodeUnit
  dsimp only
  split
  · rename_i hone
    simp only [Bool.and_eq_true, decide_eq_true_eq] at hone
    have ha : (UInt8.ofNat u.toNat).toNat = u.toNat := toNat_ofNat8 (by omega)
    refine ⟨.one (UInt8.ofNat u.toNat) (by omega), rfl, ?_⟩
    rw [← UInt16.toNat_inj, Form.toNat_unit, Form.value, ha]
  rename_i hone
  split
  · rename_i htwo
    have ha : (UInt8.ofNat (0xC0 + u.toNat / 64)).toNat = 0xC0 + u.toNat / 64 := toNat_ofNat8 (by omega)
    have hb : (UInt8.ofNat (0x80 + u.toNat % 64)).toNat = 0x80 + u.toNat % 64 := toNat_ofNat8 (by omega)
    refine ⟨.two (UInt8.ofNat (0xC0 + u.toNat / 64)) (UInt8.ofNat (0x80 + u.toNat % 64)) (by omega) (by omega), rfl,
      ?_⟩
    rw [← UInt16.toNat_inj, Form.toNat_unit, Form.value, ha, hb]
    omega
  · rename_i htwo
    have ha : (UInt8.ofNat (0xE0 + u.toNat / 4096)).toNat = 0xE0 + u.toNat / 4096 := toNat_ofNat8 (by omega)
    have hb : (UInt8.ofNat (0x80 + u.toNat / 64 % 64)).toNat = 0x80 + u.toNat / 64 % 64 := toNat_ofNat8 (by omega)
    have hc : (UInt8.ofNat (0x80 + u.toNat % 64)).toNat = 0x80 + u.toNat % 64 := toNat_ofNat8 (by omega)
    refine ⟨.three (UInt8.ofNat (0xE0 + u.toNat / 4096)) (UInt8.ofNat (0x80 + u.toNat / 64 % 64))
      (UInt8.ofNat (0x80 + u.toNat % 64)) (by omega) (by omega) (by omega), rfl, ?_⟩
    rw [← UInt16.toNat_inj, Form.toNat_unit, Form.value, ha, hb, hc]
    omega

namespace Form

private theorem length_encodeUnit (u : UInt16) : (encodeUnit u).length =
    if 0 < u.toNat ∧ u.toNat < 0x80 then 1 else if u.toNat < 0x800 then 2 else 3 := by
  unfold encodeUnit
  dsimp only
  rw [← Bool.decide_and, apply_ite List.length, apply_ite List.length]
  simp

/-- No form of a unit is shorter than what is written for it. -/
private theorem length_encodeUnit_le (form : Form) : (encodeUnit form.unit).length ≤ form.bytes.length := by
  rw [length_encodeUnit, toNat_unit]
  cases form with
  | one a ha =>
    have hvalue : (one a ha).value = a.toNat := rfl
    exact Nat.le_of_eq (if_pos (by omega))
  | two a b ha hb =>
    have hvalue : (two a b ha hb).value = 64 * (a.toNat % 32) + b.toNat % 64 := rfl
    change _ ≤ 2
    split
    · omega
    · exact Nat.le_of_eq (if_pos (by omega))
  | three a b c ha hb hc =>
    change _ ≤ 3
    split
    · omega
    · split <;> omega

/-- A unit has at most one form of each length. -/
private theorem eq_of_length_eq {form other : Form} (hunit : form.unit = other.unit)
    (hlength : form.bytes.length = other.bytes.length) : form = other := by
  rw [unit_eq_iff] at hunit
  cases form <;> cases other <;> simp [bytes] at hlength <;> simp only [value] at hunit
  case one.one a ha a' ha' =>
    obtain rfl := UInt8.toNat_inj.1 hunit
    rfl
  case two.two a b ha hb a' b' ha' hb' =>
    have hfirst : a.toNat = a'.toNat := by omega
    have hsecond : b.toNat = b'.toNat := by omega
    obtain rfl := UInt8.toNat_inj.1 hfirst
    obtain rfl := UInt8.toNat_inj.1 hsecond
    rfl
  case three.three a b c ha hb hc a' b' c' ha' hb' hc' =>
    have hfirst : a.toNat = a'.toNat := by omega
    have hsecond : b.toNat = b'.toNat := by omega
    have hthird : c.toNat = c'.toNat := by omega
    obtain rfl := UInt8.toNat_inj.1 hfirst
    obtain rfl := UInt8.toNat_inj.1 hsecond
    obtain rfl := UInt8.toNat_inj.1 hthird
    rfl

/-- The shortest form of a unit is the one that is written for it. -/
theorem shortest_iff {form : Form} : form.Shortest ↔ form.bytes = encodeUnit form.unit := by
  constructor
  · intro h
    obtain ⟨written, hbytes, hunit⟩ := exists_form_encodeUnit form.unit
    have hle : form.bytes.length ≤ (encodeUnit form.unit).length := hbytes ▸ h written hunit
    have hlength : written.bytes.length = form.bytes.length := by
      rw [hbytes]
      exact Nat.le_antisymm form.length_encodeUnit_le hle
    rw [← hbytes, eq_of_length_eq hunit hlength]
  · intro h other hunit
    rw [h, ← hunit]
    exact other.length_encodeUnit_le

/-- Zero is written in two bytes. -/
theorem shortest_zero_iff {form : Form} (h : form.unit = 0) : form.Shortest ↔ form.bytes = [0xC0, 0x80] := by
  rw [shortest_iff, h]
  rfl

end Form

/-- What is written for units splits into their shortest forms. -/
theorem exists_forms_encodeUnits (units : List UInt16) : ∃ forms : List Form,
    forms.flatMap Form.bytes = encodeUnits units ∧ forms.map Form.unit = units ∧ ∀ form ∈ forms, form.Shortest := by
  induction units with
  | nil => exact ⟨[], rfl, rfl, List.forall_mem_nil _⟩
  | cons u units ih =>
    obtain ⟨forms, hbytes, hunits, hshortest⟩ := ih
    obtain ⟨form, hform, rfl⟩ := exists_form_encodeUnit u
    refine ⟨form :: forms, ?_, ?_, List.forall_mem_cons.2 ⟨Form.shortest_iff.2 hform, hshortest⟩⟩
    · rw [List.flatMap_cons, hform, hbytes, encodeUnits, encodeUnits, List.flatMap_cons]
    · rw [List.map_cons, hunits]

/-- Forms are the shortest ones exactly when they are what is written for their units. -/
theorem forall_shortest_iff {forms : List Form} :
    (∀ form ∈ forms, form.Shortest) ↔ encodeUnits (forms.map Form.unit) = forms.flatMap Form.bytes := by
  constructor
  · intro h
    rw [encodeUnits, List.flatMap_map]
    exact List.flatMap_congr fun form hmem => (Form.shortest_iff.1 (h form hmem)).symm
  · intro h
    obtain ⟨written, hbytes, -, hshortest⟩ := exists_forms_encodeUnits (forms.map Form.unit)
    obtain rfl := Form.eq_of_flatMap_bytes (hbytes.trans h)
    exact hshortest

/-- Written code units are read back. -/
theorem decode_encodeUnits (units : List UInt16) : decode (encodeUnits units) = some units := by
  obtain ⟨forms, hbytes, hunits, -⟩ := exists_forms_encodeUnits units
  exact decode_eq_some_iff.2 ⟨forms, hbytes, hunits⟩

end ClassGraft.ModifiedUtf8
