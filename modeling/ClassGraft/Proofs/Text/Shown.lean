import ClassGraft.Proofs.Text.RoundTrip

/-!
# Code units and the texts that they show

Code units are those of the text that they show when each surrogate among them belongs to a pair, and only then
(`Utf16.unitsOfText_textOfUnits_iff`).  This is so when the text has no `U+FFFD`, which stands for the surrogates that
belong to none, so one sequence of units alone shows such a text (`Utf16.eq_of_textOfUnits_eq`).
-/

namespace ClassGraft.Utf16

/-- Each surrogate belongs to a pair: a high one stands in front of a low one, and a low one behind a high one. -/
def Paired (units : List UInt16) : Prop :=
  ∀ i u, units[i]? = some u →
    (isHigh u = true → ∃ v, units[i + 1]? = some v ∧ isLow v = true) ∧
      (isLow u = true → ∃ j v, j + 1 = i ∧ units[j]? = some v ∧ isHigh v = true)

/-! ### Pairs at the front -/

variable {u v : UInt16} {rest : List UInt16}

private theorem not_isLow_of_isHigh (h : isHigh u = true) : ¬isLow u = true := by
  rw [isHigh_iff] at h
  rw [isLow_iff]
  omega

theorem paired_nil : Paired [] := fun i u h => by simp at h

/-- A unit in front that is no surrogate belongs to no pair. -/
theorem paired_cons_iff (hhigh : isHigh u = false) (hlow : isLow u = false) : Paired (u :: rest) ↔ Paired rest := by
  constructor
  · intro h i w hw
    obtain ⟨hfollowed, hpreceded⟩ := h (i + 1) w hw
    refine ⟨hfollowed, fun hwlow => ?_⟩
    obtain ⟨j, v, hj, hv, hvhigh⟩ := hpreceded hwlow
    cases j with
    | zero =>
      obtain rfl : u = v := Option.some.inj hv
      rw [hhigh] at hvhigh
      cases hvhigh
    | succ j => exact ⟨j, v, by omega, hv, hvhigh⟩
  · intro h i w hw
    cases i with
    | zero =>
      obtain rfl : u = w := Option.some.inj hw
      simp [hhigh, hlow]
    | succ i =>
      obtain ⟨hfollowed, hpreceded⟩ := h i w hw
      refine ⟨hfollowed, fun hwlow => ?_⟩
      obtain ⟨j, v, hj, hv, hvhigh⟩ := hpreceded hwlow
      exact ⟨j + 1, v, by omega, hv, hvhigh⟩

/-- A pair in front leaves the surrogates behind it as they are. -/
theorem paired_pair_iff (hhigh : isHigh u = true) (hlow : isLow v = true) : Paired (u :: v :: rest) ↔ Paired rest := by
  constructor
  · intro h i w hw
    obtain ⟨hfollowed, hpreceded⟩ := h (i + 2) w hw
    refine ⟨hfollowed, fun hwlow => ?_⟩
    obtain ⟨j, x, hj, hx, hxhigh⟩ := hpreceded hwlow
    rcases j with _ | _ | j
    · omega
    · obtain rfl : v = x := Option.some.inj hx
      exact absurd hlow (not_isLow_of_isHigh hxhigh)
    · exact ⟨j, x, by omega, hx, hxhigh⟩
  · intro h i w hw
    rcases i with _ | _ | i
    · obtain rfl : u = w := Option.some.inj hw
      exact ⟨fun _ => ⟨v, rfl, hlow⟩, fun hulow => absurd hulow (not_isLow_of_isHigh hhigh)⟩
    · obtain rfl : v = w := Option.some.inj hw
      exact ⟨fun hvhigh => absurd hlow (not_isLow_of_isHigh hvhigh), fun _ => ⟨0, u, rfl, rfl, hhigh⟩⟩
    · obtain ⟨hfollowed, hpreceded⟩ := h i w hw
      refine ⟨hfollowed, fun hwlow => ?_⟩
      obtain ⟨j, x, hj, hx, hxhigh⟩ := hpreceded hwlow
      exact ⟨j + 2, x, by omega, hx, hxhigh⟩

/-- The first unit is no low surrogate, and no high one unless a low one follows. -/
theorem Paired.head (h : Paired (u :: rest)) (hpair : ∀ v, rest[0]? = some v → ¬(isHigh u && isLow v) = true) :
    isHigh u = false ∧ isLow u = false := by
  obtain ⟨hfollowed, hpreceded⟩ := h 0 u rfl
  constructor
  · rw [← Bool.not_eq_true]
    intro hhigh
    obtain ⟨v, hv, hlow⟩ := hfollowed hhigh
    exact hpair v hv (by rw [hhigh, hlow]; rfl)
  · rw [← Bool.not_eq_true]
    intro hlow
    obtain ⟨j, v, hj, -⟩ := hpreceded hlow
    omega

/-! ### The units of what is shown -/

private theorem toNat_ofNat {n : Nat} (h : n.isValidChar) : (Char.ofNat n).toNat = n := by
  rw [Char.ofNat, dif_pos h]
  rfl

/-- A unit that is no surrogate is the only one of its character. -/
private theorem unitsOfChar_charOfUnit (hhigh : isHigh u = false) (hlow : isLow u = false) :
    unitsOfChar (charOfUnit u) = [u] := by
  have hu : u.toNat < 0x10000 := u.toNat_lt
  have hchar : u.toNat.isValidChar := by
    rw [← Bool.not_eq_true, isHigh_iff] at hhigh
    rw [← Bool.not_eq_true, isLow_iff] at hlow
    by_cases h : u.toNat < 0xD800
    · exact .inl h
    · exact .inr ⟨by omega, by omega⟩
  rw [charOfUnit, hhigh, hlow]
  change unitsOfChar (Char.ofNat u.toNat) = [u]
  rw [unitsOfChar, toNat_ofNat hchar]
  rw [if_pos hu, UInt16.ofNat_toNat]

/-- A surrogate pair is made of the units of its character. -/
private theorem unitsOfChar_joinPair {high low : UInt16} (hhigh : isHigh high = true) (hlow : isLow low = true) :
    unitsOfChar (joinPair high low) = [high, low] := by
  rw [isHigh_iff] at hhigh
  rw [isLow_iff] at hlow
  have hchar : Nat.isValidChar (0x10000 + (high.toNat - 0xD800) * 0x400 + (low.toNat - 0xDC00)) :=
    .inr ⟨by omega, by omega⟩
  unfold unitsOfChar joinPair
  rw [toNat_ofNat hchar]
  dsimp only
  rw [if_neg (by omega)]
  have hfirst : 0xD800 + (0x10000 + (high.toNat - 0xD800) * 0x400 + (low.toNat - 0xDC00) - 0x10000) / 0x400 =
      high.toNat := by omega
  have hsecond : 0xDC00 + (0x10000 + (high.toNat - 0xD800) * 0x400 + (low.toNat - 0xDC00) - 0x10000) % 0x400 =
      low.toNat := by omega
  rw [hfirst, hsecond, UInt16.ofNat_toNat, UInt16.ofNat_toNat]

/-- Reading units whose surrogates are paired leaves characters that are made of these units. -/
private theorem unitsOfChars_charsOnto {units : List UInt16} {read : List Char} (h : Paired units) :
    (charsOnto units read).reverse.flatMap unitsOfChar = read.reverse.flatMap unitsOfChar ++ units := by
  fun_induction charsOnto units read with
  | case1 read => simp
  | case2 u read =>
    obtain ⟨hhigh, hlow⟩ := h.head fun v hv => by simp at hv
    simp [unitsOfChar_charOfUnit hhigh hlow]
  | case3 u v rest read hpair ih =>
    rw [Bool.and_eq_true] at hpair
    rw [ih ((paired_pair_iff hpair.1 hpair.2).1 h)]
    simp [unitsOfChar_joinPair hpair.1 hpair.2]
  | case4 u v rest read hpair ih =>
    obtain ⟨hhigh, hlow⟩ := h.head fun w hw => by
      obtain rfl : v = w := Option.some.inj hw
      exact hpair
    rw [ih ((paired_cons_iff hhigh hlow).1 h)]
    simp [unitsOfChar_charOfUnit hhigh hlow]

/-- The surrogates among the units of a text are paired. -/
theorem paired_unitsOfText (text : String) : Paired (unitsOfText text) := by
  unfold unitsOfText
  induction text.toList with
  | nil => exact paired_nil
  | cons c chars ih =>
    rw [List.flatMap_cons]
    rcases unitsOfChar_cases c with ⟨u, hunits, hhigh, hlow, -⟩ | ⟨high, low, hunits, hhigh, hlow, -⟩
    · rw [hunits, List.cons_append, List.nil_append, paired_cons_iff hhigh hlow]
      exact ih
    · rw [hunits, List.cons_append, List.cons_append, List.nil_append, paired_pair_iff hhigh hlow]
      exact ih

/-- Code units are those of the text that they show exactly when their surrogates are paired. -/
theorem unitsOfText_textOfUnits_iff {units : List UInt16} :
    unitsOfText (textOfUnits units) = units ↔ Paired units := by
  constructor
  · intro h
    rw [← h]
    exact paired_unitsOfText _
  · intro h
    rw [unitsOfText, textOfUnits, String.toList_ofList, unitsOfChars_charsOnto h]
    rfl

/-! ### Texts without replaced surrogates -/

private theorem mem_charsOnto {units : List UInt16} {read : List Char} {c : Char} (h : c ∈ read) :
    c ∈ charsOnto units read := by
  fun_induction charsOnto units read with
  | case1 read => exact h
  | case2 u read => exact List.mem_cons_of_mem _ h
  | case3 u v rest read hpair ih => exact ih (List.mem_cons_of_mem _ h)
  | case4 u v rest read hpair ih => exact ih (List.mem_cons_of_mem _ h)

private theorem not_surrogate (h : charOfUnit u ≠ '\uFFFD') : isHigh u = false ∧ isLow u = false := by
  rw [← Bool.or_eq_false_iff, ← Bool.not_eq_true]
  intro hsurrogate
  rw [charOfUnit, if_pos hsurrogate] at h
  exact h rfl

/-- Units are paired when reading them finds no reason for `U+FFFD`. -/
private theorem paired_of_charsOnto {units : List UInt16} {read : List Char}
    (h : '\uFFFD' ∉ charsOnto units read) : Paired units := by
  fun_induction charsOnto units read with
  | case1 read => exact paired_nil
  | case2 u read =>
    obtain ⟨hhigh, hlow⟩ := @not_surrogate u fun heq => h (List.mem_cons.2 (.inl heq.symm))
    exact (paired_cons_iff hhigh hlow).2 paired_nil
  | case3 u v rest read hpair ih =>
    rw [Bool.and_eq_true] at hpair
    exact (paired_pair_iff hpair.1 hpair.2).2 (ih h)
  | case4 u v rest read hpair ih =>
    obtain ⟨hhigh, hlow⟩ := @not_surrogate u fun heq => h (mem_charsOnto (List.mem_cons.2 (.inl heq.symm)))
    exact (paired_cons_iff hhigh hlow).2 (ih h)

/-- Code units that show a text without `U+FFFD` are those of the text. -/
theorem unitsOfText_textOfUnits {units : List UInt16} (h : '\uFFFD' ∉ (textOfUnits units).toList) :
    unitsOfText (textOfUnits units) = units := by
  rw [textOfUnits, String.toList_ofList, List.mem_reverse] at h
  exact unitsOfText_textOfUnits_iff.2 (paired_of_charsOnto h)

/-- Only one sequence of code units shows a text without `U+FFFD`. -/
theorem eq_of_textOfUnits_eq {a b : List UInt16} (h : textOfUnits a = textOfUnits b)
    (hshown : '\uFFFD' ∉ (textOfUnits a).toList) : a = b := by
  rw [← unitsOfText_textOfUnits hshown, h, unitsOfText_textOfUnits (h ▸ hshown)]

end ClassGraft.Utf16
