import ClassGraft.Proofs.Alignment.Walk

/-!
# The cursors of an alignment

Whatever the bytes of the two methods are, and whatever comes of a step, an alignment stays inside both methods.  Most
steps move on in the patched method and change nothing (`Progress.MovedOn`).  An index that is copied takes the place of
exactly two bytes (`Copied`).  So all steps keep the length of the patched method and what is before the position from
which they start (`Progress.Onward`).  Of the base method, there is always left what stands from some offset on
(`Suffix.LeftOf`).
-/

namespace ClassGraft.Alignment

/-- What is left of a method from the offset on. -/
structure Suffix.LeftOf (base : Bytes) (suffix : Suffix) : Prop where
  offset_le : suffix.offset ≤ base.length
  bytes_eq : suffix.bytes = base.drop suffix.offset

/-- Only the position has changed, to one further on that is still inside. -/
structure Progress.MovedOn (before after : Progress) : Prop where
  patched_eq : after.patched = before.patched
  report_eq : after.report = before.report
  position_le : before.position ≤ after.position
  inside : before.position ≤ before.patched.size → after.position ≤ before.patched.size

/-- An index has been put in the place of the two bytes at the position. -/
structure Copied (index : Index) (before after : Progress) : Prop where
  fits : before.position + 2 ≤ before.patched.size
  patched : after.patched.toList =
    before.patched.toList.take before.position ++ u16Bytes index ++ before.patched.toList.drop (before.position + 2)
  position : after.position = before.position + 2
  visited : after.report.visited = before.report.visited + 1
  corrected : after.report.corrected ≤ before.report.corrected + 1
  attributes : after.report.attributes = before.report.attributes

/-- From a position on, the patched method has kept its length and all that is before the position, the position is
still inside, no more indices have been corrected than visited, and no more attributes have been met than given. -/
structure Progress.Onward (limit : Nat) (before after : Progress) : Prop where
  size_eq : after.patched.size = before.patched.size
  position_le : before.position ≤ after.position
  inside : before.position ≤ before.patched.size → after.position ≤ before.patched.size
  kept : ∀ i < before.position, after.patched[i]? = before.patched[i]?
  corrected_le : after.report.corrected + before.report.visited ≤ before.report.corrected + after.report.visited
  attributes_le : after.report.attributes ≤ before.report.attributes + limit

/-- The position some bytes further. -/
def Progress.moved (progress : Progress) (n : Nat) : Progress := { progress with position := progress.position + n }

section

variable {base : Bytes} {suffix rest : Suffix} {n : Nat}

theorem Suffix.LeftOf.size_eq (h : suffix.LeftOf base) : suffix.size = base.length - suffix.offset := by
  rw [Suffix.size, h.bytes_eq, List.length_drop]

/-- What is left further on is left at an offset that is greater by as much as it is shorter. -/
theorem Suffix.LeftOf.offset_add_le (h : suffix.LeftOf base) (hrest : rest.LeftOf base)
    (hsize : rest.size + n ≤ suffix.size) : suffix.offset + n ≤ rest.offset := by
  rw [h.size_eq, hrest.size_eq] at hsize
  have := h.offset_le
  have := hrest.offset_le
  omega

end

section

variable {before middle after : Progress} {α : Type} {condition : α → Progress → Prop} {limit limit' n : Nat}
  {index : Index}

namespace Progress.MovedOn

theorem refl (progress : Progress) : progress.MovedOn progress :=
  ⟨rfl, rfl, Nat.le_refl _, fun h => h⟩

theorem moved (h : before.position + n ≤ before.patched.size) : before.MovedOn (before.moved n) :=
  ⟨rfl, rfl, Nat.le_add_right _ _, fun _ => h⟩

theorem trans (h : before.MovedOn middle) (h' : middle.MovedOn after) : before.MovedOn after where
  patched_eq := h'.patched_eq.trans h.patched_eq
  report_eq := h'.report_eq.trans h.report_eq
  position_le := Nat.le_trans h.position_le h'.position_le
  inside hbefore := h.patched_eq ▸ h'.inside (h.patched_eq.symm ▸ h.inside hbefore)

/-- What moves on from a state moves on from where that state was reached from. -/
theorem leaves {x : Aligner α} (h : before.MovedOn middle) (hx : Leaves x middle middle.MovedOn condition) :
    Leaves x middle before.MovedOn condition :=
  hx.of_kind fun _ => h.trans

theorem onward (h : before.MovedOn after) : before.Onward 0 after where
  size_eq := congrArg Array.size h.patched_eq
  position_le := h.position_le
  inside := h.inside
  kept _ _ := by rw [h.patched_eq]
  corrected_le := Nat.le_of_eq (by rw [h.report_eq])
  attributes_le := Nat.le_of_eq (congrArg AlignmentReport.attributes h.report_eq)

end Progress.MovedOn

namespace Progress.Onward

theorem mono (h : before.Onward limit after) (hlimit : limit ≤ limit') : before.Onward limit' after :=
  { h with attributes_le := Nat.le_trans h.attributes_le (Nat.add_le_add_left hlimit _) }

theorem trans (h : before.Onward limit middle) (h' : middle.Onward limit' after) :
    before.Onward (limit + limit') after where
  size_eq := h'.size_eq.trans h.size_eq
  position_le := Nat.le_trans h.position_le h'.position_le
  inside hbefore := h.size_eq ▸ h'.inside (h.size_eq.symm ▸ h.inside hbefore)
  kept i hi := (h'.kept i (Nat.lt_of_lt_of_le hi h.position_le)).trans (h.kept i hi)
  corrected_le := by
    have := h.corrected_le
    have := h'.corrected_le
    omega
  attributes_le := by
    have := h.attributes_le
    have := h'.attributes_le
    omega

/-- What goes on from a state goes on from where that state was reached from. -/
theorem leaves {x : Aligner α} (h : before.Onward limit middle)
    (hx : Leaves x middle (middle.Onward limit') condition) :
    Leaves x middle (before.Onward (limit + limit')) condition :=
  hx.of_kind fun _ => h.trans

theorem leaves_movedOn {x : Aligner α} (h : before.Onward limit middle)
    (hx : Leaves x middle middle.MovedOn condition) : Leaves x middle (before.Onward limit) condition :=
  hx.of_kind fun _ hmoved => h.trans hmoved.onward

end Progress.Onward

namespace Copied

theorem size_eq (h : Copied index before after) : after.patched.size = before.patched.size := by
  have hlength := congrArg List.length h.patched
  have := h.fits
  simp only [List.length_append, List.length_take, List.length_drop, length_u16Bytes, Array.length_toList] at hlength
  omega

/-- Nothing but the two bytes is changed. -/
theorem kept (h : Copied index before after) {i : Nat} (hi : i < before.position ∨ before.position + 2 ≤ i) :
    after.patched[i]? = before.patched[i]? := by
  have hpast : (before.patched.toList.take before.position).length = before.position := by
    have := h.fits
    rw [List.length_take, Array.length_toList]
    omega
  rw [← Array.getElem?_toList, ← Array.getElem?_toList, h.patched]
  rcases hi with hi | hi
  · rw [List.append_assoc, List.getElem?_append_left (by omega), List.getElem?_take_of_lt hi]
  · have hcopied : (before.patched.toList.take before.position ++ u16Bytes index).length = before.position + 2 := by
      rw [List.length_append, hpast, length_u16Bytes]
    rw [List.getElem?_append_right (by omega), List.getElem?_drop, hcopied]
    congr 1
    omega

theorem onward (h : Copied index before after) : before.Onward 0 after where
  size_eq := h.size_eq
  position_le := by rw [h.position]; omega
  inside _ := by rw [h.position]; exact h.fits
  kept _ hi := h.kept (.inl hi)
  corrected_le := by
    have := h.visited
    have := h.corrected
    omega
  attributes_le := Nat.le_of_eq h.attributes

end Copied

end

/-! ### Steps that only move on -/

section

variable {before : Progress} {suffix : Suffix}

theorem leaves_takeBase (n : Nat) :
    Leaves (takeBase n suffix) before before.MovedOn fun taken after =>
      after = before ∧ ∀ base, suffix.LeftOf base → taken.2.1.LeftOf base := by
  unfold takeBase
  split
  · rename_i front rest hcut
    obtain ⟨hbytes, hlength⟩ := cut_eq_some_iff.1 hcut
    refine .pure (.refl before) ⟨rfl, fun base hbase => ?_⟩
    have hfront := congrArg List.length (hbase.bytes_eq.symm.trans hbytes)
    rw [List.length_append, List.length_drop] at hfront
    have := hbase.offset_le
    refine ⟨by dsimp only; omega, ?_⟩
    dsimp only
    rw [← List.drop_drop, ← hbase.bytes_eq, hbytes, List.drop_left' hlength]
  · exact .throw (.refl before)

theorem leaves_patchedEnd (n : Nat) :
    Leaves (patchedEnd n) before before.MovedOn fun stop after =>
      after = before ∧ stop = before.position + n ∧ stop ≤ before.patched.size := by
  refine .get_bind ?_
  split
  · rename_i h
    exact .pure (.refl before) ⟨rfl, rfl, h⟩
  · exact .throw (.refl before)

theorem leaves_takePatched (k : Nat) :
    Leaves (takePatched k) before before.MovedOn fun number after =>
      after = before.moved k ∧ before.position + k ≤ before.patched.size ∧
        number = ofBigEndian (before.patched.extract before.position (before.position + k)).toList := by
  refine .get_bind ((leaves_patchedEnd k).bind fun stop after _ hstop => ?_)
  obtain ⟨rfl, rfl, hfits⟩ := hstop
  exact .get_bind (.modify_bind (.pure (.moved hfits) ⟨rfl, hfits, rfl⟩))

theorem leaves_skipBoth (n m : Nat) :
    Leaves (skipBoth n m suffix) before before.MovedOn fun left after =>
      after = before.moved n ∧ ∀ base, suffix.LeftOf base → left.1.LeftOf base := by
  refine (leaves_patchedEnd n).bind fun stop after _ hstop => ?_
  obtain ⟨rfl, rfl, hfits⟩ := hstop
  refine (leaves_takeBase m).bind fun taken after _ htaken => ?_
  obtain ⟨rfl, hleft⟩ := htaken
  exact .modify_bind (.pure (.moved hfits) ⟨rfl, hleft⟩)

theorem leaves_takeBoth (k : Nat) :
    Leaves (takeBoth k suffix) before before.MovedOn fun taken after =>
      after = before.moved k ∧ taken.2.2.1.size + k = suffix.size ∧
        taken.1 = ofBigEndian (before.patched.extract before.position (before.position + k)).toList ∧
        ∀ base, suffix.LeftOf base → taken.2.2.1.LeftOf base := by
  refine (leaves_takePatched k).bind fun number after hmoved hnumber => ?_
  obtain ⟨rfl, -, rfl⟩ := hnumber
  refine (hmoved.leaves (leaves_takeBase k)).bind fun taken after hmoved htaken => ?_
  obtain ⟨rfl, hleft⟩ := htaken
  exact .pure hmoved ⟨rfl, taken.2.2, rfl, hleft⟩

theorem leaves_agreeOn (patchedCount baseCount : Nat) :
    Leaves (agreeOn patchedCount baseCount) before before.MovedOn fun _ after => after = before := by
  unfold agreeOn
  dsimp only
  split
  · exact .lift_bind fun _ => .pure (.refl before) rfl
  · exact .pure (.refl before) rfl

theorem leaves_openCode :
    Leaves (openCode suffix) before before.MovedOn fun opened _ =>
      ∀ base, suffix.LeftOf base → opened.2.1.LeftOf base := by
  refine (leaves_skipBoth 4 4).bind fun atCode after hon hcode => ?_
  refine (hon.leaves (leaves_takeBoth 4)).bind fun codes after hon hcodes => ?_
  refine (hon.leaves (leaves_skipBoth _ _)).bind fun atHandlerCount after hon hhandlerCount => ?_
  refine (hon.leaves (leaves_takeBoth 2)).bind fun handlers after hon hhandlers => ?_
  refine (hon.leaves (leaves_skipBoth _ _)).bind fun atAttributeCount after hon hattributeCount => ?_
  refine (hon.leaves (leaves_takeBoth 2)).bind fun counts after hon hcounts => ?_
  refine (hon.leaves (leaves_agreeOn _ _)).bind fun count after hon _ => .pure hon fun base hbase => ?_
  have hatInstructions := hcodes.2.2.2 base (hcode.2 base hbase)
  have hatHandlers := hhandlers.2.2.2 base (hhandlerCount.2 base hatInstructions)
  exact hcounts.2.2.2 base (hattributeCount.2 base hatHandlers)

end

/-! ### Indices -/

/-- There is an index where there are two bytes. -/
private theorem exists_index_at {buffer : Array UInt8} {position : Nat} (h : position + 2 ≤ buffer.size) :
    ∃ index, buffer.toList = buffer.toList.take position ++ (u16Bytes index ++ buffer.toList.drop (position + 2)) ∧
      ofBigEndian (buffer.extract position (position + 2)).toList = index.toNat := by
  have hlength : ((buffer.toList.drop position).take 2).length = 2 := by
    rw [List.length_take, List.length_drop, Array.length_toList]
    omega
  obtain ⟨high, low, hfront⟩ := List.length_eq_two.1 hlength
  refine ⟨UInt16.ofNat (ofBigEndian [high, low]), ?_, ?_⟩
  · rw [u16Bytes_ofBigEndian, ← hfront, ← List.drop_drop, List.take_append_drop, List.take_append_drop]
  · have hlt : ofBigEndian [high, low] < 65536 := by simpa using ofBigEndian_lt [high, low]
    rw [UInt16.toNat_ofNat_of_lt' hlt, ← hfront, Array.toList_extract, List.extract_eq_take_drop]
    congr 2
    omega

/-- An index that is written takes the place of two bytes. -/
private theorem toList_writeIndex {buffer : Array UInt8} {position : Nat} (h : position + 2 ≤ buffer.size)
    (index : Index) : (writeIndex buffer position index).toList =
      buffer.toList.take position ++ u16Bytes index ++ buffer.toList.drop (position + 2) := by
  obtain ⟨current, hbuffer, -⟩ := exists_index_at h
  have hpast : (buffer.toList.take position).length = position := by
    rw [List.length_take, Array.length_toList]
    omega
  generalize buffer.toList.take position = past at hbuffer hpast
  generalize buffer.toList.drop (position + 2) = ahead at hbuffer
  obtain rfl : buffer = (past ++ (u16Bytes current ++ ahead)).toArray := Array.toList_inj.1 hbuffer
  rw [← hpast, writeIndex_reached, List.append_assoc]

section

variable {before : Progress} {suffix : Suffix}

/-- Copying an index either fails and changes nothing, or puts it in the place of two bytes, which are there. -/
theorem leaves_copyIndex :
    Leaves (copyIndex suffix) before (fun after => before.MovedOn after ∨ ∃ index, Copied index before after)
      fun copied after => Copied copied.1 before after ∧ ∀ base, suffix.LeftOf base → copied.2.1.LeftOf base := by
  refine (leaves_takeBase 2).bind_of_kind (fun _ => .inl) fun taken before _ htaken => ?_
  obtain ⟨rfl, hleft⟩ := htaken
  refine .get_bind ((leaves_takePatched 2).bind_of_kind (fun _ => .inl) fun current after _ hcurrent => ?_)
  obtain ⟨rfl, hfits, rfl⟩ := hcurrent
  dsimp only
  split
  · rename_i hsame
    have hcopied : Copied (UInt16.ofNat (ofBigEndian taken.1)) before
        { before.moved 2 with report.visited := before.report.visited + 1 } := by
      obtain ⟨found, hbuffer, hfound⟩ := exists_index_at hfits
      obtain rfl := UInt16.toNat_inj.1 (hfound.symm.trans hsame)
      exact ⟨hfits, by rwa [List.append_assoc], rfl, rfl, Nat.le_succ _, rfl⟩
    exact .modify_bind (.pure (.inr ⟨_, hcopied⟩) ⟨hcopied, hleft⟩)
  · have hcopied : Copied (UInt16.ofNat (ofBigEndian taken.1)) before
        { before.moved 2 with
          patched := writeIndex before.patched before.position (UInt16.ofNat (ofBigEndian taken.1))
          report.visited := before.report.visited + 1
          report.corrected := before.report.corrected + 1 } :=
      ⟨hfits, toList_writeIndex hfits _, rfl, rfl, Nat.le_refl _, rfl⟩
    exact .lift_bind fun _ => .modify_bind (.pure (.inr ⟨_, hcopied⟩) ⟨hcopied, hleft⟩)

/-! ### Attributes -/

/-- An attribute has been begun: both cursors are behind its six bytes, the end that it declares is inside the patched
method, and one more index has been visited and one more attribute met. -/
structure Begun (before : Progress) (opened : Opened suffix) (opening : Progress) : Prop where
  position : opening.position = before.position + 6
  end_eq : opened.patchedEnd = opening.position +
    ofBigEndian (opening.patched.extract (before.position + 2) (before.position + 6)).toList
  end_le : opened.patchedEnd ≤ opening.patched.size
  visited : opening.report.visited = before.report.visited + 1
  attributes : opening.report.attributes = before.report.attributes + 1
  contents_size : opened.contents.size + 6 = suffix.size
  rest_size : opened.rest.size ≤ opened.contents.size
  leftOf : ∀ base, suffix.LeftOf base → opened.contents.LeftOf base ∧ opened.rest.LeftOf base

theorem leaves_openAttribute (pool : Pool) :
    Leaves (openAttribute pool suffix) before (before.Onward 1) (Begun before) := by
  have hcopyIndex : ∀ after, (before.MovedOn after ∨ ∃ index, Copied index before after) → before.Onward 1 after := by
    rintro after (hmoved | ⟨index, hcopied⟩)
    · exact hmoved.onward.mono (Nat.zero_le 1)
    · exact hcopied.onward.mono (Nat.zero_le 1)
  refine leaves_copyIndex.bind_of_kind hcopyIndex fun copied after _ hcopied => ?_
  obtain ⟨index, afterName, hname⟩ := copied
  obtain ⟨hcopied, hafterName⟩ := hcopied
  have hmet : before.Onward 1 { after with report.attributes := after.report.attributes + 1 } :=
    { hcopied.onward with attributes_le := Nat.le_of_eq (congrArg (· + 1) hcopied.attributes) }
  refine .modify_bind ((hmet.leaves_movedOn (leaves_takeBoth 4)).bind fun lengths after hon hlengths => ?_)
  obtain ⟨patchedLength, baseLength, contents, hlength⟩ := lengths
  obtain ⟨rfl, hcontents, rfl, hcontentsLeft⟩ := hlengths
  refine (hon.leaves_movedOn (leaves_patchedEnd _)).bind fun stop after _ hstop => ?_
  obtain ⟨rfl, rfl, hfits⟩ := hstop
  refine (hon.leaves_movedOn (leaves_takeBase baseLength)).bind fun taken after hon htaken => ?_
  obtain ⟨taken, rest, hrest⟩ := taken
  obtain ⟨rfl, hrestLeft⟩ := htaken
  dsimp only
  split
  · exact .throw hon
  · have hposition := hcopied.position
    refine .pure hon ⟨?_, ?_, hfits, hcopied.visited, congrArg (· + 1) hcopied.attributes, ?_, ?_, ?_⟩
    · dsimp only [Progress.moved]
      omega
    · dsimp only [Progress.moved]
      rw [hposition]
    · dsimp only at hcontents ⊢
      omega
    · dsimp only
      omega
    · intro base hbase
      have hcontents := hcontentsLeft base (hafterName base hbase)
      exact ⟨hcontents, hrestLeft base hcontents⟩

end

end ClassGraft.Alignment
