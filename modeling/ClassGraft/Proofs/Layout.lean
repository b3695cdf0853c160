import ClassGraft.Layout
import ClassGraft.Proofs.Codec.Reading
import Mathlib.Data.List.Basic

/-!
# Templates of attributes and the bytes they were cut from

Reading a part takes the bytes of its pieces off the input (`Layout.Part.cuts_of_step`).  So when the contents of
an attribute have their layout, the pieces of the template and what is left over, put together, are these contents
(`Layout.template_bytes`), and the pieces alone are no longer than they are.
-/

namespace ClassGraft.Layout

/-- What reading a part has taken off the input are the bytes of its pieces. -/
def Step.Cuts (step : Step) (input : Bytes) : Prop := step.pieces.flatMap Piece.bytes ++ step.rest = input

/-- Taking bytes cuts them off when they are what the pieces made of them hold. -/
private theorem cuts_of_takeThen {n : Nat} {next : Bytes → Except LayoutFault (List Piece × Work)} {input : Bytes}
    {step : Step} (h : takeThen n next input = .ok step)
    (hnext : ∀ front pieces inner, front.length = n → next front = .ok (pieces, inner) →
      pieces.flatMap Piece.bytes = front) : step.Cuts input := by
  unfold takeThen at h
  split at h
  · cases h
  · rename_i front rest hcut
    obtain ⟨rfl, hlength⟩ := cut_eq_some_iff.1 hcut
    cases hfound : next front with
    | error fault =>
      rw [hfound] at h
      cases h
    | ok found =>
      obtain ⟨pieces, inner⟩ := found
      rw [hfound] at h
      cases h
      have hbytes := hnext front pieces inner hlength hfound
      show pieces.flatMap Piece.bytes ++ rest = front ++ rest
      rw [hbytes]

private theorem cuts_of_takeTag {partsOf : UInt8 → Except LayoutFault Work} {input : Bytes} {step : Step}
    (h : takeTag partsOf input = .ok step) : step.Cuts input := by
  refine cuts_of_takeThen h fun front pieces inner _ hnext => ?_
  cases hparts : partsOf (UInt8.ofNat (ofBigEndian front)) with
  | error fault =>
    rw [hparts] at hnext
    cases hnext
  | ok parts =>
    rw [hparts] at hnext
    cases hnext
    simp [Piece.bytes]

/-- The two bytes of an index are those of a slot with this index. -/
private theorem u16Bytes_of_pair {front : Bytes} (h : front.length = 2) :
    u16Bytes (UInt16.ofNat (ofBigEndian front)) = front := by
  obtain ⟨high, low, rfl⟩ := List.length_eq_two.1 h
  exact u16Bytes_ofBigEndian high low

/-- Reading a part takes the bytes of its pieces off the input. -/
theorem Part.cuts_of_step {part : Part} {input : Bytes} {step : Step} (h : part.step input = .ok step) :
    step.Cuts input := by
  cases part with
  | plain size =>
    refine cuts_of_takeThen h fun front pieces inner _ hnext => ?_
    cases hnext
    simp [Piece.bytes]
  | index =>
    refine cuts_of_takeThen h fun front pieces inner hlength hnext => ?_
    cases hnext
    simp [Piece.bytes, Slot.bytes, u16Bytes_of_pair hlength]
  | optionalIndex =>
    refine cuts_of_takeThen h fun front pieces inner hlength hnext => ?_
    cases hnext
    simp [Piece.bytes, Slot.bytes, u16Bytes_of_pair hlength]
  | counted count each =>
    refine cuts_of_takeThen h fun front pieces inner _ hnext => ?_
    cases hnext
    simp [Piece.bytes]
  | elementValue => exact cuts_of_takeTag h
  | frame => exact cuts_of_takeTag h
  | verificationType => exact cuts_of_takeTag h
  | _ => cases h; rfl

/-- Reading on to the end puts the pieces of the input, up to what is left over, after those found so far. -/
private theorem bytes_of_readOnto (work : Work) (input : Bytes) (found : List Piece) {leftOver : Bytes}
    (h : (readOnto work input found).outcome = .ok leftOver) :
    (readOnto work input found).bytes ++ leftOver = found.reverse.flatMap Piece.bytes ++ input := by
  induction work, input, found using readOnto.induct with
  | case1 input found =>
    rw [readOnto] at h ⊢
    cases h
    rfl
  | case2 input found part work ih =>
    rw [readOnto] at h ⊢
    exact ih h
  | case3 input found n part work fault hstep =>
    rw [readOnto, hstep] at h
    cases h
  | case4 input found n part work step hstep ih =>
    rw [readOnto, hstep] at h ⊢
    have hcuts : step.pieces.flatMap Piece.bytes ++ step.rest = input := Part.cuts_of_step hstep
    rw [ih h, ← hcuts]
    simp

/-- Contents that have their layout are the pieces of the template, followed by what is left over. -/
theorem template_bytes {layout : Layout} {info leftOver : Bytes} (h : (layout.template info).outcome = .ok leftOver) :
    (layout.template info).bytes ++ leftOver = info := by
  have hbytes := bytes_of_readOnto [(1, layout.part)] info [] h
  simpa [template] using hbytes

end ClassGraft.Layout
