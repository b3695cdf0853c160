import ClassGraft.Proofs.Layout
import ClassGraft.Proofs.Layout.Grammar
import ClassGraft.Proofs.Template

/-!
# Reading attributes by their grammar

Reading a part gives its first pieces and puts the parts of the others in its place (`Layout.Opens`), and what is made
of these fills the part out to what the grammar says (`Layout.exists_opens_of_kind`, `Layout.Opens.kind`).  So reading
contents of a layout succeeds exactly when they start with pieces of its shape, and it gives these pieces
(`Layout.template_eq_iff`).  The same pieces with other indices are read in the same way (`Layout.Shape.renamed`).
-/

namespace ClassGraft.Layout

/-! ### Reading one part -/

/-- The first pieces that reading a part gives, and the parts that it puts in its place. -/
inductive Opens : Part → List Piece → Work → Prop
  | plain (content : Bytes) : Opens (.plain content.length) [.fixed content] []
  | index (index : Index) : Opens .index [.slot (.wide index)] []
  | optionalIndex (index : Index) : Opens .optionalIndex [.slot (.optional index)] []
  | counted {count : OperandWidth} (each : Part) {n : Nat} (hn : n < Nat.pow 256 count.size) :
      Opens (.counted count each) [.fixed (bigEndian count.size n)] [(n, each)]
  | parameter : Opens .parameter [] [(1, .optionalIndex), (1, .plain 2)]
  | localVariable : Opens .localVariable [] [(1, .plain 4), (2, .index), (1, .plain 2)]
  | annotationBody : Opens .annotationBody [] [(1, .index), (1, .counted .wide .elementPair)]
  | elementPair : Opens .elementPair [] [(1, .index), (1, .elementValue)]
  | elementValue {tag : UInt8} {inner : Work} (h : Part.ofElementTag tag = .ok inner) :
      Opens .elementValue [.fixed [tag]] inner
  | frame {tag : UInt8} {inner : Work} (h : Part.ofFrameTag tag = .ok inner) : Opens .frame [.fixed [tag]] inner
  | verificationType {tag : UInt8} {inner : Work} (h : Part.ofVerificationTag tag = .ok inner) :
      Opens .verificationType [.fixed [tag]] inner

/-- Bytes are taken when there are enough of them and what they say can be gone on with. -/
theorem takeThen_eq_ok_iff {n : Nat} {next : Bytes → Except LayoutFault (List Piece × Work)} {input : Bytes}
    {step : Step} :
    takeThen n next input = .ok step ↔
      ∃ front, front.length = n ∧ next front = .ok (step.pieces, step.inner) ∧ input = front ++ step.rest := by
  unfold takeThen
  constructor
  · intro h
    split at h
    · cases h
    · rename_i front rest hcut
      obtain ⟨rfl, hlength⟩ := cut_eq_some_iff.1 hcut
      cases hnext : next front with
      | error fault =>
        rw [hnext] at h
        cases h
      | ok found =>
        rw [hnext] at h
        cases h
        exact ⟨front, hlength, hnext, rfl⟩
  · rintro ⟨front, rfl, hnext, rfl⟩
    rw [cut_append]
    dsimp only
    rw [hnext]
    rfl

/-- A tag is taken when it is there and parts follow it. -/
theorem takeTag_eq_ok_iff {partsOf : UInt8 → Except LayoutFault Work} {input : Bytes} {step : Step} :
    takeTag partsOf input = .ok step ↔
      ∃ tag, partsOf tag = .ok step.inner ∧ step.pieces = [.fixed [tag]] ∧ input = tag :: step.rest := by
  have hbyte : ∀ tag : UInt8, UInt8.ofNat (ofBigEndian [tag]) = tag := by
    intro tag
    simp [ofBigEndian]
  obtain ⟨pieces, inner, rest⟩ := step
  rw [takeTag, takeThen_eq_ok_iff]
  constructor
  · rintro ⟨front, hlength, hnext, rfl⟩
    obtain ⟨tag, rfl⟩ := List.length_eq_one_iff.1 hlength
    rw [hbyte] at hnext
    cases hparts : partsOf tag with
    | error fault =>
      rw [hparts] at hnext
      cases hnext
    | ok inner =>
      rw [hparts] at hnext
      cases hnext
      exact ⟨tag, hparts, rfl, rfl⟩
  · rintro ⟨tag, hparts, hpieces, rfl⟩
    refine ⟨[tag], rfl, ?_, rfl⟩
    rw [hbyte, hparts, hpieces]
    rfl

theorem opens_of_step {part : Part} {input : Bytes} {step : Step} (h : part.step input = .ok step) :
    Opens part step.pieces step.inner := by
  have htag : ∀ {partsOf : UInt8 → Except LayoutFault Work}, takeTag partsOf input = .ok step →
      ∃ tag, partsOf tag = .ok step.inner ∧ step.pieces = [.fixed [tag]] := fun htag =>
    let ⟨tag, hparts, hpieces, _⟩ := takeTag_eq_ok_iff.1 htag
    ⟨tag, hparts, hpieces⟩
  obtain ⟨pieces, inner, rest⟩ := step
  cases part with
  | plain size =>
    obtain ⟨front, rfl, hnext, -⟩ := takeThen_eq_ok_iff.1 h
    cases hnext
    exact .plain front
  | index =>
    obtain ⟨front, -, hnext, -⟩ := takeThen_eq_ok_iff.1 h
    cases hnext
    exact .index _
  | optionalIndex =>
    obtain ⟨front, -, hnext, -⟩ := takeThen_eq_ok_iff.1 h
    cases hnext
    exact .optionalIndex _
  | counted count each =>
    obtain ⟨front, hlength, hnext, -⟩ := takeThen_eq_ok_iff.1 h
    cases hnext
    have hcount := Opens.counted each (hlength ▸ ofBigEndian_lt front)
    rwa [← hlength, bigEndian_ofBigEndian] at hcount
  | parameter => cases h; exact .parameter
  | localVariable => cases h; exact .localVariable
  | annotationBody => cases h; exact .annotationBody
  | elementPair => cases h; exact .elementPair
  | elementValue =>
    obtain ⟨tag, hparts, rfl⟩ := htag h
    exact .elementValue hparts
  | frame =>
    obtain ⟨tag, hparts, rfl⟩ := htag h
    exact .frame hparts
  | verificationType =>
    obtain ⟨tag, hparts, rfl⟩ := htag h
    exact .verificationType hparts

/-- A part is read off the bytes of its first pieces, whatever follows them. -/
theorem Opens.step {part : Part} {heads : List Piece} {inner : Work} (h : Opens part heads inner) (rest : Bytes) :
    part.step (heads.flatMap Piece.bytes ++ rest) = .ok ⟨heads, inner, rest⟩ := by
  have hword : ∀ index : Index, UInt16.ofNat (ofBigEndian (u16Bytes index)) = index := by
    intro index
    rw [ofBigEndian_u16Bytes, UInt16.ofNat_toNat]
  cases h with
  | plain content => exact takeThen_eq_ok_iff.2 ⟨content, rfl, rfl, by simp [Piece.bytes]⟩
  | index index =>
    refine takeThen_eq_ok_iff.2 ⟨u16Bytes index, length_u16Bytes index, ?_, by simp [Piece.bytes, Slot.bytes]⟩
    rw [hword]
  | optionalIndex index =>
    refine takeThen_eq_ok_iff.2 ⟨u16Bytes index, length_u16Bytes index, ?_, by simp [Piece.bytes, Slot.bytes]⟩
    rw [hword]
  | @counted count each n hn =>
    refine takeThen_eq_ok_iff.2 ⟨bigEndian count.size n, length_bigEndian _ _, ?_, by simp [Piece.bytes]⟩
    rw [ofBigEndian_bigEndian, Nat.mod_eq_of_lt hn]
  | parameter | localVariable | annotationBody | elementPair => rfl
  | elementValue h | frame h | verificationType h => exact takeTag_eq_ok_iff.2 ⟨_, h, rfl, by simp [Piece.bytes]⟩

/-- What is read does not depend on the indices in slots. -/
theorem Opens.renamed {part : Part} {heads : List Piece} {inner : Work} (h : Opens part heads inner)
    (place : Index → Index) : Opens part (heads.map (Piece.renamed place)) inner := by
  cases h with
  | plain content => exact .plain content
  | index index => exact .index _
  | optionalIndex index => exact .optionalIndex _
  | counted each hn => exact .counted each hn
  | parameter => exact .parameter
  | localVariable => exact .localVariable
  | annotationBody => exact .annotationBody
  | elementPair => exact .elementPair
  | elementValue h => exact .elementValue h
  | frame h => exact .frame h
  | verificationType h => exact .verificationType h

/-! ### What parts stand for -/

/-- The pieces that a part stands for. -/
def Part.Kind : Part → List Piece → Prop
  | plain size => fun pieces => ∃ content, content.length = size ∧ pieces = [.fixed content]
  | index => IndexField
  | optionalIndex => fun pieces => ∃ index, pieces = [.slot (.optional index)]
  | counted count each => Counted count each.Kind
  | parameter => Parameter
  | localVariable => LocalVariable
  | annotationBody => Annotation
  | elementPair => Element
  | elementValue => ElementValue
  | frame => Frame
  | verificationType => VerificationType

theorem kind_part (layout : Layout) : layout.part.Kind = layout.Shape := by
  cases layout <;> rfl

/-- The pieces that parts stand for, each as often as it says. -/
def Fills : Work → List Piece → Prop
  | [], pieces => pieces = []
  | (n, part) :: work, pieces =>
    ∃ runs rest, List.length runs = n ∧ (∀ run ∈ runs, part.Kind run) ∧ Fills work rest ∧ pieces = runs.flatten ++ rest

variable {part : Part} {work : Work} {pieces : List Piece}

@[simp]
theorem fills_nil : Fills [] pieces ↔ pieces = [] := Iff.rfl

@[simp]
theorem fills_zero : Fills ((0, part) :: work) pieces ↔ Fills work pieces := by
  constructor
  · rintro ⟨runs, rest, hlength, -, hfills, rfl⟩
    obtain rfl := List.length_eq_zero_iff.1 hlength
    exact hfills
  · exact fun h => ⟨[], pieces, rfl, fun _ hmem => (by cases hmem), h, rfl⟩

theorem fills_succ {n : Nat} :
    Fills ((n + 1, part) :: work) pieces ↔
      ∃ front back, part.Kind front ∧ Fills ((n, part) :: work) back ∧ pieces = front ++ back := by
  constructor
  · rintro ⟨runs, rest, hlength, hkind, hfills, rfl⟩
    obtain ⟨front, runs, rfl⟩ := List.exists_cons_of_length_eq_add_one hlength
    have hlater : ∀ run ∈ runs, part.Kind run := fun run hmem => hkind run (List.mem_cons_of_mem front hmem)
    refine ⟨front, runs.flatten ++ rest, hkind front List.mem_cons_self, ?_, by simp⟩
    exact ⟨runs, rest, Nat.succ.inj hlength, hlater, hfills, rfl⟩
  · rintro ⟨front, back, hfront, ⟨runs, rest, rfl, hkind, hfills, rfl⟩, rfl⟩
    exact ⟨front :: runs, rest, rfl, List.forall_mem_cons.2 ⟨hfront, hkind⟩, hfills, by simp⟩

theorem fills_one :
    Fills ((1, part) :: work) pieces ↔ ∃ front back, part.Kind front ∧ Fills work back ∧ pieces = front ++ back := by
  rw [fills_succ]
  simp only [fills_zero]

theorem fills_single : Fills [(1, part)] pieces ↔ part.Kind pieces := by
  simp [fills_one]

theorem fills_append_iff {later : Work} :
    Fills (work ++ later) pieces ↔ ∃ front back, Fills work front ∧ Fills later back ∧ pieces = front ++ back := by
  induction work generalizing pieces with
  | nil => simp
  | cons first work ih =>
    obtain ⟨n, part⟩ := first
    simp only [List.cons_append, Fills, ih]
    constructor
    · rintro ⟨runs, _, hlength, hkind, ⟨front, back, hfront, hback, rfl⟩, rfl⟩
      exact ⟨runs.flatten ++ front, back, ⟨runs, front, hlength, hkind, hfront, rfl⟩, hback, by simp⟩
    · rintro ⟨_, back, ⟨runs, front, hlength, hkind, hfront, rfl⟩, hback, rfl⟩
      exact ⟨runs, front ++ back, hlength, hkind, ⟨front, back, hfront, hback, rfl⟩, by simp⟩

theorem counted_iff {width : OperandWidth} {each : Part} :
    Counted width each.Kind pieces ↔
      ∃ n tail, n < Nat.pow 256 width.size ∧ Fills [(n, each)] tail ∧
        pieces = .fixed (bigEndian width.size n) :: tail := by
  constructor
  · rintro ⟨hcount, hkind⟩
    exact ⟨_, _, hcount, ⟨_, [], rfl, hkind, rfl, rfl⟩, by simp⟩
  · rintro ⟨_, _, hcount, ⟨runs, _, rfl, hkind, rfl, rfl⟩, rfl⟩
    rw [List.append_nil]
    exact .intro hcount hkind

/-! ### A part is filled out by what is put in its place -/

/-- A character of one byte is read back from it. -/
private theorem ofNat_toUInt8 {c : Char} (h : c.toNat < 256) : Char.ofNat c.toUInt8.toNat = c := by
  have hval : c.toUInt8.toNat = c.toNat := by
    rw [Char.toUInt8, UInt32.toNat_toUInt8]
    exact Nat.mod_eq_of_lt h
  rw [hval, Char.ofNat_toNat]

private theorem elementValue_iff :
    ElementValue pieces ↔
      ∃ tag inner tail, Part.ofElementTag tag = .ok inner ∧ Fills inner tail ∧ pieces = .fixed [tag] :: tail := by
  have hbyte : ∀ tag : UInt8, (Char.ofNat tag.toNat).toUInt8 = tag := forall_byte (by decide +kernel)
  constructor
  · intro h
    cases h with
    | @constant tag htag index =>
      have hsmall : ∀ tag ∈ "BCDFIJSZsc".toList, tag.toNat < 256 := by simp
      have hparts : Part.ofElementTag tag.toUInt8 = .ok [(1, .index)] := by
        rw [Part.ofElementTag, ofNat_toUInt8 (hsmall tag htag), if_pos (List.contains_iff_mem.2 htag)]
      exact ⟨_, _, _, hparts, fills_single.2 (.intro index), rfl⟩
    | enumeration type name =>
      refine ⟨_, [(2, .index)], _, rfl, ?_, rfl⟩
      exact fills_succ.2 ⟨_, _, .intro type, fills_single.2 (.intro name), rfl⟩
    | nested h => exact ⟨_, [(1, .annotationBody)], _, rfl, fills_single.2 h, rfl⟩
    | array h => exact ⟨_, [(1, .counted .wide .elementValue)], _, rfl, fills_single.2 h, rfl⟩
  · rintro ⟨tag, inner, tail, hparts, hfills, rfl⟩
    rw [← hbyte tag]
    unfold Part.ofElementTag at hparts
    dsimp only at hparts
    split at hparts
    · rename_i hmem
      cases hparts
      obtain ⟨index⟩ := fills_single.1 hfills
      exact .constant (List.contains_iff_mem.1 hmem) index
    split at hparts
    · rename_i htag
      cases hparts
      obtain ⟨_, _, ⟨type⟩, hrest, rfl⟩ := fills_succ.1 hfills
      obtain ⟨name⟩ := fills_single.1 hrest
      rw [htag]
      exact .enumeration type name
    split at hparts
    · rename_i htag
      cases hparts
      rw [htag]
      exact .nested (fills_single.1 hfills)
    split at hparts
    · rename_i htag
      cases hparts
      rw [htag]
      exact .array (fills_single.1 hfills)
    · cases hparts

private theorem verificationType_iff :
    VerificationType pieces ↔
      ∃ tag inner tail, Part.ofVerificationTag tag = .ok inner ∧ Fills inner tail ∧ pieces = .fixed [tag] :: tail := by
  constructor
  · intro h
    cases h with
    | @plain tag htag =>
      have hparts : Part.ofVerificationTag tag = .ok [] := if_pos (UInt8.le_iff_toNat_le.1 htag)
      exact ⟨_, _, _, hparts, rfl, rfl⟩
    | object index => exact ⟨7, [(1, .index)], _, rfl, fills_single.2 (.intro index), rfl⟩
    | uninitialized hoffset => exact ⟨8, [(1, .plain 2)], _, rfl, fills_single.2 ⟨_, hoffset, rfl⟩, rfl⟩
  · rintro ⟨tag, inner, tail, hparts, hfills, rfl⟩
    unfold Part.ofVerificationTag at hparts
    dsimp only at hparts
    split at hparts
    · rename_i htag
      cases hparts
      rw [fills_nil.1 hfills]
      exact .plain (UInt8.le_iff_toNat_le.2 htag)
    split at hparts
    · rename_i htag
      cases hparts
      obtain ⟨index⟩ := fills_single.1 hfills
      rw [show tag = 7 from UInt8.toNat_inj.1 htag]
      exact .object index
    split at hparts
    · rename_i htag
      cases hparts
      obtain ⟨offset, hoffset, rfl⟩ := fills_single.1 hfills
      rw [show tag = 8 from UInt8.toNat_inj.1 htag]
      exact .uninitialized hoffset
    · cases hparts

private theorem frame_iff :
    Frame pieces ↔
      ∃ tag inner tail, Part.ofFrameTag tag = .ok inner ∧ Fills inner tail ∧ pieces = .fixed [tag] :: tail := by
  have hparts : ∀ tag : UInt8, Part.ofFrameTag tag =
      if tag ≤ 63 then .ok []
      else if tag ≤ 127 then .ok [(1, .verificationType)]
      else if tag ≤ 246 then .error (.reservedFrame tag)
      else if tag = 247 then .ok [(1, .plain 2), (1, .verificationType)]
      else if tag ≤ 251 then .ok [(1, .plain 2)]
      else if tag ≤ 254 then .ok [(1, .plain 2), (tag.toNat - 251, .verificationType)]
      else .ok [(1, .plain 2), (2, .counted .wide .verificationType)] := by
    intro tag
    simp only [Part.ofFrameTag, UInt8.le_iff_toNat_le, ← UInt8.toNat_inj]
    rfl
  constructor
  · intro h
    cases h with
    | same htag => exact ⟨_, [], [], by rw [hparts, if_pos htag], rfl, rfl⟩
    | sameWithItem hlow hhigh hitem =>
      refine ⟨_, [(1, .verificationType)], _, ?_, fills_single.2 hitem, rfl⟩
      rw [hparts, if_neg (by grind), if_pos hhigh]
    | sameWithItemExtended hdelta hitem =>
      refine ⟨247, [(1, .plain 2), (1, .verificationType)], _, rfl, ?_, rfl⟩
      exact fills_one.2 ⟨_, _, ⟨_, hdelta, rfl⟩, fills_single.2 hitem, rfl⟩
    | chopOrSameExtended hlow hhigh hdelta =>
      refine ⟨_, [(1, .plain 2)], _, ?_, fills_single.2 ⟨_, hdelta, rfl⟩, rfl⟩
      rw [hparts, if_neg (by grind), if_neg (by grind), if_neg (by grind), if_neg (by grind), if_pos hhigh]
    | @append tag hlow hhigh delta hdelta locals hcount hlocals =>
      refine ⟨_, [(1, .plain 2), (tag.toNat - 251, .verificationType)], _, ?_, ?_, rfl⟩
      · rw [hparts, if_neg (by grind), if_neg (by grind), if_neg (by grind), if_neg (by grind), if_neg (by grind),
          if_pos hhigh]
      · exact fills_one.2 ⟨_, _, ⟨_, hdelta, rfl⟩, ⟨locals, [], hcount, hlocals, rfl, (List.append_nil _).symm⟩, rfl⟩
    | full hdelta hlocals hstack =>
      refine ⟨255, [(1, .plain 2), (2, .counted .wide .verificationType)], _, rfl, ?_, rfl⟩
      exact fills_one.2 ⟨_, _, ⟨_, hdelta, rfl⟩, fills_succ.2 ⟨_, _, hlocals, fills_single.2 hstack, rfl⟩, rfl⟩
  · rintro ⟨tag, inner, tail, htag, hfills, rfl⟩
    rw [hparts] at htag
    split at htag
    · cases htag
      rw [fills_nil.1 hfills]
      exact .same ‹_›
    split at htag
    · cases htag
      exact .sameWithItem (by grind) ‹_› (fills_single.1 hfills)
    split at htag
    · cases htag
    split at htag
    · rename_i htag'
      cases htag
      obtain ⟨_, item, ⟨delta, hdelta, rfl⟩, hitem, rfl⟩ := fills_one.1 hfills
      rw [htag']
      exact .sameWithItemExtended hdelta (fills_single.1 hitem)
    split at htag
    · cases htag
      obtain ⟨delta, hdelta, rfl⟩ := fills_single.1 hfills
      exact .chopOrSameExtended (by grind) ‹_› hdelta
    split at htag
    · cases htag
      obtain ⟨_, _, ⟨delta, hdelta, rfl⟩, ⟨locals, _, hcount, hlocals, rfl, rfl⟩, rfl⟩ := fills_one.1 hfills
      rw [List.append_nil]
      exact .append (by grind) ‹_› hdelta hcount hlocals
    · cases htag
      have hlast : tag = 255 := by grind
      obtain ⟨_, _, ⟨delta, hdelta, rfl⟩, hlists, rfl⟩ := fills_one.1 hfills
      obtain ⟨locals, stack, hlocals, hstack, rfl⟩ := fills_succ.1 hlists
      rw [hlast]
      have hstack := fills_single.1 hstack
      exact @Frame.full delta hdelta locals stack hlocals hstack

/-- Pieces of the kind of a part begin with what reading the part gives, and go on with what is put in its place. -/
theorem exists_opens_of_kind (h : part.Kind pieces) :
    ∃ heads inner tail, Opens part heads inner ∧ Fills inner tail ∧ pieces = heads ++ tail := by
  cases part with
  | plain size =>
    obtain ⟨content, rfl, rfl⟩ := h
    exact ⟨_, _, [], .plain content, rfl, rfl⟩
  | index =>
    obtain ⟨index⟩ := h
    exact ⟨_, _, [], .index index, rfl, rfl⟩
  | optionalIndex =>
    obtain ⟨index, rfl⟩ := h
    exact ⟨_, _, [], .optionalIndex index, rfl, rfl⟩
  | counted count each =>
    obtain ⟨n, tail, hn, hfills, rfl⟩ := counted_iff.1 h
    exact ⟨_, _, tail, .counted each hn, hfills, rfl⟩
  | parameter =>
    obtain ⟨name, hflags⟩ := h
    refine ⟨_, _, _, .parameter, ?_, rfl⟩
    exact fills_one.2 ⟨_, _, ⟨name, rfl⟩, fills_single.2 ⟨_, hflags, rfl⟩, rfl⟩
  | localVariable =>
    obtain ⟨hrange, name, type, hnumber⟩ := h
    refine ⟨_, _, _, .localVariable, ?_, rfl⟩
    refine fills_one.2 ⟨_, _, ⟨_, hrange, rfl⟩, fills_succ.2 ⟨_, _, .intro name, ?_, rfl⟩, rfl⟩
    exact fills_one.2 ⟨_, _, .intro type, fills_single.2 ⟨_, hnumber, rfl⟩, rfl⟩
  | annotationBody =>
    obtain ⟨type, helements⟩ := h
    refine ⟨_, _, _, .annotationBody, ?_, rfl⟩
    exact fills_one.2 ⟨_, _, .intro type, fills_single.2 helements, rfl⟩
  | elementPair =>
    obtain ⟨name, hvalue⟩ := h
    refine ⟨_, _, _, .elementPair, ?_, rfl⟩
    exact fills_one.2 ⟨_, _, .intro name, fills_single.2 hvalue, rfl⟩
  | elementValue =>
    obtain ⟨tag, inner, tail, htag, hfills, rfl⟩ := elementValue_iff.1 h
    exact ⟨_, inner, tail, .elementValue htag, hfills, rfl⟩
  | frame =>
    obtain ⟨tag, inner, tail, htag, hfills, rfl⟩ := frame_iff.1 h
    exact ⟨_, inner, tail, .frame htag, hfills, rfl⟩
  | verificationType =>
    obtain ⟨tag, inner, tail, htag, hfills, rfl⟩ := verificationType_iff.1 h
    exact ⟨_, inner, tail, .verificationType htag, hfills, rfl⟩

/-- What reading a part gives, with whatever fills out what is put in its place, is of the kind of the part. -/
theorem Opens.kind {heads tail : List Piece} {inner : Work} (h : Opens part heads inner) (hfills : Fills inner tail) :
    part.Kind (heads ++ tail) := by
  cases h with
  | plain content =>
    rw [fills_nil.1 hfills]
    exact ⟨content, rfl, rfl⟩
  | index index =>
    rw [fills_nil.1 hfills]
    exact .intro index
  | optionalIndex index =>
    rw [fills_nil.1 hfills]
    exact ⟨index, rfl⟩
  | counted each hn => exact counted_iff.2 ⟨_, tail, hn, hfills, rfl⟩
  | parameter =>
    obtain ⟨_, _, ⟨name, rfl⟩, hrest, rfl⟩ := fills_one.1 hfills
    obtain ⟨flags, hflags, rfl⟩ := fills_single.1 hrest
    exact .intro name hflags
  | localVariable =>
    obtain ⟨_, _, ⟨range, hrange, rfl⟩, hindices, rfl⟩ := fills_one.1 hfills
    obtain ⟨_, _, ⟨name⟩, hsecond, rfl⟩ := fills_succ.1 hindices
    obtain ⟨_, _, ⟨type⟩, hlast, rfl⟩ := fills_one.1 hsecond
    obtain ⟨number, hnumber, rfl⟩ := fills_single.1 hlast
    exact .intro hrange name type hnumber
  | annotationBody =>
    obtain ⟨_, elements, ⟨type⟩, hrest, rfl⟩ := fills_one.1 hfills
    exact .intro type (fills_single.1 hrest)
  | elementPair =>
    obtain ⟨_, value, ⟨name⟩, hrest, rfl⟩ := fills_one.1 hfills
    exact .intro name (fills_single.1 hrest)
  | elementValue htag => exact elementValue_iff.2 ⟨_, _, tail, htag, hfills, rfl⟩
  | frame htag => exact frame_iff.2 ⟨_, _, tail, htag, hfills, rfl⟩
  | verificationType htag => exact verificationType_iff.2 ⟨_, _, tail, htag, hfills, rfl⟩

/-- Parts are filled out when the first one can be opened, and then what is put in its place and the others. -/
theorem fills_succ_iff_opens {n : Nat} :
    Fills ((n + 1, part) :: work) pieces ↔
      ∃ heads inner tail, Opens part heads inner ∧ Fills (inner ++ (n, part) :: work) tail ∧
        pieces = heads ++ tail := by
  rw [fills_succ]
  constructor
  · rintro ⟨_, back, hfront, hback, rfl⟩
    obtain ⟨heads, inner, tail, hopens, hinner, rfl⟩ := exists_opens_of_kind hfront
    exact ⟨heads, inner, tail ++ back, hopens, fills_append_iff.2 ⟨tail, back, hinner, hback, rfl⟩, by simp⟩
  · rintro ⟨heads, inner, _, hopens, hfills, rfl⟩
    obtain ⟨tail, back, hinner, hback, rfl⟩ := fills_append_iff.1 hfills
    exact ⟨heads ++ tail, back, hopens.kind hinner, hback, by simp⟩

/-! ### Reading all parts -/

/-- What holds of parts and the pieces that fill them out is shown along the way in which these are read. -/
theorem Fills.induction {motive : Work → List Piece → Prop} (nil : motive [] [])
    (zero : ∀ part work pieces, motive work pieces → motive ((0, part) :: work) pieces)
    (opens : ∀ n part work heads inner tail, Opens part heads inner → motive (inner ++ (n, part) :: work) tail →
      motive ((n + 1, part) :: work) (heads ++ tail)) (h : Fills work pieces) : motive work pieces := by
  generalize hinput : pieces.flatMap Piece.bytes = input
  generalize hfound : ([] : List Piece) = found
  clear hfound
  induction work, input, found using readOnto.induct generalizing pieces with
  | case1 input found =>
    rw [fills_nil.1 h]
    exact nil
  | case2 input found part work ih => exact zero part work pieces (ih (fills_zero.1 h) hinput)
  | case3 input found n part work fault hstep =>
    obtain ⟨heads, inner, tail, hopens, -, rfl⟩ := fills_succ_iff_opens.1 h
    -- The part can be read, so there is no fault.
    rw [← hinput, List.flatMap_append, hopens.step] at hstep
    cases hstep
  | case4 input found n part work step hstep ih =>
    obtain ⟨heads, inner, tail, hopens, hfills, rfl⟩ := fills_succ_iff_opens.1 h
    rw [← hinput, List.flatMap_append, hopens.step] at hstep
    cases hstep
    exact opens n part work heads inner tail hopens (ih hfills rfl)

variable {rest : Bytes}

/-- Parts are read off the bytes of the pieces that they stand for, whatever follows. -/
theorem readOnto_of_fills (h : Fills work pieces) (found : List Piece) :
    readOnto work (pieces.flatMap Piece.bytes ++ rest) found = ⟨found.reverse ++ pieces, .ok rest⟩ := by
  refine Fills.induction (motive := fun work pieces => ∀ found,
    readOnto work (pieces.flatMap Piece.bytes ++ rest) found = ⟨found.reverse ++ pieces, .ok rest⟩) ?_ ?_ ?_ h found
  · intro found
    rw [readOnto, List.append_nil]
    rfl
  · intro part work pieces ih found
    rw [readOnto, ih]
  · intro n part work heads inner tail hopens ih found
    have hstep := hopens.step (tail.flatMap Piece.bytes ++ rest)
    rw [List.flatMap_append, List.append_assoc, readOnto, hstep]
    dsimp only
    rw [ih]
    simp

/-- When reading parts succeeds, the pieces that it gives are what the parts stand for. -/
theorem fills_of_readOnto {input : Bytes} {found result : List Piece}
    (h : readOnto work input found = ⟨result, .ok rest⟩) :
    ∃ pieces, result = found.reverse ++ pieces ∧ Fills work pieces ∧
      input = pieces.flatMap Piece.bytes ++ rest := by
  induction work, input, found using readOnto.induct with
  | case1 input found =>
    rw [readOnto] at h
    cases h
    exact ⟨[], (List.append_nil _).symm, rfl, rfl⟩
  | case2 input found part work ih =>
    rw [readOnto] at h
    obtain ⟨pieces, hresult, hfills, hinput⟩ := ih h
    exact ⟨pieces, hresult, fills_zero.2 hfills, hinput⟩
  | case3 input found n part work fault hstep =>
    rw [readOnto, hstep] at h
    cases h
  | case4 input found n part work step hstep ih =>
    rw [readOnto, hstep] at h
    obtain ⟨pieces, hresult, hfills, hrest⟩ := ih h
    have hcuts : step.pieces.flatMap Piece.bytes ++ step.rest = input := Part.cuts_of_step hstep
    refine ⟨step.pieces ++ pieces, by rw [hresult]; simp,
      fills_succ_iff_opens.2 ⟨_, _, pieces, opens_of_step hstep, hfills, rfl⟩, ?_⟩
    rw [← hcuts, hrest]
    simp

/-- Reading contents of a layout gives some pieces exactly when they have its shape and the contents start with them. -/
theorem template_eq_iff {layout : Layout} {info : Bytes} :
    layout.template info = ⟨pieces, .ok rest⟩ ↔
      layout.Shape pieces ∧ info = pieces.flatMap Piece.bytes ++ rest := by
  rw [← kind_part, ← fills_single]
  constructor
  · intro h
    obtain ⟨found, rfl, hfills, hinfo⟩ := fills_of_readOnto h
    exact ⟨hfills, hinfo⟩
  · rintro ⟨hfills, rfl⟩
    exact readOnto_of_fills hfills []

/-- Parts stand for the same pieces whatever their indices are. -/
theorem Fills.renamed (h : Fills work pieces) (place : Index → Index) :
    Fills work (pieces.map (Piece.renamed place)) := by
  refine Fills.induction (motive := fun work pieces => Fills work (pieces.map (Piece.renamed place))) rfl
    (fun _ _ _ ih => fills_zero.2 ih) (fun n part work heads inner tail hopens ih => ?_) h
  rw [List.map_append]
  exact fills_succ_iff_opens.2 ⟨_, inner, _, hopens.renamed place, ih, rfl⟩

theorem Shape.renamed {layout : Layout} (h : layout.Shape pieces) (place : Index → Index) :
    layout.Shape (pieces.map (Piece.renamed place)) := by
  rw [← kind_part, ← fills_single] at h ⊢
  exact h.renamed place

private theorem Fills.no_narrow (h : Fills work pieces) (offset : Nat) (index : UInt8) :
    .slot (.narrow offset index) ∉ pieces := by
  refine Fills.induction (motive := fun _ pieces => .slot (.narrow offset index) ∉ pieces) List.not_mem_nil
    (fun _ _ _ ih => ih) (fun n part work heads inner tail hopens ih hmem => ?_) h
  rcases List.mem_append.1 hmem with hheads | htail
  · cases hopens <;> simp at hheads
  · exact ih htail

/-- There are no one-byte indices in attributes. -/
theorem Shape.no_narrow {layout : Layout} (h : layout.Shape pieces) (offset : Nat) (index : UInt8) :
    .slot (.narrow offset index) ∉ pieces := by
  rw [← kind_part, ← fills_single] at h
  exact h.no_narrow offset index

end ClassGraft.Layout
