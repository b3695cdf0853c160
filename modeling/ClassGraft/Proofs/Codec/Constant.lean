import ClassGraft.Constant.Codec
import ClassGraft.Proofs.Codec.Reading
import ClassGraft.Proofs.Text.RoundTrip

/-!
# Constants and their bytes

The reader of constants accepts exactly the bytes of the constants that can be stored, which are those whose text, if
they are one, is genuine and not too long for its length field (`inverts_read`).  Bytes determine a constant even
without that: the length of a text shows in the length of the whole (`eq_of_bytes`).
-/

namespace ClassGraft.Constant

/-- A text that reading or writing gives, or any other constant. -/
def Genuine : Constant → Prop
  | .utf8 stored => stored.Genuine
  | _ => True

/-- A constant whose bytes can be read back. -/
def Storable : Constant → Prop
  | .utf8 stored => stored.Genuine ∧ stored.encoded.length < 65536
  | _ => True

theorem genuine_ofText (text : String) : Genuine (.utf8 (.ofText text)) :=
  StoredText.genuine_ofText text

theorem Storable.genuine {constant : Constant} (h : constant.Storable) : constant.Genuine := by
  cases constant with
  | utf8 stored => exact h.1
  | _ => trivial

/-- Only the length of a text can keep a genuine constant from being stored. -/
theorem Genuine.storable_iff {constant : Constant} (h : constant.Genuine) :
    constant.Storable ↔ ∀ stored, constant = .utf8 stored → stored.encoded.length ≤ 65535 := by
  cases constant with
  | utf8 stored =>
    constructor
    · rintro hstorable _ ⟨⟩
      exact Nat.le_of_lt_succ hstorable.2
    · exact fun hshort => ⟨h, Nat.lt_succ_of_le (hshort stored rfl)⟩
  | _ => exact iff_of_true trivial fun _ heq => by cases heq

open Reader

private theorem one_eq_ok_iff {α : Type} {read : Reader α} {write : α → Bytes} {valid : α → Prop}
    (h : Inverts read write valid) {make : α → Constant} {input rest : Bytes} {constant : Constant} :
    (do return make (← read) : Reader Constant) input = .ok (constant, rest) ↔
      ∃ a, valid a ∧ make a = constant ∧ input = write a ++ rest := by
  simp only [bind_eq_ok_iff, pure_eq_ok_iff, h _ _ _]
  constructor
  · rintro ⟨a, _, ⟨ha, rfl⟩, rfl, rfl⟩
    exact ⟨a, ha, rfl, rfl⟩
  · rintro ⟨a, ha, rfl, rfl⟩
    exact ⟨a, _, ⟨ha, rfl⟩, rfl, rfl⟩

private theorem two_eq_ok_iff {make : UInt16 → UInt16 → Constant} {input rest : Bytes} {constant : Constant} :
    (do return make (← u16) (← u16) : Reader Constant) input = .ok (constant, rest) ↔
      ∃ a b, make a b = constant ∧ input = (u16Bytes a ++ u16Bytes b) ++ rest := by
  simp only [bind_eq_ok_iff, pure_eq_ok_iff, inverts_u16 _ _ _]
  constructor
  · rintro ⟨a, _, ⟨-, rfl⟩, b, _, ⟨-, rfl⟩, rfl, rfl⟩
    exact ⟨a, b, rfl, by rw [List.append_assoc]⟩
  · rintro ⟨a, b, rfl, rfl⟩
    exact ⟨a, _, ⟨trivial, by rw [List.append_assoc]⟩, b, _, ⟨trivial, rfl⟩, rfl, rfl⟩

private theorem readText_eq_ok_iff {index : Index} {input rest : Bytes} {constant : Constant} :
    readText index input = .ok (constant, rest) ↔
      ∃ stored, (stored.Genuine ∧ stored.encoded.length < 65536) ∧ .utf8 stored = constant ∧
        input = (countBytes stored.encoded ++ stored.encoded) ++ rest := by
  simp only [readText, bind_eq_ok_iff, inverts_u16 _ _ _, take_eq_ok_iff]
  constructor
  · rintro ⟨length, _, ⟨-, rfl⟩, encoded, _, ⟨rfl, hlength⟩, hmatch⟩
    cases hstored : StoredText.ofEncoded encoded with
    | none =>
      rw [hstored] at hmatch
      cases hmatch
    | some stored =>
      rw [hstored] at hmatch
      obtain ⟨rfl, rfl⟩ := pure_eq_ok_iff.1 hmatch
      have hencoded : stored.encoded = encoded := by
        obtain ⟨units, -, rfl⟩ := Option.map_eq_some_iff.1 hstored
        rfl
      refine ⟨stored, ⟨StoredText.genuine_of_ofEncoded hstored, ?_⟩, rfl, ?_⟩
      · rw [hencoded, hlength]
        exact length.toNat_lt
      · rw [hencoded, countBytes, hlength, u16Bytes, List.append_assoc]
  · rintro ⟨stored, ⟨hgenuine, hlength⟩, rfl, rfl⟩
    have hcount : (UInt16.ofNat stored.encoded.length).toNat = stored.encoded.length := by
      rw [UInt16.toNat_ofNat_of_lt' hlength]
    refine ⟨UInt16.ofNat stored.encoded.length, stored.encoded ++ rest, ⟨trivial, ?_⟩, stored.encoded, rest,
      ⟨rfl, hcount.symm⟩, ?_⟩
    · rw [u16Bytes, hcount, countBytes, List.append_assoc]
    · rw [StoredText.Genuine] at hgenuine
      rw [hgenuine]
      rfl

private theorem readHandle_eq_ok_iff {index : Index} {input rest : Bytes} {constant : Constant} :
    readHandle index input = .ok (constant, rest) ↔
      ∃ kind target, .methodHandle kind target = constant ∧ input = (kind.code :: u16Bytes target) ++ rest := by
  simp only [readHandle, bind_eq_ok_iff, inverts_u8 _ _ _]
  constructor
  · rintro ⟨code, _, ⟨-, rfl⟩, hmatch⟩
    cases hkind : HandleKind.ofCode? code with
    | none =>
      rw [hkind] at hmatch
      cases hmatch
    | some kind =>
      rw [hkind] at hmatch
      obtain ⟨target, -, rfl, rfl⟩ := (one_eq_ok_iff inverts_u16).1 hmatch
      rw [← HandleKind.ofCode?_eq_some hkind]
      exact ⟨kind, target, rfl, rfl⟩
  · rintro ⟨kind, target, rfl, rfl⟩
    refine ⟨kind.code, u16Bytes target ++ rest, ⟨trivial, rfl⟩, ?_⟩
    rw [HandleKind.ofCode?_code]
    exact (one_eq_ok_iff inverts_u16).2 ⟨target, trivial, rfl, rfl⟩

/-- The fields of a constant are read back when the kind is known. -/
theorem inverts_readBody (index : Index) (tag : Tag) :
    Inverts (readBody index tag) body fun constant => constant.tag = tag ∧ constant.Storable := by
  intro input constant rest
  constructor
  · intro h
    cases tag with
    | utf8 =>
      obtain ⟨stored, hstored, rfl, rfl⟩ := readText_eq_ok_iff.1 h
      exact ⟨⟨rfl, hstored⟩, rfl⟩
    | integer =>
      obtain ⟨word, -, rfl, rfl⟩ := (one_eq_ok_iff inverts_u32).1 h
      exact ⟨⟨rfl, trivial⟩, rfl⟩
    | float =>
      obtain ⟨word, -, rfl, rfl⟩ := (one_eq_ok_iff inverts_u32).1 h
      exact ⟨⟨rfl, trivial⟩, rfl⟩
    | long =>
      obtain ⟨word, -, rfl, rfl⟩ := (one_eq_ok_iff inverts_u64).1 h
      exact ⟨⟨rfl, trivial⟩, rfl⟩
    | double =>
      obtain ⟨word, -, rfl, rfl⟩ := (one_eq_ok_iff inverts_u64).1 h
      exact ⟨⟨rfl, trivial⟩, rfl⟩
    | methodHandle =>
      obtain ⟨kind, target, rfl, rfl⟩ := readHandle_eq_ok_iff.1 h
      exact ⟨⟨rfl, trivial⟩, rfl⟩
    | classInfo | string | methodType | moduleInfo | packageInfo =>
      obtain ⟨text, -, rfl, rfl⟩ := (one_eq_ok_iff inverts_u16).1 h
      exact ⟨⟨rfl, trivial⟩, rfl⟩
    | fieldRef | methodRef | interfaceMethodRef | nameAndType | dynamic | invokeDynamic =>
      obtain ⟨first, second, rfl, rfl⟩ := two_eq_ok_iff.1 h
      exact ⟨⟨rfl, trivial⟩, rfl⟩
  · rintro ⟨⟨rfl, hstorable⟩, rfl⟩
    cases constant with
    | utf8 stored => exact readText_eq_ok_iff.2 ⟨stored, hstorable, rfl, rfl⟩
    | integer value => exact (one_eq_ok_iff inverts_u32).2 ⟨value.toUInt32, trivial, rfl, rfl⟩
    | float bits => exact (one_eq_ok_iff inverts_u32).2 ⟨bits, trivial, rfl, rfl⟩
    | long value => exact (one_eq_ok_iff inverts_u64).2 ⟨value.toUInt64, trivial, rfl, rfl⟩
    | double bits => exact (one_eq_ok_iff inverts_u64).2 ⟨bits, trivial, rfl, rfl⟩
    | named kind text => cases kind <;> exact (one_eq_ok_iff inverts_u16).2 ⟨text, trivial, rfl, rfl⟩
    | member kind owner signature => cases kind <;> exact two_eq_ok_iff.2 ⟨owner, signature, rfl, rfl⟩
    | nameAndType name descriptor => exact two_eq_ok_iff.2 ⟨name, descriptor, rfl, rfl⟩
    | methodHandle kind target => exact readHandle_eq_ok_iff.2 ⟨kind, target, rfl, rfl⟩
    | dynamic kind bootstrap signature => cases kind <;> exact two_eq_ok_iff.2 ⟨bootstrap, signature, rfl, rfl⟩

/-- The bytes of the constants that can be stored are read back, and nothing else is read. -/
theorem inverts_read (index : Index) : Inverts (read index) bytes Storable := by
  intro input constant rest
  rw [read, bind_eq_ok_iff]
  constructor
  · rintro ⟨code, middle, hcode, hmatch⟩
    obtain ⟨-, rfl⟩ := (inverts_u8 _ _ _).1 hcode
    cases htag : Tag.ofCode? code with
    | none =>
      rw [htag] at hmatch
      cases hmatch
    | some tag =>
      rw [htag] at hmatch
      obtain ⟨⟨rfl, hstorable⟩, rfl⟩ := (inverts_readBody index tag _ _ _).1 hmatch
      rw [bytes, Tag.ofCode?_eq_some htag]
      exact ⟨hstorable, rfl⟩
  · rintro ⟨hstorable, rfl⟩
    refine ⟨constant.tag.code, constant.body ++ rest, (inverts_u8 _ _ _).2 ⟨trivial, rfl⟩, ?_⟩
    rw [Tag.ofCode?_code]
    exact (inverts_readBody index constant.tag _ _ _).2 ⟨⟨rfl, hstorable⟩, rfl⟩

theorem eq_utf8_of_tag {constant : Constant} (h : constant.tag = .utf8) : ∃ stored, constant = .utf8 stored := by
  cases constant with
  | utf8 stored => exact ⟨stored, rfl⟩
  | named kind text => cases kind <;> cases h
  | member kind owner signature => cases kind <;> cases h
  | dynamic kind bootstrap signature => cases kind <;> cases h
  | _ => cases h

private theorem tag_eq_of_bytes {a b : Constant} (h : a.bytes = b.bytes) : a.tag = b.tag := by
  have hcode : a.tag.code = b.tag.code := (List.cons.inj h).1
  have htag := Tag.ofCode?_code a.tag
  rw [hcode, Tag.ofCode?_code] at htag
  exact (Option.some.inj htag).symm

/-- Genuine constants with the same bytes are equal. -/
theorem eq_of_bytes {a b : Constant} (ha : a.Genuine) (hb : b.Genuine) (h : a.bytes = b.bytes) : a = b := by
  have htag := tag_eq_of_bytes h
  by_cases htext : a.tag = .utf8
  · obtain ⟨s, rfl⟩ := eq_utf8_of_tag htext
    obtain ⟨t, rfl⟩ := eq_utf8_of_tag (htag ▸ htext)
    have hbody : countBytes s.encoded ++ s.encoded = countBytes t.encoded ++ t.encoded := (List.cons.inj h).2
    have hencoded := (List.append_inj hbody (by rw [countBytes, countBytes, length_bigEndian, length_bigEndian])).2
    rw [StoredText.Genuine.eq_of_encoded ha hb hencoded]
  -- all other constants can be stored, so reading tells them apart
  · have hstorable : ∀ constant : Constant, constant.tag ≠ .utf8 → constant.Storable := by
      intro constant hne
      cases constant with
      | utf8 stored => exact absurd rfl hne
      | _ => trivial
    have hread := (inverts_read 0 _ a []).2 ⟨hstorable a htext, rfl⟩
    have hread' := (inverts_read 0 _ b []).2 ⟨hstorable b (htag ▸ htext), rfl⟩
    rw [h, hread'] at hread
    cases hread
    rfl

/-- Texts in their shortest form have different bytes. -/
theorem bytes_ofText_inj {a b : String} : bytes (.utf8 (.ofText a)) = bytes (.utf8 (.ofText b)) ↔ a = b := by
  constructor
  · intro h
    have hstored := eq_of_bytes (genuine_ofText a) (genuine_ofText b) h
    simp only [utf8.injEq, StoredText.ofText, StoredText.mk.injEq] at hstored
    exact hstored.1
  · rintro rfl
    rfl

end ClassGraft.Constant
