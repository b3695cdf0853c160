import ClassGraft.Proofs.Method.Decoding

/-!
# Parsing methods

A parsed method has the texts that its name and descriptor lead to, and attributes that can be written
(`ParsedMethod.parse_encodable`).  Conversely, the bytes of a method with a resolvable header and attributes that can be
written are parsed to this method, strictly or leniently (`ParsedMethod.parse_bytes`).
-/

namespace ClassGraft.ParsedMethod

/-- A header field that resolves is given as it is, whatever the strictness. -/
theorem headerText_of_ok {pool : Pool} {index : Index} {text : String} (h : pool.text index = .ok text)
    (strictness : Strictness) (placeholder : String) (log : Log) :
    (headerText pool strictness placeholder index).run.run log = (.ok text, log) := by
  unfold headerText
  rw [h]
  rfl

/-- What stands for a field of a header: the text that its index leads to, or a placeholder where it leads nowhere and
reading is lenient. -/
inductive Shown (pool : Pool) (strictness : Strictness) (placeholder : String) (index : Index) : String → Prop
  | text {text : String} (h : pool.text index = .ok text) : Shown pool strictness placeholder index text
  | placeholder {error : IndexError} (hlenient : strictness = .lenient) (h : pool.text index = .error error) :
      Shown pool strictness placeholder index placeholder

section

variable {pool : Pool} {strictness : Strictness} {placeholder shown : String} {index : Index}

theorem shown_of_headerText {log log' : Log}
    (h : (headerText pool strictness placeholder index).run.run log = (.ok shown, log')) :
    Shown pool strictness placeholder index shown := by
  unfold headerText at h
  cases htext : pool.text index with
  | ok text =>
    rw [htext] at h
    cases h
    exact .text htext
  | error error =>
    rw [htext] at h
    cases strictness with
    | strict => cases h
    | lenient =>
      cases h
      exact .placeholder rfl htext

theorem Shown.eq_of_text (h : Shown pool strictness placeholder index shown) {text : String}
    (htext : pool.text index = .ok text) : shown = text := by
  cases h with
  | text h =>
    rw [htext] at h
    cases h
    rfl
  | placeholder _ h =>
    rw [htext] at h
    cases h

/-- Strict reading leaves no field of a header without a text. -/
theorem Shown.text_of_strict (h : Shown pool .strict placeholder index shown) : pool.text index = .ok shown := by
  cases h with
  | text h => exact h
  | placeholder hlenient _ => cases hlenient

theorem steady_headerText : Steady (headerText pool strictness placeholder index).run := by
  unfold headerText
  split
  · exact .pure _
  · exact .throw _
  · exact .bind_except (.lift (.note _ _)) fun _ => .pure _

/-- Lenient reading finds something for every field of a header. -/
theorem exists_returns_headerText (pool : Pool) (placeholder : String) (index : Index) :
    ∃ shown, Returns (headerText pool .lenient placeholder index) shown := by
  unfold headerText
  cases pool.text index with
  | ok text => exact ⟨text, .pure text⟩
  | error error => exact ⟨placeholder, .lift_bind (fun _ => rfl) (.pure placeholder)⟩

end

private theorem exists_bytes_of_word (w : UInt16) :
    ∃ high low, u16Bytes w = [high, low] ∧ UInt16.ofNat (ofBigEndian [high, low]) = w := by
  refine ⟨_, _, rfl, ?_⟩
  change UInt16.ofNat (ofBigEndian (u16Bytes w)) = w
  rw [ofBigEndian_u16Bytes, UInt16.ofNat_toNat]

/-- The header is four words. -/
theorem readHeader_eq_ok_iff {bytes rest : Bytes} {header : Header} :
    readHeader bytes = .ok (header, rest) ↔
      ∃ count : UInt16, header.attributeCount = count.toNat ∧
        bytes = u16Bytes header.accessFlags ++ u16Bytes header.nameIndex ++ u16Bytes header.descriptorIndex ++
          u16Bytes count ++ rest := by
  constructor
  · intro h
    unfold readHeader at h
    split at h
    · cases h
      refine ⟨_, rfl, ?_⟩
      simp only [u16Bytes_ofBigEndian]
      rfl
    · cases h
  · rintro ⟨count, hcount, rfl⟩
    obtain ⟨accessFlags, nameIndex, descriptorIndex, attributeCount⟩ := header
    obtain ⟨a, b, hflags, haccess⟩ := exists_bytes_of_word accessFlags
    obtain ⟨c, d, hnames, hname⟩ := exists_bytes_of_word nameIndex
    obtain ⟨e, f, hdescriptors, hdescriptor⟩ := exists_bytes_of_word descriptorIndex
    obtain ⟨g, k, hcounts, hword⟩ := exists_bytes_of_word count
    dsimp only at hcount ⊢
    rw [hflags, hnames, hdescriptors, hcounts, hcount, ← haccess, ← hname, ← hdescriptor, ← hword]
    rfl

/-- The bytes of a method start with its header, and go on with its attributes. -/
theorem readHeader_bytes {method : ParsedMethod} (hcount : method.attributes.length < 65536) :
    readHeader method.toMethod.bytes =
      .ok (⟨method.accessFlags, method.nameIndex, method.descriptorIndex, method.attributes.length⟩,
        ParsedAttribute.bytesOfAll method.attributes) := by
  refine readHeader_eq_ok_iff.2 ⟨UInt16.ofNat method.attributes.length, ?_, ?_⟩
  · rw [UInt16.toNat_ofNat_of_lt' hcount]
  · rw [ParsedAttribute.bytesOfAll_eq_flatMap, Member.bytes, countedBytes, countBytes, u16Bytes_ofNat hcount]
    simp [toMethod, List.flatMap_map]

/-- A parsed method has the header of its bytes, what stands for its name and descriptor, and the attributes that are
decoded from what follows the header. -/
theorem exists_decoded_of_parse {pool : Pool} {strictness : Strictness} {bytes : Bytes} {log log' : Log}
    {method : ParsedMethod} (h : (parse pool strictness bytes).run.run log = (.ok method, log')) :
    ∃ header rest leftOver before after, readHeader bytes = .ok (header, rest) ∧
      (method.accessFlags = header.accessFlags ∧ method.nameIndex = header.nameIndex ∧
        method.descriptorIndex = header.descriptorIndex) ∧
      Shown pool strictness unknownName header.nameIndex method.name ∧
      Shown pool strictness unknownDescriptor header.descriptorIndex method.descriptor ∧
      (ParsedAttribute.decodeAll pool header.attributeCount 8 rest).run before =
        ((method.attributes, leftOver), after) := by
  rw [parse] at h
  obtain ⟨⟨header, rest⟩, _, hheader, h⟩ := run_bind_eq_ok h
  obtain ⟨name, _, hname, h⟩ := run_bind_eq_ok h
  obtain ⟨descriptor, _, hdescriptor, h⟩ := run_bind_eq_ok h
  obtain ⟨_, before, -, h⟩ := run_bind_eq_ok h
  obtain ⟨⟨attributes, leftOver⟩, after, hattributes, h⟩ := run_bind_eq_ok h
  have hmethod : method =
      ⟨header.accessFlags, header.nameIndex, header.descriptorIndex, name, descriptor, attributes⟩ := by
    cases leftOver with
    | nil =>
      cases h
      rfl
    | cons =>
      obtain ⟨_, _, -, h⟩ := run_bind_eq_ok h
      cases h
      rfl
  subst hmethod
  exact ⟨header, rest, leftOver, before, after, congrArg Prod.fst hheader, ⟨rfl, rfl, rfl⟩,
    shown_of_headerText hname, shown_of_headerText hdescriptor, run_lift_eq_ok hattributes⟩

/-- A parsed method has the header of its bytes and what stands for its name and descriptor, and attributes that can be
written, at most as many as the header says. -/
theorem exists_header_of_parse {pool : Pool} {strictness : Strictness} {bytes : Bytes} {log log' : Log}
    {method : ParsedMethod} (h : (parse pool strictness bytes).run.run log = (.ok method, log')) :
    ∃ header rest, readHeader bytes = .ok (header, rest) ∧
      (method.accessFlags = header.accessFlags ∧ method.nameIndex = header.nameIndex ∧
        method.descriptorIndex = header.descriptorIndex) ∧
      Shown pool strictness unknownName header.nameIndex method.name ∧
      Shown pool strictness unknownDescriptor header.descriptorIndex method.descriptor ∧
      method.attributes.length ≤ header.attributeCount ∧ ∀ parsed ∈ method.attributes, parsed.Encodable pool := by
  obtain ⟨header, rest, leftOver, _, _, hheader, hfields, hname, hdescriptor, hattributes⟩ := exists_decoded_of_parse h
  obtain ⟨new, hsame, hcount, hnew, -⟩ := ParsedAttribute.decodeOnto_encodable pool _ _ _ _ _ hattributes
  have hattributes : method.attributes = new := hsame
  rw [hattributes]
  exact ⟨header, rest, hheader, hfields, hname, hdescriptor, hcount, hnew⟩

/-- A parsed method has the texts of its header where they resolve, and attributes that can be written. -/
theorem parse_encodable {pool : Pool} {strictness : Strictness} {bytes : Bytes} {log log' : Log} {method : ParsedMethod}
    (h : (parse pool strictness bytes).run.run log = (.ok method, log')) :
    (∀ text, pool.text method.nameIndex = .ok text → method.name = text) ∧
      (∀ text, pool.text method.descriptorIndex = .ok text → method.descriptor = text) ∧
      method.attributes.length < 65536 ∧ ∀ parsed ∈ method.attributes, parsed.Encodable pool := by
  obtain ⟨header, rest, hheader, ⟨-, hnameIndex, hdescriptorIndex⟩, hname, hdescriptor, hcount, hattributes⟩ :=
    exists_header_of_parse h
  rw [hnameIndex, hdescriptorIndex]
  obtain ⟨count, hlimit, -⟩ := readHeader_eq_ok_iff.1 hheader
  rw [hlimit] at hcount
  exact ⟨fun _ htext => hname.eq_of_text htext, fun _ htext => hdescriptor.eq_of_text htext,
    Nat.lt_of_le_of_lt hcount count.toNat_lt, hattributes⟩

/-- What is parsed does not depend on what has been noted before. -/
theorem steady_parse (pool : Pool) (strictness : Strictness) (bytes : Bytes) :
    Steady (parse pool strictness bytes).run := by
  rw [parse]
  refine .bind_except (.pure _) fun header => ?_
  refine .bind_except steady_headerText fun name => .bind_except steady_headerText fun descriptor => ?_
  refine .bind_except (.lift (.note _ _)) fun _ => ?_
  refine .bind_except (.lift (ParsedAttribute.steady_decodeOnto pool _ _ _ _)) fun attributes => ?_
  obtain ⟨attributes, leftOver⟩ := attributes
  cases leftOver with
  | nil => exact .pure _
  | cons => exact .bind_except (.lift (.note _ _)) fun _ => .pure _

/-- Bytes with a whole header are always parsed leniently, and the access flags do not matter for the rest of what is
parsed. -/
theorem exists_returns_lenient (pool : Pool) (header : Header) (rest : Bytes) :
    ∃ name descriptor attributes, ∀ bytes flags,
      readHeader bytes = .ok ({ header with accessFlags := flags }, rest) → Returns (parse pool .lenient bytes)
        ⟨flags, header.nameIndex, header.descriptorIndex, name, descriptor, attributes⟩ := by
  obtain ⟨name, hname⟩ := exists_returns_headerText pool unknownName header.nameIndex
  obtain ⟨descriptor, hdescriptor⟩ := exists_returns_headerText pool unknownDescriptor header.descriptorIndex
  have hdecodes : Gives (ParsedAttribute.decodeAll pool header.attributeCount 8 rest)
      ((ParsedAttribute.decodeAll pool header.attributeCount 8 rest).run #[]).1 :=
    (ParsedAttribute.steady_decodeOnto pool _ _ _ _).gives rfl
  rcases hdecoded : ((ParsedAttribute.decodeAll pool header.attributeCount 8 rest).run #[]).1
    with ⟨attributes, leftOver⟩
  rw [hdecoded] at hdecodes
  refine ⟨name, descriptor, attributes, fun bytes flags hheader => ?_⟩
  have hread : Returns (ExceptT.mk (pure (readHeader bytes)) : LoggedExcept MethodError _)
      ({ header with accessFlags := flags }, rest) := fun _ => hheader
  rw [parse]
  refine .bind hread (.bind hname (.bind hdescriptor (.lift_bind (fun _ => rfl) (.lift_bind hdecodes ?_))))
  cases leftOver with
  | nil => exact .pure _
  | cons => exact .lift_bind (fun _ => rfl) (.pure _)

/-- A method whose header resolves and whose attributes can be written is parsed from its bytes, without a warning. -/
theorem parse_bytes {pool : Pool} {strictness : Strictness} {method : ParsedMethod}
    (hname : pool.text method.nameIndex = .ok method.name)
    (hdescriptor : pool.text method.descriptorIndex = .ok method.descriptor)
    (hcount : method.attributes.length < 65536) (hattributes : ∀ parsed ∈ method.attributes, parsed.Encodable pool)
    (log : Log) :
    ∃ log', log.Quiet log' ∧ (parse pool strictness method.toMethod.bytes).run.run log =
      (.ok { method with attributes := method.attributes.map ParsedAttribute.settled }, log') := by
  have hheader := readHeader_bytes hcount
  obtain ⟨log', hquiet, hdecode⟩ := ParsedAttribute.decodeAll_bytesOfAll hattributes 8 []
    (log.push ⟨.debug, s!"Parsing method {method.name}{method.descriptor} ({strictness.label})"⟩)
  rw [List.append_nil] at hdecode
  refine ⟨log', (Log.Quiet.push log _).trans hquiet, ?_⟩
  have hstart : (ExceptT.mk (pure (readHeader method.toMethod.bytes)) : LoggedExcept MethodError _).run.run log =
      (readHeader method.toMethod.bytes, log) := rfl
  rw [parse, run_bind, hstart, hheader]
  dsimp only
  rw [run_bind, headerText_of_ok hname]
  dsimp only
  rw [run_bind, headerText_of_ok hdescriptor]
  dsimp only
  rw [run_lift_bind, run_note]
  dsimp only
  rw [run_lift_bind, hdecode]
  rfl

/-- A method with attributes that declare their actual lengths is parsed back as it is. -/
theorem parse_bytes_canonical {pool : Pool} {strictness : Strictness} {method : ParsedMethod}
    (hname : pool.text method.nameIndex = .ok method.name)
    (hdescriptor : pool.text method.descriptorIndex = .ok method.descriptor)
    (hcount : method.attributes.length < 65536) (hattributes : ∀ parsed ∈ method.attributes, parsed.Canonical pool)
    (log : Log) :
    ∃ log', log.Quiet log' ∧ (parse pool strictness method.toMethod.bytes).run.run log = (.ok method, log') := by
  obtain ⟨log', hquiet, hparse⟩ :=
    parse_bytes hname hdescriptor hcount (fun parsed hmem => (hattributes parsed hmem).encodable) log
  have hsettled : method.attributes.map ParsedAttribute.settled = method.attributes := by
    rw [List.map_congr_left fun parsed hmem => (hattributes parsed hmem).settled_eq]
    exact List.map_id' _
  rw [hsettled] at hparse
  exact ⟨log', hquiet, hparse⟩

end ClassGraft.ParsedMethod
