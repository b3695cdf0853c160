import ClassGraft.Proofs.Method.Course
import ClassGraft.Proofs.Method.Records

/-!
# Parsed methods in normal form

Writing a parsed method brings its bytes into a normal form, without what was skipped or left over.  The normal form is
no longer than the bytes were, and parsing it gives the same method again, with the actual lengths of code attributes in
place of the declared ones and nothing skipped (`ParsedMethod.parse_normalises`).  Bytes are in normal form already when
they are read in full, at all levels.
-/

namespace ClassGraft.ParsedMethod

/-- The method with the actual lengths of code attributes in place of the declared ones. -/
def settled (method : ParsedMethod) : ParsedMethod :=
  { method with attributes := method.attributes.map ParsedAttribute.settled }

/-- Bytes of a method that are read in full: the header, and exactly as many attributes as it announces. -/
def ReadInFull (pool : Pool) (bytes : Bytes) : Prop :=
  ∃ header rest, readHeader bytes = .ok (header, rest) ∧
    ParsedAttribute.ReadInFull pool header.attributeCount rest

/-- What lenient reading notes about a field of the header. -/
def fieldNotes (pool : Pool) (placeholder : String) (index : Index) : List Record :=
  match pool.text index with
  | .ok _ => []
  | .error error => [⟨.warning, s!"Using {placeholder} in place of unresolvable {error.message}"⟩]

/-- What is noted before the attributes of a method are decoded. -/
def headerNotes (pool : Pool) (strictness : Strictness) (method : ParsedMethod) : List Record :=
  fieldNotes pool unknownName method.nameIndex ++ (fieldNotes pool unknownDescriptor method.descriptorIndex ++
    [⟨.debug, s!"Parsing method {method.name}{method.descriptor} ({strictness.label})"⟩])

/-- What is noted about bytes left over after a method. -/
def trailingNotes (method : ParsedMethod) (leftOver : Bytes) : List Record :=
  match leftOver with
  | [] => []
  | _ => [⟨.warning, s!"Ignoring {leftOver.length} trailing bytes after method {method.name}{method.descriptor}"⟩]

theorem warns_trailingNotes {method : ParsedMethod} {leftOver : Bytes} :
    Log.Warns (trailingNotes method leftOver) ↔ leftOver ≠ [] := by
  cases leftOver <;> simp [trailingNotes]

/-- The header takes eight bytes. -/
theorem length_of_readHeader {bytes rest : Bytes} {header : Header} (h : readHeader bytes = .ok (header, rest)) :
    bytes.length = 8 + rest.length := by
  obtain ⟨count, -, rfl⟩ := readHeader_eq_ok_iff.1 h
  simp only [List.length_append, length_u16Bytes]

/-- Bytes are the same when their headers are and what follows them. -/
theorem eq_of_readHeader {bytes bytes' rest : Bytes} {header : Header} (h : readHeader bytes = .ok (header, rest))
    (h' : readHeader bytes' = .ok (header, rest)) : bytes = bytes' := by
  obtain ⟨count, hcount, rfl⟩ := readHeader_eq_ok_iff.1 h
  obtain ⟨count', hcount', rfl⟩ := readHeader_eq_ok_iff.1 h'
  rw [UInt16.toNat_inj.1 (hcount.symm.trans hcount')]

section

variable {pool : Pool} {strictness : Strictness} {bytes rest leftOver : Bytes} {method : ParsedMethod} {count : Nat}
  {header : Header} {found : List ParsedAttribute} {notes : List Record} {log log' : Log}

theorem Shown.tells {placeholder shown : String} {index : Index} (h : Shown pool strictness placeholder index shown) :
    Tells (headerText pool strictness placeholder index).run (.ok shown) (fieldNotes pool placeholder index) := by
  cases h with
  | text h =>
    unfold headerText fieldNotes
    rw [h]
    exact .pure _
  | placeholder hlenient h =>
    unfold headerText fieldNotes
    rw [h, hlenient]
    exact .bind_except (.lift (.note _ _)) (.pure _)

/-- A method is parsed from its header, what stands for its name and descriptor, and the course of decoding its
attributes. -/
theorem tells_parse
    (hheader : readHeader bytes = .ok (⟨method.accessFlags, method.nameIndex, method.descriptorIndex, count⟩, rest))
    (hname : Shown pool strictness unknownName method.nameIndex method.name)
    (hdescriptor : Shown pool strictness unknownDescriptor method.descriptorIndex method.descriptor)
    (hcourse : ParsedAttribute.Course pool count 8 rest method.attributes leftOver notes) :
    Tells (parse pool strictness bytes).run (.ok method)
      (headerNotes pool strictness method ++ (notes ++ trailingNotes method leftOver)) := by
  have hread : Tells (ExceptT.mk (pure (readHeader bytes)) : LoggedExcept MethodError _).run
      (.ok (⟨method.accessFlags, method.nameIndex, method.descriptorIndex, count⟩, rest)) [] := by
    rw [hheader]
    exact .pure _
  have hdecoded : Tells (ParsedAttribute.decodeAll pool count 8 rest) (method.attributes, leftOver) notes :=
    hcourse.tells []
  rw [parse, ← List.nil_append (headerNotes _ _ _ ++ _), headerNotes, List.append_assoc, List.append_assoc]
  refine .bind_except hread (.bind_except hname.tells (.bind_except hdescriptor.tells ?_))
  refine .bind_except (.lift (.note _ _)) (.bind_except hdecoded.lift ?_)
  cases leftOver with
  | nil => exact .pure _
  | cons => exact .bind_except (.lift (.note _ _)) (.pure _)

/-- A parsed method comes with the course of decoding its attributes, which tells what was noted. -/
theorem exists_course_of_parse (h : (parse pool strictness bytes).run.run log = (.ok method, log')) :
    ∃ count rest leftOver notes,
      readHeader bytes = .ok (⟨method.accessFlags, method.nameIndex, method.descriptorIndex, count⟩, rest) ∧
      Shown pool strictness unknownName method.nameIndex method.name ∧
      Shown pool strictness unknownDescriptor method.descriptorIndex method.descriptor ∧
      ParsedAttribute.Course pool count 8 rest method.attributes leftOver notes ∧
      log' = log ++ (headerNotes pool strictness method ++ (notes ++ trailingNotes method leftOver)).toArray := by
  obtain ⟨⟨_, _, _, count⟩, rest, leftOver, before, after, hheader, ⟨rfl, rfl, rfl⟩, hname, hdescriptor, hdecoded⟩ :=
    exists_decoded_of_parse h
  obtain ⟨notes, hcourse, -⟩ := ParsedAttribute.exists_course_of_run hdecoded
  have hrun := (tells_parse hheader hname hdescriptor hcourse) log
  exact ⟨count, rest, leftOver, notes, hheader, hname, hdescriptor, hcourse,
    congrArg Prod.snd (h.symm.trans hrun)⟩

/-- A method is read in full exactly when decoding leaves nothing over and notes no warning. -/
theorem readInFull_iff (hheader : readHeader bytes = .ok (header, rest))
    (hcourse : ParsedAttribute.Course pool header.attributeCount 8 rest found leftOver notes) :
    ReadInFull pool bytes ↔ leftOver = [] ∧ ¬Log.Warns notes := by
  rw [← hcourse.readInFull_iff]
  refine ⟨fun ⟨header', rest', hheader', hrest⟩ => ?_, fun hrest => ⟨header, rest, hheader, hrest⟩⟩
  cases hheader.symm.trans hheader'
  exact hrest

/-- A method with attributes that can be written is parsed from its bytes with its actual lengths and without a warning
about them, whether its header resolves or not. -/
theorem exists_tells_parse_bytes (hname : Shown pool strictness unknownName method.nameIndex method.name)
    (hdescriptor : Shown pool strictness unknownDescriptor method.descriptorIndex method.descriptor)
    (hcount : method.attributes.length < 65536) (hattributes : ∀ parsed ∈ method.attributes, parsed.Encodable pool) :
    ∃ notes, ¬Log.Warns notes ∧ Tells (parse pool strictness method.toMethod.bytes).run (.ok method.settled)
      (headerNotes pool strictness method ++ notes) := by
  obtain ⟨_, -, hrun⟩ := ParsedAttribute.decodeAll_bytesOfAll hattributes 8 [] #[]
  rw [List.append_nil] at hrun
  obtain ⟨notes, hcourse, -⟩ := ParsedAttribute.exists_course_of_run hrun
  have hquiet := (hcourse.readInFull_iff.1 (ParsedAttribute.readInFull_bytesOfAll hattributes)).2
  have htells := @tells_parse pool strictness method.toMethod.bytes _ [] method.settled _ notes
    (readHeader_bytes hcount) hname hdescriptor hcourse
  exact ⟨notes ++ trailingNotes method.settled [], by rwa [trailingNotes, List.append_nil], htells⟩

/-- Writing a parsed method brings its bytes into normal form.  It is no longer than the bytes, is read in full, and is
parsed to the same method with its actual lengths.  Bytes are in normal form exactly when they are read in full, which
is when no warning is noted about them after the header. -/
theorem parse_normalises (h : (parse pool strictness bytes).run.run log = (.ok method, log')) :
    method.toMethod.bytes.length ≤ bytes.length ∧
      (ReadInFull pool method.toMethod.bytes ∧ ∃ notes, ¬Log.Warns notes ∧
        Tells (parse pool strictness method.toMethod.bytes).run (.ok method.settled)
          (headerNotes pool strictness method ++ notes)) ∧
      (method.toMethod.bytes = bytes ↔ ReadInFull pool bytes) ∧
      ∃ notes, log' = log ++ (headerNotes pool strictness method ++ notes).toArray ∧
        (ReadInFull pool bytes ↔ ¬Log.Warns notes) := by
  obtain ⟨count, rest, leftOver, notes, hheader, hname, hdescriptor, hcourse, hlog⟩ := exists_course_of_parse h
  obtain ⟨hwrittenCount, hencodable⟩ := (parse_encodable h).2.2
  have hwritten := readHeader_bytes hwrittenCount
  have hfull : ReadInFull pool method.toMethod.bytes :=
    ⟨_, _, hwritten, ParsedAttribute.readInFull_bytesOfAll hencodable⟩
  have hiff := readInFull_iff hheader hcourse
  refine ⟨?shorter, ⟨hfull, exists_tells_parse_bytes hname hdescriptor hwrittenCount hencodable⟩,
    ⟨fun heq => heq ▸ hfull, ?same⟩, _, hlog, ?warns⟩
  case shorter =>
    obtain ⟨new, hnew, -, -, hlength⟩ :=
      ParsedAttribute.decodeOnto_encodable pool count 8 rest [] #[] (hcourse.tells [] #[])
    obtain rfl : method.attributes = new := hnew
    rw [length_of_readHeader hwritten, length_of_readHeader hheader]
    omega
  case same =>
    intro hbytes
    obtain ⟨hleftOver, hquiet⟩ := hiff.1 hbytes
    obtain ⟨hcount, hrest⟩ := hcourse.written hleftOver hquiet
    rw [hcount, hrest] at hwritten
    exact eq_of_readHeader hwritten hheader
  case warns => rw [hiff, Log.warns_append, warns_trailingNotes, not_or, not_not, and_comm]

end

/-- The normal form of a method with records of all kinds: its code, with the one nested record that has a name. -/
def mixedNormalBytes : Bytes :=
  u16Bytes 1 ++ u16Bytes 1 ++ u16Bytes 2 ++ u16Bytes 1 ++
    Attribute.bytes ⟨3, returning.bytes ++ u16Bytes 1 ++ Attribute.bytes ⟨2, [5]⟩⟩

/-- A method with records of all kinds is not in normal form, and its normal form is shorter. -/
theorem parse_normalises_mixed :
    ∃ method log', (parse namesPool .lenient mixedBytes).run.run #[] = (.ok method, log') ∧
      method.toMethod.bytes = mixedNormalBytes ∧ mixedNormalBytes.length < mixedBytes.length ∧
      ¬ReadInFull namesPool mixedBytes ∧ ReadInFull namesPool mixedNormalBytes ∧
      ∃ notes, ¬Log.Warns notes ∧ Tells (parse namesPool .lenient mixedNormalBytes).run (.ok method.settled)
        (headerNotes namesPool .lenient method ++ notes) := by
  obtain ⟨method, hreturns, hbytes⟩ := (steady_parse namesPool .lenient mixedBytes).exists_returns
    (fun method => method.toMethod.bytes) (b := mixedNormalBytes) (by decide +kernel)
  obtain ⟨log', hparse⟩ := hreturns.exists_run #[]
  obtain ⟨hlength, ⟨hfull, htells⟩, hsame, -⟩ := parse_normalises hparse
  rw [hbytes] at hlength hfull htells hsame
  have hne : mixedNormalBytes ≠ mixedBytes := by decide
  refine ⟨method, log', hparse, hbytes, Nat.lt_of_le_of_ne hlength (by decide), ?_, hfull, htells⟩
  exact fun hmixed => hne (hsame.2 hmixed)

end ClassGraft.ParsedMethod
