import ClassGraft.Method.Decoding
import ClassGraft.Proofs.Codec.Member
import ClassGraft.Proofs.Running
import Mathlib.Data.List.Basic

/-!
# Decoding what was written

What decoding one attribute does, case by case, and two facts about whole lists.  Decoding gives attributes that can be
written (`ParsedAttribute.decodeOnto_encodable`), and attributes that can be written are decoded again without skipping
anything and without leaving anything over (`ParsedAttribute.decodeAll_bytesOfAll`), up to the declared lengths of code
attributes, which become the actual ones.
-/

namespace ClassGraft

/-- A log is followed by debug records only. -/
def Log.Quiet (before after : Log) : Prop :=
  ∃ notes : List Record, after.toList = before.toList ++ notes ∧ ∀ record ∈ notes, record.severity = .debug

namespace Log.Quiet

theorem refl (log : Log) : log.Quiet log := ⟨[], by simp⟩

theorem trans {a b c : Log} (hab : a.Quiet b) (hbc : b.Quiet c) : a.Quiet c := by
  obtain ⟨first, hb, hfirst⟩ := hab
  obtain ⟨second, hc, hsecond⟩ := hbc
  refine ⟨first ++ second, by rw [hc, hb, List.append_assoc], ?_⟩
  intro record hmem
  rcases List.mem_append.1 hmem with hmem | hmem
  · exact hfirst record hmem
  · exact hsecond record hmem

theorem push (log : Log) (message : String) : log.Quiet (log.push ⟨.debug, message⟩) :=
  ⟨[⟨.debug, message⟩], by simp⟩

end Log.Quiet

namespace ParsedAttribute

/-- An attribute that can be written and decoded again: the name leads somewhere, only code attributes bear their name,
and lengths and counts fit into their fields. -/
inductive Encodable (pool : Pool) : ParsedAttribute → Prop
  | raw {nameIndex : Index} {name : String} {info : Bytes} (hname : pool.text nameIndex = .ok name)
      (hne : name ≠ codeName) (hlength : info.length < 4294967296) : Encodable pool (.raw nameIndex name info)
  | code {nameIndex : Index} {declaredLength : Nat} {body : CodeBody} {attributes : List ParsedAttribute}
      (hname : pool.text nameIndex = .ok codeName) (hbody : body.Fits) (hcount : attributes.length < 65536)
      (hattributes : ∀ nested ∈ attributes, Encodable pool nested)
      (hlength : (code nameIndex declaredLength body attributes).info.length < 4294967296) :
      Encodable pool (.code nameIndex declaredLength body attributes)

theorem Encodable.fits {pool : Pool} {parsed : ParsedAttribute} (h : parsed.Encodable pool) :
    parsed.toAttribute.Fits := by
  cases h with
  | raw _ _ hlength => exact hlength
  | code _ _ _ _ hlength => exact hlength

/-- Attributes that can be written fit into their fields. -/
theorem allFit_of_encodable {pool : Pool} {attributes : List ParsedAttribute} (hcount : attributes.length < 65536)
    (h : ∀ parsed ∈ attributes, parsed.Encodable pool) : Attribute.AllFit (attributes.map toAttribute) := by
  refine ⟨by simpa using hcount, fun entry hmem => ?_⟩
  obtain ⟨parsed, hparsed, rfl⟩ := List.mem_map.1 hmem
  exact (h parsed hparsed).fits

mutual

/-- The attribute with the actual lengths of code attributes in place of the declared ones. -/
def settled : ParsedAttribute → ParsedAttribute
  | .raw nameIndex name info => .raw nameIndex name info
  | .code nameIndex declaredLength body attributes =>
    .code nameIndex (info (.code nameIndex declaredLength body attributes)).length body (settledAll attributes)

/-- Attributes with the actual lengths of code attributes in place of the declared ones. -/
def settledAll : List ParsedAttribute → List ParsedAttribute
  | [] => []
  | first :: rest => settled first :: settledAll rest

end

@[simp]
theorem settledAll_eq_map (attributes : List ParsedAttribute) : settledAll attributes = attributes.map settled := by
  induction attributes with
  | nil => rfl
  | cons first rest ih => rw [settledAll, ih, List.map_cons]

/-- An attribute that can be written and declares the actual lengths of its code attributes. -/
structure Canonical (pool : Pool) (parsed : ParsedAttribute) : Prop where
  encodable : parsed.Encodable pool
  settled_eq : parsed.settled = parsed

/-- Code whose nested attributes are written as these attributes has the same contents. -/
theorem info_code {code : Code} {nested : List ParsedAttribute} (hnested : nested.map toAttribute = code.attributes)
    (nameIndex : Index) (declaredLength : Nat) :
    info (.code nameIndex declaredLength code.toCodeBody nested) = code.bytes := by
  rw [info, Code.bytes, bytesOfAll_eq_flatMap, countedBytes, ← hnested, countBytes, countBytes, List.length_map,
    List.flatMap_map, List.append_assoc]

/-- Code with attributes that can be written, declared with its actual length, can be written as it is. -/
theorem canonical_code {pool : Pool} {nameIndex : Index} {code : Code} {nested : List ParsedAttribute}
    (hname : pool.text nameIndex = .ok codeName) (hbody : code.toCodeBody.Fits)
    (hnested : nested.map toAttribute = code.attributes) (hcount : nested.length < 65536)
    (hcanonical : ∀ parsed ∈ nested, parsed.Canonical pool) (hlength : code.bytes.length < 4294967296) :
    Canonical pool (.code nameIndex code.bytes.length code.toCodeBody nested) := by
  have hinfo := info_code hnested nameIndex code.bytes.length
  refine ⟨.code hname hbody hcount (fun parsed hmem => (hcanonical parsed hmem).encodable) (by rwa [hinfo]), ?_⟩
  rw [settled, hinfo, settledAll_eq_map, List.map_congr_left fun parsed hmem => (hcanonical parsed hmem).settled_eq]
  rw [List.map_id']

theorem inverts_readCodeStart :
    Reader.Inverts readCodeStart (fun start => start.1.bytes ++ u16Bytes start.2) fun start => start.1.Fits := by
  intro input start rest
  simp only [readCodeStart, Reader.bind_eq_ok_iff, Reader.pure_eq_ok_iff, CodeBody.inverts_read _ _ _,
    Reader.inverts_u16 _ _ _]
  constructor
  · rintro ⟨body, _, ⟨hbody, rfl⟩, count, _, ⟨-, rfl⟩, rfl, rfl⟩
    exact ⟨hbody, by simp⟩
  · rintro ⟨hbody, rfl⟩
    exact ⟨start.1, _, ⟨hbody, List.append_assoc ..⟩, start.2, _, ⟨trivial, rfl⟩, rfl, rfl⟩

/-! ### One attribute -/

section

variable {pool : Pool} {count offset : Nat} {bytes rest inner : Bytes} {found : List ParsedAttribute}
  {entry : Attribute}

theorem decodeOnto_truncated {error : FormatError} (hread : Attribute.read bytes = .error error) (log : Log) :
    (decodeOnto pool (count + 1) offset bytes found).run log =
      ((found.reverse, []),
        log.push ⟨.warning, s!"Stopping attribute parsing: attribute at offset {offset} is truncated"⟩) := by
  rw [decodeOnto]
  split
  · rfl
  · rename_i h
    rw [hread] at h
    cases h

/-- What follows a complete attribute, without the evidence that the rest is shorter. -/
private theorem decodeOnto_read (hread : Attribute.read bytes = .ok (entry, rest)) :
    decodeOnto pool (count + 1) offset bytes found =
      (match pool.text entry.nameIndex with
      | .error error => do
        note .warning s!"Skipping attribute: attribute at offset {offset} has no usable name: {error.message}"
        decodeOnto pool count (offset + 6 + entry.info.length) rest found
      | .ok name => do
        note .debug s!"Attribute {name} ({entry.info.length} bytes) at offset {offset}"
        if name = codeName then
          match readCodeStart entry.info with
          | .error error =>
            note .warning s!"Skipping attribute: Code attribute at offset {offset} is malformed: {error.message}"
            decodeOnto pool count (offset + 6 + entry.info.length) rest found
          | .ok ((body, innerCount), inner) =>
            let (attributes, leftOver) ←
              decodeOnto pool innerCount.toNat (entry.info.length - inner.length) inner []
            Code.noteLeftOver leftOver
            decodeOnto pool count (offset + 6 + entry.info.length) rest
              (.code entry.nameIndex entry.info.length body attributes :: found)
        else
          decodeOnto pool count (offset + 6 + entry.info.length) rest
            (.raw entry.nameIndex name entry.info :: found)) := by
  rw [decodeOnto]
  split
  · rename_i h
    rw [hread] at h
    cases h
  · rename_i h
    rw [hread] at h
    cases h
    cases pool.text entry.nameIndex with
    | error error => rfl
    | ok name =>
      refine bind_congr fun _ => ?_
      by_cases hname : name = codeName
      · rw [if_pos hname, if_pos hname]
        -- the match in the definition also remembers its outcome, so it is split rather than rewritten
        split <;> rename_i h <;> rw [h]
      · rw [if_neg hname, if_neg hname]

theorem decodeOnto_unnamed {error : IndexError} (hread : Attribute.read bytes = .ok (entry, rest))
    (hname : pool.text entry.nameIndex = .error error) (log : Log) :
    (decodeOnto pool (count + 1) offset bytes found).run log =
      (decodeOnto pool count (offset + 6 + entry.info.length) rest found).run
        (log.push ⟨.warning,
          s!"Skipping attribute: attribute at offset {offset} has no usable name: {error.message}"⟩) := by
  rw [decodeOnto_read hread, hname]
  rfl

theorem decodeOnto_raw {name : String} (hread : Attribute.read bytes = .ok (entry, rest))
    (hname : pool.text entry.nameIndex = .ok name) (hne : name ≠ codeName) (log : Log) :
    (decodeOnto pool (count + 1) offset bytes found).run log =
      (decodeOnto pool count (offset + 6 + entry.info.length) rest
        (.raw entry.nameIndex name entry.info :: found)).run
        (log.push ⟨.debug, s!"Attribute {name} ({entry.info.length} bytes) at offset {offset}"⟩) := by
  rw [decodeOnto_read hread, hname]
  simp only [if_neg hne]
  rfl

theorem decodeOnto_malformed {error : FormatError} (hread : Attribute.read bytes = .ok (entry, rest))
    (hname : pool.text entry.nameIndex = .ok codeName) (hcode : readCodeStart entry.info = .error error) (log : Log) :
    (decodeOnto pool (count + 1) offset bytes found).run log =
      (decodeOnto pool count (offset + 6 + entry.info.length) rest found).run
        ((log.push ⟨.debug, s!"Attribute {codeName} ({entry.info.length} bytes) at offset {offset}"⟩).push ⟨.warning,
          s!"Skipping attribute: Code attribute at offset {offset} is malformed: {error.message}"⟩) := by
  rw [decodeOnto_read hread, hname, hcode]
  rfl

theorem decodeOnto_code {body : CodeBody} {innerCount : UInt16} (hread : Attribute.read bytes = .ok (entry, rest))
    (hname : pool.text entry.nameIndex = .ok codeName)
    (hcode : readCodeStart entry.info = .ok ((body, innerCount), inner)) (log : Log) :
    (decodeOnto pool (count + 1) offset bytes found).run log =
      let ((attributes, leftOver), log) :=
        (decodeOnto pool innerCount.toNat (entry.info.length - inner.length) inner []).run
          (log.push ⟨.debug, s!"Attribute {codeName} ({entry.info.length} bytes) at offset {offset}"⟩)
      let ((), log) := (Code.noteLeftOver leftOver).run log
      (decodeOnto pool count (offset + 6 + entry.info.length) rest
        (.code entry.nameIndex entry.info.length body attributes :: found)).run log := by
  rw [decodeOnto_read hread, hname, hcode]
  rfl

end

theorem steady_noteLeftOver (leftOver : Bytes) : Steady (Code.noteLeftOver leftOver) := by
  cases leftOver with
  | nil => exact .pure _
  | cons => exact .note _ _

/-- What is decoded does not depend on what has been noted before. -/
theorem steady_decodeOnto (pool : Pool) (count offset : Nat) (bytes : Bytes) (found : List ParsedAttribute) :
    Steady (decodeOnto pool count offset bytes found) := by
  induction count, offset, bytes, found using decodeOnto.induct pool with
  | case1 offset bytes found =>
    rw [decodeOnto]
    exact .pure _
  | case2 offset bytes found count error hread =>
    intro log log'
    rw [decodeOnto_truncated hread, decodeOnto_truncated hread]
  | case3 offset bytes found count entry rest hread after error hname ih =>
    rw [decodeOnto_read hread, hname]
    exact .bind (.note _ _) fun _ => ih
  | case4 offset bytes found count entry rest hread after name hname ihskip ihinner ihcode ihraw =>
    rw [decodeOnto_read hread, hname]
    refine .bind (.note _ _) fun _ => ?_
    split
    · cases hcode : readCodeStart entry.info with
      | error error => exact .bind (.note _ _) fun _ => ihskip
      | ok start =>
        obtain ⟨⟨body, innerCount⟩, inner⟩ := start
        refine .bind (ihinner body innerCount inner hcode) fun nested => ?_
        exact .bind (steady_noteLeftOver _) fun _ => ihcode body _
    · exact ihraw

/-! ### Attributes that can be written -/

/-- The attribute in front is decoded, whatever comes before and after it. -/
private def DecodesBack (pool : Pool) (parsed : ParsedAttribute) : Prop :=
  ∀ (count offset : Nat) (rest : Bytes) (found : List ParsedAttribute) (log : Log), ∃ log', log.Quiet log' ∧
    (decodeOnto pool (count + 1) offset (parsed.toAttribute.bytes ++ rest) found).run log =
      (decodeOnto pool count (offset + 6 + parsed.info.length) rest (parsed.settled :: found)).run log'

private theorem decodeOnto_of_decodesBack {pool : Pool} {attributes : List ParsedAttribute}
    (h : ∀ parsed ∈ attributes, DecodesBack pool parsed) (offset : Nat) (rest : Bytes) (found : List ParsedAttribute)
    (log : Log) : ∃ log', log.Quiet log' ∧
      (decodeOnto pool attributes.length offset (bytesOfAll attributes ++ rest) found).run log =
        ((found.reverse ++ attributes.map settled, rest), log') := by
  induction attributes generalizing offset found log with
  | nil =>
    refine ⟨log, .refl log, ?_⟩
    rw [List.length_nil, decodeOnto, List.map_nil, List.append_nil]
    rfl
  | cons first others ih =>
    obtain ⟨middle, hfirst, hdecode⟩ := h first List.mem_cons_self others.length offset (bytesOfAll others ++ rest)
      found log
    obtain ⟨log', hrest, hdecodes⟩ := ih (fun parsed hmem => h parsed (List.mem_cons_of_mem _ hmem))
      (offset + 6 + first.info.length) (first.settled :: found) middle
    refine ⟨log', hfirst.trans hrest, ?_⟩
    rw [bytesOfAll, List.append_assoc, List.length_cons]
    exact (hdecode.trans hdecodes).trans (by simp)

private theorem Encodable.decodesBack {pool : Pool} {parsed : ParsedAttribute} (h : parsed.Encodable pool) :
    DecodesBack pool parsed := by
  induction h with
  | @raw nameIndex name info hname hne hlength =>
    intro count offset rest found log
    have hread := (Attribute.inverts_read (Attribute.bytes ⟨nameIndex, info⟩ ++ rest) ⟨nameIndex, info⟩ rest).2
      ⟨hlength, rfl⟩
    exact ⟨_, .push log _, decodeOnto_raw hread hname hne log⟩
  | @code nameIndex declaredLength body attributes hname hbody hcount _ hlength ih =>
    intro count offset rest found log
    have hinfo : info (.code nameIndex declaredLength body attributes) =
        body.bytes ++ u16Bytes (UInt16.ofNat attributes.length) ++ bytesOfAll attributes := by
      rw [info, countBytes, u16Bytes_ofNat hcount]
    have hcode := (inverts_readCodeStart _ (body, UInt16.ofNat attributes.length) _).2 ⟨hbody, hinfo⟩
    rw [toAttribute, settled, settledAll_eq_map]
    generalize info (.code nameIndex declaredLength body attributes) = contents at hlength hcode ⊢
    have hread := (Attribute.inverts_read (Attribute.bytes ⟨nameIndex, contents⟩ ++ rest) ⟨nameIndex, contents⟩ rest).2
      ⟨hlength, rfl⟩
    -- The nested attributes use up the contents, so nothing is left over to note.
    obtain ⟨log', hquiet, hnested⟩ := decodeOnto_of_decodesBack ih (contents.length - (bytesOfAll attributes).length)
      [] [] (log.push ⟨.debug, s!"Attribute {codeName} ({contents.length} bytes) at offset {offset}"⟩)
    refine ⟨log', (Log.Quiet.push log _).trans hquiet, (decodeOnto_code hread hname hcode log).trans ?_⟩
    rw [UInt16.toNat_ofNat_of_lt' hcount]
    rw [List.append_nil] at hnested
    rw [hnested]
    rfl

/-- Attributes that can be written are decoded again, without a warning and with nothing left over. -/
theorem decodeAll_bytesOfAll {pool : Pool} {attributes : List ParsedAttribute}
    (h : ∀ parsed ∈ attributes, parsed.Encodable pool) (offset : Nat) (rest : Bytes) (log : Log) :
    ∃ log', log.Quiet log' ∧
      (decodeAll pool attributes.length offset (bytesOfAll attributes ++ rest)).run log =
        ((attributes.map settled, rest), log') :=
  decodeOnto_of_decodesBack (fun parsed hmem => (h parsed hmem).decodesBack) offset rest [] log

/-! ### Attributes that decoding gives -/

private theorem length_bytesOfAll_cons (first : ParsedAttribute) (others : List ParsedAttribute) :
    (bytesOfAll (first :: others)).length = 6 + first.info.length + (bytesOfAll others).length := by
  rw [bytesOfAll, List.length_append, Attribute.length_bytes]

/-- Writing the contents of a code attribute that was decoded takes no more bytes than were read. -/
private theorem length_info_code_le {body : CodeBody} {count : UInt16} {contents inner leftOver : Bytes}
    {nested : List ParsedAttribute} (hcontents : contents = body.bytes ++ u16Bytes count ++ inner)
    (hnested : (bytesOfAll nested).length + leftOver.length ≤ inner.length) (nameIndex : Index) (declaredLength : Nat) :
    (info (.code nameIndex declaredLength body nested)).length ≤ contents.length := by
  rw [hcontents, info]
  simp only [List.length_append, countBytes, length_u16Bytes, length_bigEndian]
  omega

/-- Decoding puts attributes that can be written, at most as many as asked for, after those found before, and the bytes
of these and those left over are no more than those that were read. -/
theorem decodeOnto_encodable (pool : Pool) (count offset : Nat) (bytes : Bytes) (found : List ParsedAttribute)
    (log : Log) {attributes : List ParsedAttribute} {leftOver : Bytes} {log' : Log}
    (h : (decodeOnto pool count offset bytes found).run log = ((attributes, leftOver), log')) :
    ∃ new, attributes = found.reverse ++ new ∧ new.length ≤ count ∧ (∀ parsed ∈ new, parsed.Encodable pool) ∧
      (bytesOfAll new).length + leftOver.length ≤ bytes.length := by
  induction count, offset, bytes, found using decodeOnto.induct pool generalizing log attributes leftOver log' with
  | case1 offset bytes found =>
    rw [decodeOnto] at h
    cases h
    exact ⟨[], by simp [bytesOfAll]⟩
  | case2 offset bytes found count error hread =>
    rw [decodeOnto_truncated hread] at h
    cases h
    exact ⟨[], by simp [bytesOfAll]⟩
  | case3 offset bytes found count entry rest hread after error hname ih =>
    rw [decodeOnto_unnamed hread hname] at h
    obtain ⟨new, rfl, hcount, hnew, hlength⟩ := ih _ h
    have := Attribute.length_of_read hread
    exact ⟨new, rfl, by omega, hnew, by omega⟩
  | case4 offset bytes found count entry rest hread after name hname ihskip ihinner ihcode ihraw =>
    have hrest := Attribute.length_of_read hread
    have hfits := ((Attribute.inverts_read _ _ _).1 hread).1
    by_cases hcodeName : name = codeName
    · subst hcodeName
      cases hcode : readCodeStart entry.info with
      | error error =>
        rw [decodeOnto_malformed hread hname hcode] at h
        obtain ⟨new, rfl, hcount, hnew, hlength⟩ := ihskip _ h
        exact ⟨new, rfl, by omega, hnew, by omega⟩
      | ok start =>
        obtain ⟨⟨body, innerCount⟩, inner⟩ := start
        obtain ⟨hbody, hinfo⟩ := (inverts_readCodeStart _ _ _).1 hcode
        rw [decodeOnto_code hread hname hcode] at h
        rcases hnested : (decodeOnto pool innerCount.toNat (entry.info.length - inner.length) inner []).run
          (log.push ⟨.debug, s!"Attribute {codeName} ({entry.info.length} bytes) at offset {offset}"⟩) with
          ⟨⟨nested, nestedLeftOver⟩, nestedLog⟩
        rw [hnested] at h
        obtain ⟨inside, hsame, hinsideCount, hinside, hinsideLength⟩ := ihinner body innerCount inner hcode _ hnested
        obtain rfl : nested = inside := hsame
        obtain ⟨new, rfl, hcount, hnew, hlength⟩ := ihcode body _ _ h
        have hcontents : (info (.code entry.nameIndex entry.info.length body nested)).length ≤ entry.info.length :=
          length_info_code_le hinfo hinsideLength _ _
        refine ⟨.code entry.nameIndex entry.info.length body nested :: new, by simp, Nat.succ_le_succ hcount, ?_, ?_⟩
        · intro parsed hmem
          rcases List.mem_cons.1 hmem with rfl | hmem
          · refine .code hname hbody ?_ hinside (Nat.lt_of_le_of_lt hcontents hfits)
            exact Nat.lt_of_le_of_lt hinsideCount innerCount.toNat_lt
          · exact hnew parsed hmem
        · rw [length_bytesOfAll_cons]
          omega
    · rw [decodeOnto_raw hread hname hcodeName] at h
      obtain ⟨new, rfl, hcount, hnew, hlength⟩ := ihraw _ h
      refine ⟨.raw entry.nameIndex name entry.info :: new, by simp, Nat.succ_le_succ hcount, ?_, ?_⟩
      · intro parsed hmem
        rcases List.mem_cons.1 hmem with rfl | hmem
        · exact .raw hname hcodeName hfits
        · exact hnew parsed hmem
      · rw [length_bytesOfAll_cons, info]
        omega

end ParsedAttribute

end ClassGraft
