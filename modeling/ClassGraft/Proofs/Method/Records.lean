import ClassGraft.Proofs.Method.Parsing
import Mathlib.Data.List.Forall2

/-!
# The records of a method

What follows the header of a method is cut into records, each a name index, a length and as many bytes.  The records of
a method are the longest run of complete ones, at most as many as the header announces (`Attribute.LongestRun`).  The
readable ones are decoded one by one, each from its own bytes and the pool alone (`Attribute.DecodesTo`), and so are the
records nested in code.  The attributes of a parsed method are exactly what these are decoded to, in order
(`ParsedMethod.attributes_by_record`).
-/

namespace ClassGraft

namespace Attribute

/-! ### Runs of complete records -/

/-- Bytes start with the given complete records, one after the other. -/
def StartsWith (bytes : Bytes) (records : List Attribute) : Prop :=
  (∀ record ∈ records, record.Fits) ∧ records.flatMap Attribute.bytes <+: bytes

/-- The longest run of complete records that bytes start with, of at most `limit` records. -/
structure LongestRun (limit : Nat) (bytes : Bytes) (records : List Attribute) : Prop where
  starts : StartsWith bytes records
  length_le : records.length ≤ limit
  longest : ∀ others, StartsWith bytes others → others.length ≤ limit → others <+: records

section

variable {limit : Nat} {bytes rest : Bytes} {record : Attribute} {records others : List Attribute}

theorem startsWith_nil (bytes : Bytes) : StartsWith bytes [] :=
  ⟨fun _ hmem => (by cases hmem), List.nil_prefix⟩

/-- The first record of a run is the one that is read, and the others follow it. -/
theorem startsWith_cons_iff :
    StartsWith bytes (record :: records) ↔ ∃ rest, read bytes = .ok (record, rest) ∧ StartsWith rest records := by
  simp only [StartsWith, List.forall_mem_cons, List.flatMap_cons, inverts_read _ _ _]
  constructor
  · rintro ⟨⟨hfits, hrecords⟩, after, rfl⟩
    exact ⟨records.flatMap Attribute.bytes ++ after, ⟨hfits, List.append_assoc ..⟩, hrecords, List.prefix_append ..⟩
  · rintro ⟨rest, ⟨hfits, rfl⟩, hrecords, hprefix⟩
    exact ⟨⟨hfits, hrecords⟩, (List.prefix_append_right_inj _).2 hprefix⟩

/-- A record is shorter than the bytes of which it is a part. -/
theorem StartsWith.length_lt (h : StartsWith bytes records) (hmem : record ∈ records) :
    record.info.length < bytes.length := by
  obtain ⟨-, after, rfl⟩ := h
  obtain ⟨before, behind, rfl⟩ := List.append_of_mem hmem
  simp only [List.flatMap_append, List.flatMap_cons, List.length_append, length_bytes]
  omega

theorem longestRun_zero (bytes : Bytes) : LongestRun 0 bytes [] where
  starts := startsWith_nil bytes
  length_le := Nat.le_refl 0
  longest others _ hlength := by
    obtain rfl := List.length_eq_zero_iff.1 (Nat.le_zero.1 hlength)
    exact List.nil_prefix

/-- A run ends where no record is complete. -/
theorem longestRun_of_error {error : FormatError} (hread : read bytes = .error error) (limit : Nat) :
    LongestRun limit bytes [] where
  starts := startsWith_nil bytes
  length_le := Nat.zero_le limit
  longest others hothers _ := by
    cases others with
    | nil => exact List.nil_prefix
    | cons other others =>
      obtain ⟨rest, hother, -⟩ := startsWith_cons_iff.1 hothers
      rw [hread] at hother
      cases hother

/-- A complete record in front makes a run longer by one. -/
theorem LongestRun.cons (h : LongestRun limit rest records) (hread : read bytes = .ok (record, rest)) :
    LongestRun (limit + 1) bytes (record :: records) where
  starts := startsWith_cons_iff.2 ⟨rest, hread, h.starts⟩
  length_le := Nat.succ_le_succ h.length_le
  longest others hothers hlength := by
    cases others with
    | nil => exact List.nil_prefix
    | cons other others =>
      obtain ⟨otherRest, hother, hothers⟩ := startsWith_cons_iff.1 hothers
      rw [hread] at hother
      cases hother
      exact (List.prefix_cons_inj record).2 (h.longest others hothers (Nat.le_of_succ_le_succ hlength))

theorem LongestRun.unique (h : LongestRun limit bytes records) (hothers : LongestRun limit bytes others) :
    records = others :=
  (hothers.longest records h.starts h.length_le).eq_of_length_le
    (h.longest others hothers.starts hothers.length_le).length_le

end

/-! ### Records one by one -/

/-- A record that can be decoded: its name is a text, and contents with the name of code start with some code and the
number of records nested in it. -/
def Readable (pool : Pool) (record : Attribute) : Prop :=
  ∃ name, pool.text record.nameIndex = .ok name ∧
    (name = codeName → ∃ (body : CodeBody) (count : UInt16) (inner : Bytes),
      body.Fits ∧ record.info = body.bytes ++ u16Bytes count ++ inner)

/-- Whether a record can be decoded. -/
def isReadable (pool : Pool) (record : Attribute) : Bool :=
  match pool.text record.nameIndex with
  | .error _ => false
  | .ok name => name ≠ codeName || (ParsedAttribute.readCodeStart record.info).isOk

section

variable {pool : Pool} {record : Attribute}

theorem not_readable_of_unnamed {error : IndexError} (hname : pool.text record.nameIndex = .error error) :
    ¬record.Readable pool := by
  rintro ⟨name, hok, -⟩
  rw [hname] at hok
  cases hok

theorem readable_of_ne {name : String} (hname : pool.text record.nameIndex = .ok name) (hne : name ≠ codeName) :
    record.Readable pool :=
  ⟨name, hname, fun heq => absurd heq hne⟩

theorem readable_of_code {body : CodeBody} {count : UInt16} {inner : Bytes}
    (hname : pool.text record.nameIndex = .ok codeName)
    (hcode : ParsedAttribute.readCodeStart record.info = .ok ((body, count), inner)) : record.Readable pool :=
  ⟨codeName, hname, fun _ => ⟨body, count, inner, (ParsedAttribute.inverts_readCodeStart _ _ _).1 hcode⟩⟩

theorem not_readable_of_malformed {error : FormatError} (hname : pool.text record.nameIndex = .ok codeName)
    (hcode : ParsedAttribute.readCodeStart record.info = .error error) : ¬record.Readable pool := by
  rintro ⟨name, hok, hreadable⟩
  rw [hname] at hok
  cases hok
  obtain ⟨body, count, inner, hstart⟩ := hreadable rfl
  have hread := (ParsedAttribute.inverts_readCodeStart _ (body, count) inner).2 hstart
  rw [hcode] at hread
  cases hread

theorem isReadable_iff : record.isReadable pool = true ↔ record.Readable pool := by
  unfold isReadable
  cases hname : pool.text record.nameIndex with
  | error error => simpa using not_readable_of_unnamed hname
  | ok name =>
    by_cases hcodeName : name = codeName
    · subst hcodeName
      cases hcode : ParsedAttribute.readCodeStart record.info with
      | error error => simpa [Except.isOk, Except.toBool] using not_readable_of_malformed hname hcode
      | ok start => simpa [Except.isOk, Except.toBool] using readable_of_code hname hcode
    · simpa [hcodeName] using readable_of_ne hname hcodeName

instance : DecidablePred (Readable pool) := fun _ => decidable_of_iff _ isReadable_iff

end

/-- What a record is decoded to.  Contents of another name than that of code are kept as they are.  Contents with the
name of code are some code, and what the readable ones of the records after it are decoded to. -/
inductive DecodesTo (pool : Pool) : Attribute → ParsedAttribute → Prop
  | raw {record : Attribute} {name : String} (hname : pool.text record.nameIndex = .ok name) (hne : name ≠ codeName) :
      DecodesTo pool record (.raw record.nameIndex name record.info)
  | code {record : Attribute} {body : CodeBody} {count : UInt16} {inner : Bytes} {records : List Attribute}
      {nested : List ParsedAttribute} (hname : pool.text record.nameIndex = .ok codeName) (hbody : body.Fits)
      (hinfo : record.info = body.bytes ++ u16Bytes count ++ inner) (hrun : LongestRun count.toNat inner records)
      (hnested : List.Forall₂ (DecodesTo pool) (records.filter fun one => one.Readable pool) nested) :
      DecodesTo pool record (.code record.nameIndex record.info.length body nested)

/-- A record is decoded to one thing only. -/
theorem rightUnique_decodesTo (pool : Pool) : Relator.RightUnique (DecodesTo pool) := by
  -- Nested records are shorter than the code around them, so the induction is on a bound of the lengths.
  suffices hbounded : ∀ bound : Nat,
      Relator.RightUnique fun record parsed => record.info.length < bound ∧ DecodesTo pool record parsed from
    fun record _ _ h h' => hbounded (record.info.length + 1) ⟨Nat.lt_succ_self _, h⟩ ⟨Nat.lt_succ_self _, h'⟩
  intro bound
  induction bound with
  | zero => exact fun _ _ _ h => absurd h.1 (Nat.not_lt_zero _)
  | succ bound ih =>
    rintro record parsed parsed' ⟨hlength, h⟩ ⟨-, h'⟩
    cases h with
    | raw hname hne =>
      cases h' with
      | raw hname' hne' =>
        obtain rfl := Except.ok.inj (hname.symm.trans hname')
        rfl
      | code hname' => exact absurd (Except.ok.inj (hname.symm.trans hname')) hne
    | @code _ body count inner records nested hname hbody hinfo hrun hnested =>
      cases h' with
      | raw hname' hne' => exact absurd (Except.ok.inj (hname'.symm.trans hname)) hne'
      | @code _ body' count' inner' records' nested' hname' hbody' hinfo' hrun' hnested' =>
        have hstart := (ParsedAttribute.inverts_readCodeStart _ (body, count) inner).2 ⟨hbody, hinfo⟩
        have hstart' := (ParsedAttribute.inverts_readCodeStart _ (body', count') inner').2 ⟨hbody', hinfo'⟩
        -- Where code starts and what is nested in it are read off the same bytes.
        rw [hstart] at hstart'
        cases hstart'
        obtain rfl := hrun.unique hrun'
        have hinner : inner.length < record.info.length := by
          rw [hinfo, List.length_append, List.length_append, length_u16Bytes]
          omega
        have hshorter : ∀ one ∈ records.filter fun one => one.Readable pool, one.info.length < bound := by
          intro one hone
          have := hrun.starts.length_lt (List.mem_of_mem_filter hone)
          omega
        rw [ih.forall₂ ((List.forall₂_and_left _ _).2 ⟨hshorter, hnested⟩)
          ((List.forall₂_and_left _ _).2 ⟨hshorter, hnested'⟩)]

end Attribute

namespace ParsedAttribute

open Attribute

/-- Decoding puts what the readable ones of the longest run of records are decoded to after the attributes found
before. -/
theorem decodeOnto_by_record (pool : Pool) (count offset : Nat) (bytes : Bytes) (found : List ParsedAttribute)
    (log : Log) {attributes : List ParsedAttribute} {leftOver : Bytes} {log' : Log}
    (h : (decodeOnto pool count offset bytes found).run log = ((attributes, leftOver), log')) :
    ∃ records new, LongestRun count bytes records ∧ attributes = found.reverse ++ new ∧
      List.Forall₂ (DecodesTo pool) (records.filter fun record => record.Readable pool) new := by
  induction count, offset, bytes, found using decodeOnto.induct pool generalizing log attributes leftOver log' with
  | case1 offset bytes found =>
    rw [decodeOnto] at h
    cases h
    exact ⟨[], [], longestRun_zero bytes, (List.append_nil _).symm, .nil⟩
  | case2 offset bytes found count error hread =>
    rw [decodeOnto_truncated hread] at h
    cases h
    exact ⟨[], [], longestRun_of_error hread _, (List.append_nil _).symm, .nil⟩
  | case3 offset bytes found count entry rest hread after error hname ih =>
    rw [decodeOnto_unnamed hread hname] at h
    obtain ⟨records, new, hrun, hsame, hnew⟩ := ih _ h
    refine ⟨entry :: records, new, hrun.cons hread, hsame, ?_⟩
    rwa [List.filter_cons_of_neg (by simpa using not_readable_of_unnamed hname)]
  | case4 offset bytes found count entry rest hread after name hname ihskip ihinner ihcode ihraw =>
    by_cases hcodeName : name = codeName
    · subst hcodeName
      cases hcode : readCodeStart entry.info with
      | error error =>
        rw [decodeOnto_malformed hread hname hcode] at h
        obtain ⟨records, new, hrun, hsame, hnew⟩ := ihskip _ h
        refine ⟨entry :: records, new, hrun.cons hread, hsame, ?_⟩
        rwa [List.filter_cons_of_neg (by simpa using not_readable_of_malformed hname hcode)]
      | ok start =>
        obtain ⟨⟨body, innerCount⟩, inner⟩ := start
        obtain ⟨hbody, hinfo⟩ := (inverts_readCodeStart _ _ _).1 hcode
        rw [decodeOnto_code hread hname hcode] at h
        rcases hinside : (decodeOnto pool innerCount.toNat (entry.info.length - inner.length) inner []).run
          (log.push ⟨.debug, s!"Attribute {codeName} ({entry.info.length} bytes) at offset {offset}"⟩) with
          ⟨⟨nested, nestedLeftOver⟩, nestedLog⟩
        rw [hinside] at h
        obtain ⟨inside, found', hinsideRun, hsame, hnested⟩ := ihinner body innerCount inner hcode _ hinside
        obtain rfl : nested = found' := hsame
        obtain ⟨records, new, hrun, rfl, hnew⟩ := ihcode body _ _ h
        refine ⟨entry :: records, .code entry.nameIndex entry.info.length body nested :: new, hrun.cons hread,
          by simp, ?_⟩
        rw [List.filter_cons_of_pos (by simpa using readable_of_code hname hcode)]
        exact .cons (.code hname hbody hinfo hinsideRun hnested) hnew
    · rw [decodeOnto_raw hread hname hcodeName] at h
      obtain ⟨records, new, hrun, rfl, hnew⟩ := ihraw _ h
      refine ⟨entry :: records, .raw entry.nameIndex name entry.info :: new, hrun.cons hread, by simp, ?_⟩
      rw [List.filter_cons_of_pos (by simpa using readable_of_ne hname hcodeName)]
      exact .cons (.raw hname hcodeName) hnew

end ParsedAttribute

namespace ParsedMethod

open Attribute

/-- The records of a method: the longest run of them after the eight bytes of the header, at most as many as the last
word of the header says. -/
def RecordsOf (bytes : Bytes) (records : List Attribute) : Prop :=
  8 ≤ bytes.length ∧ LongestRun (ofBigEndian ((bytes.drop 6).take 2)) (bytes.drop 8) records

theorem RecordsOf.unique {bytes : Bytes} {records others : List Attribute} (h : RecordsOf bytes records)
    (hothers : RecordsOf bytes others) : records = others :=
  h.2.unique hothers.2

theorem recordsOf_of_header {bytes rest : Bytes} {header : Header} {records : List Attribute}
    (hheader : readHeader bytes = .ok (header, rest)) (hrun : LongestRun header.attributeCount rest records) :
    RecordsOf bytes records := by
  obtain ⟨count, hcount, rfl⟩ := readHeader_eq_ok_iff.1 hheader
  have hfields : (u16Bytes header.accessFlags ++ u16Bytes header.nameIndex ++
      u16Bytes header.descriptorIndex).length = 6 := by
    simp only [List.length_append, length_u16Bytes]
  generalize u16Bytes header.accessFlags ++ u16Bytes header.nameIndex ++ u16Bytes header.descriptorIndex = fields
    at hfields
  have hlength : (fields ++ u16Bytes count).length = 8 := by
    rw [List.length_append, hfields, length_u16Bytes]
  refine ⟨?_, ?_⟩
  · rw [List.length_append, hlength]
    exact Nat.le_add_right 8 _
  · rw [List.drop_left' hlength, List.append_assoc, List.drop_left' hfields, List.take_left' (length_u16Bytes count),
      ofBigEndian_u16Bytes, ← hcount]
    exact hrun

section

variable {pool : Pool} {strictness otherStrictness : Strictness} {bytes otherBytes : Bytes} {log log' before after : Log}
  {method other : ParsedMethod} {records otherRecords : List Attribute}

private theorem exists_records_of_parse (h : (parse pool strictness bytes).run.run log = (.ok method, log')) :
    ∃ records, RecordsOf bytes records ∧
      List.Forall₂ (DecodesTo pool) (records.filter fun record => record.Readable pool) method.attributes := by
  obtain ⟨header, rest, leftOver, _, _, hheader, -, -, -, hdecoded⟩ := exists_decoded_of_parse h
  obtain ⟨records, new, hrun, hsame, hnew⟩ := ParsedAttribute.decodeOnto_by_record pool _ _ _ _ _ hdecoded
  have hattributes : method.attributes = new := hsame
  rw [hattributes]
  exact ⟨records, recordsOf_of_header hheader hrun, hnew⟩

/-- Methods with the same readable records have the same attributes, whatever else is between these records. -/
theorem attributes_eq_of_records (h : (parse pool strictness bytes).run.run log = (.ok method, log'))
    (hother : (parse pool otherStrictness otherBytes).run.run before = (.ok other, after))
    (hrecords : RecordsOf bytes records) (hotherRecords : RecordsOf otherBytes otherRecords)
    (hsame : (otherRecords.filter fun record => record.Readable pool) =
      records.filter fun record => record.Readable pool) :
    other.attributes = method.attributes := by
  obtain ⟨found, hfound, hattributes⟩ := exists_records_of_parse h
  obtain ⟨otherFound, hotherFound, hotherAttributes⟩ := exists_records_of_parse hother
  obtain rfl := hfound.unique hrecords
  obtain rfl := hotherFound.unique hotherRecords
  rw [hsame] at hotherAttributes
  exact (rightUnique_decodesTo pool).forall₂ hotherAttributes hattributes

/-- The attributes of a parsed method are what its readable records are decoded to, in order.  They depend neither on
the strictness nor on the records that are not readable. -/
theorem attributes_by_record (h : (parse pool strictness bytes).run.run log = (.ok method, log')) :
    ∃ records, RecordsOf bytes records ∧
      List.Forall₂ (DecodesTo pool) (records.filter fun record => record.Readable pool) method.attributes ∧
      (∀ otherStrictness other before after,
        (parse pool otherStrictness bytes).run.run before = (.ok other, after) → other.attributes = method.attributes) ∧
      ∀ otherStrictness otherBytes otherRecords other before after,
        (parse pool otherStrictness otherBytes).run.run before = (.ok other, after) →
        RecordsOf otherBytes otherRecords →
        (otherRecords.filter fun record => record.Readable pool) = (records.filter fun record => record.Readable pool) →
        other.attributes = method.attributes := by
  obtain ⟨records, hrecords, hattributes⟩ := exists_records_of_parse h
  refine ⟨records, hrecords, hattributes, ?_, ?_⟩
  · intro otherStrictness other before after hother
    exact attributes_eq_of_records h hother hrecords hrecords rfl
  · intro otherStrictness otherBytes otherRecords other before after hother hotherRecords hsame
    exact attributes_eq_of_records h hother hrecords hotherRecords hsame

end

/-- A pool with the names of a method, and with that of code. -/
def namesPool : Pool :=
  ((Pool.empty.push (.utf8 (.ofText "m"))).push (.utf8 (.ofText "()V"))).push (.utf8 (.ofText "Code"))

/-- Code that returns. -/
def returning : CodeBody := ⟨0, 1, [0xB1], []⟩

/-- Records without a name and with another name than that of code. -/
def nestedRecords : List Attribute := [⟨9, []⟩, ⟨2, [5]⟩]

/-- A record without a name, one that has the name of code but holds none, and code with records of its own. -/
def mixedRecords : List Attribute :=
  [⟨9, [7]⟩, ⟨3, [0]⟩, ⟨3, returning.bytes ++ u16Bytes 2 ++ nestedRecords.flatMap Attribute.bytes⟩]

/-- A method that announces more records than it has, followed by a stray byte. -/
def mixedBytes : Bytes :=
  u16Bytes 1 ++ u16Bytes 1 ++ u16Bytes 2 ++ u16Bytes 4 ++ (mixedRecords.flatMap Attribute.bytes ++ [0])

private theorem longestRun_nestedRecords : LongestRun 2 (nestedRecords.flatMap Attribute.bytes) nestedRecords :=
  .cons (.cons (longestRun_zero []) rfl) rfl

private theorem recordsOf_mixedBytes : RecordsOf mixedBytes mixedRecords :=
  ⟨by decide, .cons (.cons (.cons (longestRun_of_error rfl 1) rfl) rfl) rfl⟩

/-- Of a method with records of all kinds, the code is left, with the one nested record that has a name. -/
theorem attributes_by_record_mixed :
    ∃ method log', (parse namesPool .lenient mixedBytes).run.run #[] = (.ok method, log') ∧
      method.attributes = [.code 3 26 returning [.raw 2 "()V" [5]]] := by
  obtain ⟨name, descriptor, attributes, hreturns⟩ :=
    exists_returns_lenient namesPool ⟨1, 1, 2, 4⟩ (mixedRecords.flatMap Attribute.bytes ++ [0])
  obtain ⟨log', hparse⟩ := (hreturns mixedBytes 1 rfl).exists_run #[]
  refine ⟨_, log', hparse, ?_⟩
  obtain ⟨records, hrecords, hattributes, -⟩ := attributes_by_record hparse
  obtain rfl := hrecords.unique recordsOf_mixedBytes
  have hkept : (mixedRecords.filter fun record => record.Readable namesPool) =
      [⟨3, returning.bytes ++ u16Bytes 2 ++ nestedRecords.flatMap Attribute.bytes⟩] := by decide +kernel
  have hnestedKept : (nestedRecords.filter fun record => record.Readable namesPool) = [⟨2, [5]⟩] := by decide +kernel
  have hnested : List.Forall₂ (DecodesTo namesPool) (nestedRecords.filter fun record => record.Readable namesPool)
      [.raw 2 "()V" [5]] := by
    rw [hnestedKept]
    exact .cons (.raw (by decide +kernel) (by decide)) .nil
  rw [hkept] at hattributes
  refine (rightUnique_decodesTo namesPool).forall₂ hattributes (.cons ?_ .nil)
  exact @DecodesTo.code _ ⟨3, _⟩ returning 2 _ nestedRecords _ (by decide +kernel) ⟨by decide, by decide⟩ rfl
    longestRun_nestedRecords hnested

end ParsedMethod

end ClassGraft
