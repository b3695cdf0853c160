import ClassGraft.Proofs.Method.Decoding

/-!
# The course of decoding

Decoding takes one record after the other, and says in the log what it does with each.  The course of a decoding tells,
case by case, which attributes are found, what is left over at the end, and what is noted (`ParsedAttribute.Course`).
There is one for all bytes, and decoding follows it (`Course.tells`).  When every record is complete, has a name, and
has code if it bears its name, and nothing is left over at any level, the bytes are read in full
(`ParsedAttribute.ReadInFull`).  That is the case exactly when decoding notes no warning and leaves nothing over
(`Course.readInFull_iff`), and then the attributes that it finds are written as the same bytes.
-/

namespace ClassGraft

/-- What is noted about bytes left over after code. -/
def Code.leftOverNotes (leftOver : Bytes) : List Record :=
  match leftOver with
  | [] => []
  | _ => [⟨.warning, s!"Code attribute has {leftOver.length} unused trailing bytes"⟩]

theorem Code.run_noteLeftOver (leftOver : Bytes) (log : Log) :
    (noteLeftOver leftOver).run log = ((), log ++ (leftOverNotes leftOver).toArray) := by
  cases leftOver with
  | nil => exact Tells.pure () log
  | cons => exact Tells.note _ _ log

/-- Some of what has been noted is a warning. -/
def Log.Warns (notes : List Record) : Prop := ∃ note ∈ notes, note.severity = .warning

namespace Log

@[simp]
theorem not_warns_nil : ¬Warns [] := by
  rintro ⟨note, hmem, -⟩
  cases hmem

@[simp]
theorem warns_append {first later : List Record} : Warns (first ++ later) ↔ Warns first ∨ Warns later := by
  simp only [Warns, List.mem_append, or_and_right, exists_or]

@[simp]
theorem warns_warning (message : String) (notes : List Record) : Warns (⟨.warning, message⟩ :: notes) :=
  ⟨_, List.mem_cons_self, rfl⟩

@[simp]
theorem warns_debug {message : String} {notes : List Record} : Warns (⟨.debug, message⟩ :: notes) ↔ Warns notes := by
  simp [Warns]

theorem warns_leftOverNotes {leftOver : Bytes} : Warns (Code.leftOverNotes leftOver) ↔ leftOver ≠ [] := by
  cases leftOver <;> simp [Code.leftOverNotes]

end Log

namespace ParsedAttribute

/-- What comes of decoding up to `count` attributes at an offset of their buffer: the attributes found, the bytes left
over, and the records noted. -/
inductive Course (pool : Pool) : Nat → Nat → Bytes → List ParsedAttribute → Bytes → List Record → Prop
  | done {offset : Nat} {bytes : Bytes} : Course pool 0 offset bytes [] bytes []
  | truncated {count offset : Nat} {bytes : Bytes} {error : FormatError} (hread : Attribute.read bytes = .error error) :
      Course pool (count + 1) offset bytes [] []
        [⟨.warning, s!"Stopping attribute parsing: attribute at offset {offset} is truncated"⟩]
  | unnamed {count offset : Nat} {bytes rest leftOver : Bytes} {entry : Attribute} {error : IndexError}
      {found : List ParsedAttribute} {notes : List Record} (hread : Attribute.read bytes = .ok (entry, rest))
      (hname : pool.text entry.nameIndex = .error error)
      (hrest : Course pool count (offset + 6 + entry.info.length) rest found leftOver notes) :
      Course pool (count + 1) offset bytes found leftOver
        (⟨.warning, s!"Skipping attribute: attribute at offset {offset} has no usable name: {error.message}"⟩ :: notes)
  | raw {count offset : Nat} {bytes rest leftOver : Bytes} {entry : Attribute} {name : String}
      {found : List ParsedAttribute} {notes : List Record} (hread : Attribute.read bytes = .ok (entry, rest))
      (hname : pool.text entry.nameIndex = .ok name) (hne : name ≠ codeName)
      (hrest : Course pool count (offset + 6 + entry.info.length) rest found leftOver notes) :
      Course pool (count + 1) offset bytes (.raw entry.nameIndex name entry.info :: found) leftOver
        (⟨.debug, s!"Attribute {name} ({entry.info.length} bytes) at offset {offset}"⟩ :: notes)
  | malformed {count offset : Nat} {bytes rest leftOver : Bytes} {entry : Attribute} {error : FormatError}
      {found : List ParsedAttribute} {notes : List Record} (hread : Attribute.read bytes = .ok (entry, rest))
      (hname : pool.text entry.nameIndex = .ok codeName) (hcode : readCodeStart entry.info = .error error)
      (hrest : Course pool count (offset + 6 + entry.info.length) rest found leftOver notes) :
      Course pool (count + 1) offset bytes found leftOver
        (⟨.debug, s!"Attribute {codeName} ({entry.info.length} bytes) at offset {offset}"⟩ ::
          ⟨.warning, s!"Skipping attribute: Code attribute at offset {offset} is malformed: {error.message}"⟩ :: notes)
  | code {count offset : Nat} {bytes rest inner innerLeftOver leftOver : Bytes} {entry : Attribute} {body : CodeBody}
      {innerCount : UInt16} {nested found : List ParsedAttribute} {innerNotes notes : List Record}
      (hread : Attribute.read bytes = .ok (entry, rest)) (hname : pool.text entry.nameIndex = .ok codeName)
      (hcode : readCodeStart entry.info = .ok ((body, innerCount), inner))
      (hnested : Course pool innerCount.toNat (entry.info.length - inner.length) inner nested innerLeftOver innerNotes)
      (hrest : Course pool count (offset + 6 + entry.info.length) rest found leftOver notes) :
      Course pool (count + 1) offset bytes (.code entry.nameIndex entry.info.length body nested :: found) leftOver
        (⟨.debug, s!"Attribute {codeName} ({entry.info.length} bytes) at offset {offset}"⟩ ::
          (innerNotes ++ (Code.leftOverNotes innerLeftOver ++ notes)))

/-- Exactly `count` records are read from the bytes, and nothing is left of them.  All have names, and those with the
name of code have some code and, after it, their nested records in full. -/
inductive ReadInFull (pool : Pool) : Nat → Bytes → Prop
  | none : ReadInFull pool 0 []
  | raw {count : Nat} {bytes rest : Bytes} {entry : Attribute} {name : String}
      (hread : Attribute.read bytes = .ok (entry, rest)) (hname : pool.text entry.nameIndex = .ok name)
      (hne : name ≠ codeName) (hrest : ReadInFull pool count rest) : ReadInFull pool (count + 1) bytes
  | code {count : Nat} {bytes rest inner : Bytes} {entry : Attribute} {body : CodeBody} {innerCount : UInt16}
      (hread : Attribute.read bytes = .ok (entry, rest)) (hname : pool.text entry.nameIndex = .ok codeName)
      (hcode : readCodeStart entry.info = .ok ((body, innerCount), inner))
      (hnested : ReadInFull pool innerCount.toNat inner) (hrest : ReadInFull pool count rest) :
      ReadInFull pool (count + 1) bytes

variable {pool : Pool} {count offset : Nat} {bytes rest leftOver : Bytes} {found : List ParsedAttribute}
  {notes : List Record} {entry : Attribute}

/-! ### Decoding follows its course -/

theorem exists_course (pool : Pool) (count offset : Nat) (bytes : Bytes) :
    ∃ found leftOver notes, Course pool count offset bytes found leftOver notes := by
  refine decodeOnto.induct pool
    (fun count offset bytes _ => ∃ found leftOver notes, Course pool count offset bytes found leftOver notes)
    ?done ?truncated ?unnamed ?named count offset bytes []
  case done => exact fun offset bytes _ => ⟨_, _, _, .done⟩
  case truncated => exact fun offset bytes _ count error hread => ⟨_, _, _, .truncated hread⟩
  case unnamed =>
    intro offset bytes _ count entry rest hread after error hname ih
    obtain ⟨found, leftOver, notes, hrest⟩ := ih
    exact ⟨_, _, _, .unnamed hread hname hrest⟩
  case named =>
    intro offset bytes _ count entry rest hread after name hname ihskip ihinner _ _
    obtain ⟨found, leftOver, notes, hrest⟩ := ihskip
    by_cases hcodeName : name = codeName
    · subst hcodeName
      cases hcode : readCodeStart entry.info with
      | error error => exact ⟨_, _, _, .malformed hread hname hcode hrest⟩
      | ok start =>
        obtain ⟨⟨body, innerCount⟩, inner⟩ := start
        obtain ⟨nested, innerLeftOver, innerNotes, hnested⟩ := ihinner body innerCount inner hcode
        exact ⟨_, _, _, .code hread hname hcode hnested hrest⟩
    · exact ⟨_, _, _, .raw hread hname hcodeName hrest⟩

/-- Decoding finds, leaves over and notes what its course says, after what was found before. -/
theorem Course.tells (h : Course pool count offset bytes found leftOver notes) (before : List ParsedAttribute) :
    Tells (decodeOnto pool count offset bytes before) (before.reverse ++ found, leftOver) notes := by
  induction h generalizing before with
  | done =>
    rw [decodeOnto, List.append_nil]
    exact .pure _
  | truncated hread =>
    rw [List.append_nil]
    exact .of_note (.pure _) fun log => decodeOnto_truncated hread log
  | unnamed hread hname _ ih => exact .of_note (ih before) fun log => decodeOnto_unnamed hread hname log
  | @raw _ _ _ _ _ entry name _ _ hread hname hne _ ih =>
    have hlater := ih (.raw entry.nameIndex name entry.info :: before)
    rw [List.reverse_cons, List.append_assoc] at hlater
    exact .of_note hlater fun log => decodeOnto_raw hread hname hne log
  | malformed hread hname hcode _ ih =>
    intro log
    rw [decodeOnto_malformed hread hname hcode, ih before]
    simp
  | @code _ _ _ _ _ _ _ entry body _ nested _ _ _ hread hname hcode _ _ ihnested ih =>
    intro log
    have hlater := ih (.code entry.nameIndex entry.info.length body nested :: before)
    rw [List.reverse_cons, List.append_assoc] at hlater
    rw [decodeOnto_code hread hname hcode, ihnested []]
    dsimp only
    rw [Code.run_noteLeftOver]
    dsimp only
    rw [List.reverse_nil, List.nil_append, hlater]
    simp

/-- Whatever decoding gives, it has a course. -/
theorem exists_course_of_run {log log' : Log}
    (h : (decodeAll pool count offset bytes).run log = ((found, leftOver), log')) :
    ∃ notes, Course pool count offset bytes found leftOver notes ∧ log' = log ++ notes.toArray := by
  obtain ⟨found', leftOver', notes, hcourse⟩ := exists_course pool count offset bytes
  have hrun : (decodeAll pool count offset bytes).run log = ((found', leftOver'), log ++ notes.toArray) :=
    hcourse.tells [] log
  rw [h] at hrun
  cases hrun
  exact ⟨notes, hcourse, rfl⟩

/-! ### Bytes read in full -/

/-- The first of the records has a name, and some code when it bears the name of code. -/
private theorem ReadInFull.exists_name (h : ReadInFull pool (count + 1) bytes) :
    ∃ entry rest name, Attribute.read bytes = .ok (entry, rest) ∧ pool.text entry.nameIndex = .ok name ∧
      (name = codeName → ∃ start inner, readCodeStart entry.info = .ok (start, inner)) := by
  cases h with
  | raw hread hname hne _ => exact ⟨_, _, _, hread, hname, fun heq => absurd heq hne⟩
  | code hread hname hcode _ _ => exact ⟨_, _, _, hread, hname, fun _ => ⟨_, _, hcode⟩⟩

private theorem readInFull_raw_iff {name : String} (hread : Attribute.read bytes = .ok (entry, rest))
    (hname : pool.text entry.nameIndex = .ok name) (hne : name ≠ codeName) :
    ReadInFull pool (count + 1) bytes ↔ ReadInFull pool count rest := by
  refine ⟨fun h => ?_, .raw hread hname hne⟩
  cases h with
  | raw hread' _ _ hrest =>
    cases hread.symm.trans hread'
    exact hrest
  | code hread' hname' _ _ _ =>
    cases hread.symm.trans hread'
    cases hname.symm.trans hname'
    exact absurd rfl hne

private theorem readInFull_code_iff {body : CodeBody} {innerCount : UInt16} {inner : Bytes}
    (hread : Attribute.read bytes = .ok (entry, rest)) (hname : pool.text entry.nameIndex = .ok codeName)
    (hcode : readCodeStart entry.info = .ok ((body, innerCount), inner)) :
    ReadInFull pool (count + 1) bytes ↔ ReadInFull pool innerCount.toNat inner ∧ ReadInFull pool count rest := by
  refine ⟨fun h => ?_, fun ⟨hnested, hrest⟩ => .code hread hname hcode hnested hrest⟩
  cases h with
  | raw hread' hname' hne' _ =>
    cases hread.symm.trans hread'
    cases hname.symm.trans hname'
    exact absurd rfl hne'
  | code hread' _ hcode' hnested hrest =>
    cases hread.symm.trans hread'
    cases hcode.symm.trans hcode'
    exact ⟨hnested, hrest⟩

/-- Bytes are read in full exactly when nothing is left over and decoding notes no warning. -/
theorem Course.readInFull_iff (h : Course pool count offset bytes found leftOver notes) :
    ReadInFull pool count bytes ↔ leftOver = [] ∧ ¬Log.Warns notes := by
  induction h with
  | done =>
    refine ⟨fun h => ?_, fun ⟨hempty, _⟩ => ?_⟩
    · cases h
      exact ⟨rfl, Log.not_warns_nil⟩
    · subst hempty
      exact .none
  | truncated hread =>
    refine iff_of_false (fun h => ?_) (by simp)
    obtain ⟨_, _, _, hread', -⟩ := h.exists_name
    cases hread.symm.trans hread'
  | unnamed hread hname _ _ =>
    refine iff_of_false (fun h => ?_) (by simp)
    obtain ⟨_, _, _, hread', hname', -⟩ := h.exists_name
    cases hread.symm.trans hread'
    cases hname.symm.trans hname'
  | raw hread hname hne _ ih => rw [readInFull_raw_iff hread hname hne, ih, Log.warns_debug]
  | malformed hread hname hcode _ _ =>
    refine iff_of_false (fun h => ?_) (by simp)
    obtain ⟨_, _, _, hread', hname', hcode'⟩ := h.exists_name
    cases hread.symm.trans hread'
    cases hname.symm.trans hname'
    obtain ⟨_, _, hcode'⟩ := hcode' rfl
    cases hcode.symm.trans hcode'
  | code hread hname hcode _ _ ihnested ih =>
    rw [readInFull_code_iff hread hname hcode, ihnested, ih, Log.warns_debug, Log.warns_append, Log.warns_append,
      Log.warns_leftOverNotes]
    tauto

/-- Attributes that are decoded without a warning and without leaving anything over are as many as asked for, and are
written as the bytes that were read. -/
theorem Course.written (h : Course pool count offset bytes found leftOver notes) (hleftOver : leftOver = [])
    (hquiet : ¬Log.Warns notes) : found.length = count ∧ bytesOfAll found = bytes := by
  induction h with
  | done =>
    subst hleftOver
    exact ⟨rfl, rfl⟩
  | truncated => exact absurd (Log.warns_warning _ _) hquiet
  | unnamed => exact absurd (Log.warns_warning _ _) hquiet
  | raw hread _ _ _ ih =>
    obtain ⟨hcount, hbytes⟩ := ih hleftOver (by rwa [Log.warns_debug] at hquiet)
    refine ⟨by rw [List.length_cons, hcount], ?_⟩
    rw [bytesOfAll, hbytes]
    exact ((Attribute.inverts_read _ _ _).1 hread).2.symm
  | malformed => exact absurd (Log.warns_debug.2 (Log.warns_warning _ _)) hquiet
  | @code _ _ _ _ inner _ _ entry body innerCount _ _ _ _ hread _ hcode _ _ ihnested ih =>
    simp only [Log.warns_debug, Log.warns_append, Log.warns_leftOverNotes, not_or, not_not] at hquiet
    obtain ⟨hquietInside, hinside, hquietAfter⟩ := hquiet
    obtain ⟨hnestedCount, hnestedBytes⟩ := ihnested hinside hquietInside
    obtain ⟨hcount, hbytes⟩ := ih hleftOver hquietAfter
    -- None of the nested records was skipped, so the count that is written is the one that was read.
    have hinfo : entry.info = body.bytes ++ u16Bytes innerCount ++ inner :=
      ((inverts_readCodeStart _ _ _).1 hcode).2
    refine ⟨by rw [List.length_cons, hcount], ?_⟩
    rw [bytesOfAll, hbytes, info, countBytes, hnestedCount, hnestedBytes]
    change Attribute.bytes ⟨_, body.bytes ++ u16Bytes innerCount ++ inner⟩ ++ _ = _
    rw [← hinfo]
    exact ((Attribute.inverts_read _ _ _).1 hread).2.symm

/-- Attributes that can be written are read in full from their bytes. -/
theorem readInFull_bytesOfAll {attributes : List ParsedAttribute}
    (h : ∀ parsed ∈ attributes, parsed.Encodable pool) : ReadInFull pool attributes.length (bytesOfAll attributes) := by
  obtain ⟨log', ⟨quiet, hlog', hquiet⟩, hrun⟩ := decodeAll_bytesOfAll h 0 [] #[]
  rw [List.append_nil] at hrun
  obtain ⟨notes, hcourse, rfl⟩ := exists_course_of_run hrun
  obtain rfl : notes = quiet := by simpa using hlog'
  refine hcourse.readInFull_iff.2 ⟨rfl, ?_⟩
  rintro ⟨note, hmem, hwarning⟩
  rw [hquiet note hmem] at hwarning
  cases hwarning

end ParsedAttribute

end ClassGraft
