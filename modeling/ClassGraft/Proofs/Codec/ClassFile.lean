import ClassGraft.ClassFile.Basic
import ClassGraft.Proofs.Codec.Member
import ClassGraft.Proofs.Codec.Pool
import ClassGraft.Proofs.Running

/-!
# Class files and their bytes

What is read as a class is, apart from the declared count of the pool, what is written for it (`read_eq_ok_iff`).  So a
class whose lengths and counts fit into their fields is parsed from its bytes (`Representable.parsesTo`), and writing a
class that has been read gives the bytes that were read with the count that the pool has reached put in
(`bytes_of_parse`).  That is the declared count, and nothing changes, except where zero was declared or where the last
entry takes up one more index than was declared.
-/

namespace ClassGraft.ClassFile

open Reader

/-- A class whose bytes can be read back: its pool is well-formed, and all lengths and counts fit into their fields. -/
structure Representable (file : ClassFile) : Prop where
  pool : file.pool.WellFormed
  storable : file.pool.Storable
  interfaces : file.interfaces.length < 65536
  fields : file.fields.length < 65536 ∧ ∀ field ∈ file.fields, Attribute.AllFit field.attributes
  methods : file.methods.length < 65536 ∧ ∀ method ∈ file.methods, Attribute.AllFit method.attributes
  attributes : Attribute.AllFit file.attributes

/-- The bytes of a class before the count of its pool. -/
def startBytes (file : ClassFile) : Bytes := bigEndian 4 magic ++ file.version.bytes

/-- The bytes of a class after the count of its pool. -/
def restBytes (file : ClassFile) : Bytes :=
  file.pool.entryBytes ++ u16Bytes file.accessFlags ++ u16Bytes file.thisClass ++ u16Bytes file.superClass ++
    countedBytes u16Bytes file.interfaces ++ countedBytes Member.bytes file.fields ++
    countedBytes Member.bytes file.methods ++ countedBytes Attribute.bytes file.attributes

/-- The count of the pool that the bytes of a class declare. -/
def declaredCount (bytes : Bytes) : Nat := ofBigEndian ((bytes.drop 8).take 2)

theorem bytes_eq (file : ClassFile) :
    file.bytes = file.startBytes ++ bigEndian 2 file.pool.count ++ file.restBytes := by
  simp [bytes, startBytes, restBytes, Pool.bytes_eq]

theorem length_startBytes (file : ClassFile) : file.startBytes.length = 8 := by
  simp [startBytes, Version.bytes, length_u16Bytes, length_bigEndian]

theorem bytes_ne_nil (file : ClassFile) : file.bytes ≠ [] := by
  intro h
  have hlength := congrArg List.length h
  rw [bytes_eq, List.length_append, List.length_append, length_startBytes] at hlength
  simp at hlength

private theorem inverts_version : Inverts Version.read Version.bytes fun _ => True := by
  intro input version rest
  simp only [Version.read, bind_eq_ok_iff, pure_eq_ok_iff, inverts_u16 _ _ _]
  constructor
  · rintro ⟨minor, _, ⟨-, rfl⟩, major, _, ⟨-, rfl⟩, rfl, rfl⟩
    exact ⟨trivial, by simp [Version.bytes]⟩
  · rintro ⟨-, rfl⟩
    exact ⟨version.minor, _, ⟨trivial, by simp [Version.bytes]⟩, version.major, _, ⟨trivial, rfl⟩, rfl, rfl⟩

/-- What is read as a class: the bytes of a representable class with a count with which reading its pool ends. -/
theorem read_eq_ok_iff {file : ClassFile} {input rest : Bytes} :
    read input = .ok (file, rest) ↔
      file.Representable ∧ ∃ limit : UInt16, file.pool.Declares limit.toNat ∧
        input = file.startBytes ++ u16Bytes limit ++ file.restBytes ++ rest := by
  rw [read, bind_eq_ok_iff]
  constructor
  · rintro ⟨found, afterMagic, hmagic, h⟩
    obtain ⟨-, rfl⟩ := (inverts_number 4 _ _ _).1 hmagic
    by_cases hfound : found = magic
    · subst hfound
      rw [if_neg (fun h => h rfl)] at h
      simp only [bind_eq_ok_iff, pure_eq_ok_iff, inverts_version _ _ _, Pool.read_eq_ok_iff, inverts_u16 _ _ _,
        inverts_u16.counted _ _ _, Member.inverts_read.counted _ _ _, Attribute.inverts_counted _ _ _] at h
      obtain ⟨version, _, ⟨-, rfl⟩, pool, _, ⟨hpool, hstorable, limit, hlimit, rfl⟩, accessFlags, _, ⟨-, rfl⟩,
        thisClass, _, ⟨-, rfl⟩, superClass, _, ⟨-, rfl⟩, interfaces, _, ⟨⟨hinterfaces, -⟩, rfl⟩,
        fields, _, ⟨hfields, rfl⟩, methods, _, ⟨hmethods, rfl⟩, attributes, _, ⟨hattributes, rfl⟩, rfl, rfl⟩ := h
      exact ⟨⟨hpool, hstorable, hinterfaces, hfields, hmethods, hattributes⟩, limit, hlimit,
        by simp [startBytes, restBytes]⟩
    · rw [if_pos hfound] at h
      cases h
  · rintro ⟨⟨hpool, hstorable, hinterfaces, hfields, hmethods, hattributes⟩, limit, hlimit, rfl⟩
    refine ⟨magic, file.version.bytes ++ (u16Bytes limit ++ (file.restBytes ++ rest)),
      (inverts_number 4 _ _ _).2 ⟨by decide, by simp [startBytes]⟩, ?_⟩
    rw [if_neg (fun h => h rfl)]
    simp only [bind_eq_ok_iff, pure_eq_ok_iff, inverts_version _ _ _, Pool.read_eq_ok_iff, inverts_u16 _ _ _,
      inverts_u16.counted _ _ _, Member.inverts_read.counted _ _ _, Attribute.inverts_counted _ _ _]
    exact ⟨file.version, _, ⟨trivial, rfl⟩, file.pool, _,
      ⟨hpool, hstorable, limit, hlimit, by simp [restBytes]⟩, file.accessFlags, _, ⟨trivial, rfl⟩,
      file.thisClass, _, ⟨trivial, rfl⟩, file.superClass, _, ⟨trivial, rfl⟩, file.interfaces, _,
      ⟨⟨hinterfaces, fun _ _ => trivial⟩, rfl⟩, file.fields, _, ⟨hfields, rfl⟩, file.methods, _, ⟨hmethods, rfl⟩,
      file.attributes, _, ⟨hattributes, rfl⟩, rfl, rfl⟩

theorem parse_eq_ok_iff {input : Bytes} {log : Log} {file : ClassFile} :
    ((parse input).run.run log).1 = .ok file ↔ ∃ rest, read input = .ok (file, rest) := by
  unfold parse
  cases read input with
  | error error => exact iff_of_false (fun h => by cases h) (by rintro ⟨_, h⟩; cases h)
  | ok found =>
    obtain ⟨found, rest⟩ := found
    cases rest with
    | nil =>
      refine ⟨fun h => ?_, ?_⟩
      · cases h
        exact ⟨[], rfl⟩
      · rintro ⟨_, h⟩
        cases h
        rfl
    | cons b rest =>
      refine ⟨fun h => ?_, ?_⟩
      · cases h
        exact ⟨b :: rest, rfl⟩
      · rintro ⟨_, h⟩
        cases h
        rfl

/-- The bytes of a representable class are read as this class. -/
theorem Representable.read_bytes {file : ClassFile} (h : file.Representable) (rest : Bytes) :
    read (file.bytes ++ rest) = .ok (file, rest) := by
  refine read_eq_ok_iff.2 ⟨h, UInt16.ofNat file.pool.count, ?_, ?_⟩
  · rw [h.pool.toNat_count]
    exact h.pool.declares_count
  · rw [bytes_eq, u16Bytes, h.pool.toNat_count]

/-- The bytes are those of a class and nothing else: parsing them gives the class, without a note of bytes left over. -/
def ParsesTo (bytes : Bytes) (file : ClassFile) : Prop := ∀ log, (parse bytes).run.run log = (.ok file, log)

/-- Parsing notes nothing exactly when it leaves nothing over. -/
theorem parsesTo_iff {bytes : Bytes} {file : ClassFile} : ParsesTo bytes file ↔ read bytes = .ok (file, []) := by
  unfold ParsesTo parse
  constructor
  · intro h
    have hparse := h #[]
    split at hparse
    · cases hparse
    · rename_i hread
      cases hparse
      exact hread
    · -- the note of what is left over makes the log longer
      have hlog := congrArg Array.size (congrArg Prod.snd hparse)
      cases hlog
  · intro h log
    rw [h]
    rfl

theorem ParsesTo.returns {bytes : Bytes} {file : ClassFile} (h : ParsesTo bytes file) : Returns (parse bytes) file :=
  fun log => congrArg Prod.fst (h log)

theorem Representable.parsesTo {file : ClassFile} (h : file.Representable) : ParsesTo file.bytes file := by
  have hread := h.read_bytes []
  rw [List.append_nil] at hread
  exact parsesTo_iff.2 hread

/-- What is parsed does not depend on what has been noted before. -/
theorem steady_parse (bytes : Bytes) : Steady (parse bytes).run := by
  unfold parse
  split
  · exact .throw _
  · exact .pure _
  · exact .bind_except (.lift (.note _ _)) fun _ => .pure _

/-- A class that is parsed can be written and read back. -/
theorem representable_of_parse {bytes : Bytes} {file : ClassFile} (h : Returns (parse bytes) file) :
    file.Representable := by
  obtain ⟨rest, hread⟩ := parse_eq_ok_iff.1 (h #[])
  exact (read_eq_ok_iff.1 hread).1

/-- Writing a class that has been read gives back the bytes that were read, except that the count of the pool becomes
the one that the pool has reached.  The two differ exactly where the bytes declare zero, and where the last entry takes
up one more index than they declare. -/
theorem bytes_of_parse {input : Bytes} {log : Log} {file : ClassFile}
    (h : ((parse input).run.run log).1 = .ok file) :
    ∃ consumed rest, input = consumed ++ rest ∧ read input = .ok (file, rest) ∧
      file.bytes = consumed.take 8 ++ bigEndian 2 file.pool.count ++ consumed.drop 10 ∧
      (file.bytes = consumed ↔ declaredCount consumed = file.pool.count) ∧
      (declaredCount consumed ≠ file.pool.count ↔
        declaredCount consumed = 0 ∧ file.pool = .empty ∨
          declaredCount consumed + 1 = file.pool.count ∧
            ∃ (before : Pool) (last : Constant), file.pool = before.push last ∧ last.width = 2) := by
  obtain ⟨rest, hread⟩ := parse_eq_ok_iff.1 h
  obtain ⟨hfile, limit, hlimit, rfl⟩ := read_eq_ok_iff.1 hread
  have hstart := length_startBytes file
  have hword := length_u16Bytes limit
  have hdeclared : declaredCount (file.startBytes ++ u16Bytes limit ++ file.restBytes) = limit.toNat := by
    have htaken : ((file.startBytes ++ u16Bytes limit ++ file.restBytes).drop 8).take 2 = u16Bytes limit := by
      rw [List.append_assoc, List.drop_left' hstart, List.take_left' hword]
    rw [declaredCount, htaken, ofBigEndian_u16Bytes]
  have hcount := hfile.pool.count_le
  refine ⟨file.startBytes ++ u16Bytes limit ++ file.restBytes, rest, rfl, hread, ?_, ?_, ?_⟩
  · have htake : (file.startBytes ++ u16Bytes limit ++ file.restBytes).take 8 = file.startBytes := by
      rw [List.append_assoc, List.take_left' hstart]
    have hdrop : (file.startBytes ++ u16Bytes limit ++ file.restBytes).drop 10 = file.restBytes :=
      List.drop_left' (by rw [List.length_append, hstart, hword])
    rw [bytes_eq, htake, hdrop]
  · rw [hdeclared, bytes_eq]
    constructor
    · intro heq
      -- what surrounds the counts is the same, so the counts are, both of which fit into two bytes
      have hbytes := List.append_cancel_left (List.append_cancel_right heq)
      have hnumber := congrArg ofBigEndian hbytes
      rw [ofBigEndian_u16Bytes, ofBigEndian_bigEndian] at hnumber
      rwa [Nat.mod_eq_of_lt (by show file.pool.count < 65536; omega), eq_comm] at hnumber
    · intro heq
      rw [u16Bytes, heq]
  · rw [hdeclared]
    constructor
    · intro hne
      exact (hlimit.cases hfile.pool).resolve_left hne
    · have hpos := hfile.pool.count_pos
      rintro (⟨hzero, -⟩ | ⟨hnext, -⟩) <;> omega

/-- A class with one entry, which takes up two indices. -/
def wideEntryClass : ClassFile := ⟨⟨52, 0⟩, Pool.empty.push (.long 7), 0x21, 1, 0, [], [], [], []⟩

/-- The bytes of that class with a count of two, which its entry passes. -/
def wideEntryBytes : Bytes :=
  [0xCA, 0xFE, 0xBA, 0xBE, 0, 0, 0, 52, 0, 2, 5, 0, 0, 0, 0, 0, 0, 0, 7, 0, 0x21, 0, 1, 0, 0, 0, 0, 0, 0, 0, 0, 0, 0]

/-- A class that is read, but written with another count. -/
theorem bytes_of_parse_wideEntry :
    ((parse wideEntryBytes).run.run #[]).1 = .ok wideEntryClass ∧ wideEntryClass.bytes ≠ wideEntryBytes := by
  have hread : read wideEntryBytes = .ok (wideEntryClass, []) := by
    refine read_eq_ok_iff.2 ⟨⟨.push .empty trivial (by decide), ?_, by decide, ?_, ?_, ?_⟩, 2, ?_, by decide⟩
    · exact Pool.storable_push_iff.2 ⟨(fun _ hmem => by cases hmem), trivial⟩
    · exact ⟨by decide, fun _ hmem => by cases hmem⟩
    · exact ⟨by decide, fun _ hmem => by cases hmem⟩
    · exact ⟨by decide, fun _ hmem => by cases hmem⟩
    · exact ⟨by decide, Pool.lastNeeded_push_iff.2 (by decide)⟩
  have hparse : ((parse wideEntryBytes).run.run #[]).1 = .ok wideEntryClass := parse_eq_ok_iff.2 ⟨[], hread⟩
  obtain ⟨consumed, rest, hinput, hrest, -, hsame, -⟩ := bytes_of_parse hparse
  rw [hread] at hrest
  cases hrest
  rw [List.append_nil] at hinput
  rw [← hinput] at hsame
  exact ⟨hparse, fun heq => absurd (hsame.1 heq) (by decide)⟩

end ClassGraft.ClassFile
