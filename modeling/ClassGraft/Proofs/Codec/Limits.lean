import ClassGraft.Proofs.Codec.ClassFile
import ClassGraft.Proofs.Pool.Interning

/-!
# Classes that keep within the limits of the format

Counts and the lengths of texts are written in two bytes, the lengths of attributes in four.  A class that keeps within
these limits, and whose pool has been read or built up from constants, is read back from its bytes as it was, and every
class that is read is such a class (`withinLimits_roundTrip`).
-/

namespace ClassGraft

/-- The texts of a pool whose lengths can be written in two bytes. -/
def Pool.HasShortTexts (pool : Pool) : Prop :=
  ∀ index stored, pool.get index = .ok (.utf8 stored) → stored.encoded.length ≤ 65535

/-- In a well-formed pool, only the length of a text can keep an entry from being stored. -/
theorem Pool.WellFormed.storable_iff {pool : Pool} (h : pool.WellFormed) : pool.Storable ↔ pool.HasShortTexts := by
  constructor
  · intro hstorable index stored hget
    exact (h.genuine hget).storable_iff.1 (hstorable.get h hget) stored rfl
  · rintro htexts ⟨offset, constant⟩ hmem
    refine (h.genuine_of_mem hmem).storable_iff.2 fun stored heq => htexts (UInt16.ofNat offset) stored ?_
    rw [h.get_eq_ok_iff, UInt16.toNat_ofNat_of_lt' (h.offset_lt hmem), ← heq]
    exact hmem

namespace ClassFile

/-- A class whose pool has been read, or built up from constants, and whose counts and lengths can be written. -/
structure WithinLimits (file : ClassFile) : Prop where
  pool : file.pool.Made
  texts : file.pool.HasShortTexts
  interfaces : file.interfaces.length ≤ 65535
  fields : file.fields.length ≤ 65535
  methods : file.methods.length ≤ 65535
  attributes : Attribute.AllFit file.attributes
  ofMembers : ∀ member ∈ file.fields ++ file.methods, Attribute.AllFit member.attributes

theorem withinLimits_iff {file : ClassFile} : file.WithinLimits ↔ file.Representable := by
  constructor
  · intro h
    have hpool := h.pool.wellFormed
    exact {
      pool := hpool
      storable := hpool.storable_iff.2 h.texts
      interfaces := Nat.lt_succ_of_le h.interfaces
      fields := ⟨Nat.lt_succ_of_le h.fields, fun field hmem => h.ofMembers field (List.mem_append_left _ hmem)⟩
      methods := ⟨Nat.lt_succ_of_le h.methods, fun method hmem => h.ofMembers method (List.mem_append_right _ hmem)⟩
      attributes := h.attributes }
  · intro h
    refine {
      pool := h.pool.made h.storable
      texts := h.pool.storable_iff.1 h.storable
      interfaces := Nat.le_of_lt_succ h.interfaces
      fields := Nat.le_of_lt_succ h.fields.1
      methods := Nat.le_of_lt_succ h.methods.1
      attributes := h.attributes
      ofMembers := fun member hmem => ?_ }
    rcases List.mem_append.1 hmem with hfield | hmethod
    · exact h.fields.2 member hfield
    · exact h.methods.2 member hmethod

/-- A class within the limits is read from its bytes, with nothing left over and nothing noted, and every class that is
read is within the limits, whatever follows it. -/
theorem withinLimits_roundTrip :
    (∀ file : ClassFile, file.WithinLimits → read file.bytes = .ok (file, []) ∧ ParsesTo file.bytes file) ∧
      ∀ bytes log file, ((parse bytes).run.run log).1 = .ok file → file.WithinLimits := by
  constructor
  · intro file h
    have hparses := (withinLimits_iff.1 h).parsesTo
    exact ⟨parsesTo_iff.1 hparses, hparses⟩
  · intro bytes log file h
    obtain ⟨rest, hread⟩ := parse_eq_ok_iff.1 h
    exact withinLimits_iff.2 (read_eq_ok_iff.1 hread).1

/-- A class with literals that are not equal to themselves as numbers, a text with an unpaired surrogate, and attributes
at all levels. -/
def literalsClass : ClassFile where
  version := ⟨52, 3⟩
  pool := (((Pool.empty.push (.double 0x7FF8000000000001)).push (.utf8 ⟨"\uFFFD", [0xED, 0xA0, 0x80]⟩)).push
    (.float 0x7FC00001)).push (.named .classInfo 3)
  accessFlags := 0x21
  thisClass := 5
  superClass := 0
  interfaces := [5]
  fields := [⟨8, 3, 3, [⟨3, [1, 2]⟩]⟩]
  methods := [⟨1, 3, 3, []⟩]
  attributes := [⟨3, []⟩]

private theorem literalsClass_withinLimits : literalsClass.WithinLimits := by
  have hshown : StoredText.ofEncoded [0xED, 0xA0, 0x80] = some ⟨"\uFFFD", [0xED, 0xA0, 0x80]⟩ := by decide +kernel
  have hsurrogate : (Constant.utf8 ⟨"\uFFFD", [0xED, 0xA0, 0x80]⟩).Storable := ⟨hshown, by decide⟩
  have hstorable : literalsClass.pool.Storable := by
    simp only [literalsClass, Pool.storable_push_iff]
    exact ⟨⟨⟨⟨fun entry hmem => (by cases hmem), trivial⟩, hsurrogate⟩, trivial⟩, trivial⟩
  have hpool : literalsClass.pool.WellFormed :=
    .push (.push (.push (.push .empty trivial (by decide)) hsurrogate.1 (by decide)) trivial (by decide)) trivial
      (by decide)
  refine withinLimits_iff.2 ⟨hpool, hstorable, by decide, ⟨by decide, ?_⟩, ⟨by decide, ?_⟩, by decide, ?_⟩ <;>
    simp [literalsClass, Attribute.AllFit, Attribute.Fits]

/-- Bits of literals and bytes of texts come back as they were. -/
theorem withinLimits_roundTrip_literals :
    literalsClass.WithinLimits ∧ ParsesTo literalsClass.bytes literalsClass :=
  ⟨literalsClass_withinLimits, (withinLimits_roundTrip.1 literalsClass literalsClass_withinLimits).2⟩

end ClassFile

end ClassGraft
