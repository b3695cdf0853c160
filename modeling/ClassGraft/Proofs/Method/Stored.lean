import ClassGraft.Proofs.Method.Parsing
import ClassGraft.Proofs.MethodTable

/-!
# Methods of a class, decoded

A method of a class whose header resolves and whose attributes decode at all levels is what its bytes are parsed to,
written again (`ParsedMethod.exists_of_decodes`).  The code attribute that decoding finds first is the one that the
class finds first, so putting it into the method changes nothing (`ParsedMethod.withCode_eq`).
-/

namespace ClassGraft

/-- An attribute that decodes: its name resolves, and when it has code, this is read up to its end and so is that of the
attributes nested in it. -/
inductive Attribute.Decodes (pool : Pool) : Attribute → Prop
  | raw {entry : Attribute} {name : String} (hname : pool.text entry.nameIndex = .ok name) (hne : name ≠ codeName) :
      Decodes pool entry
  | code {entry : Attribute} {code : Code} (hname : pool.text entry.nameIndex = .ok codeName)
      (hread : Code.read entry.info = .ok (code, [])) (hnested : ∀ nested ∈ code.attributes, Decodes pool nested) :
      Decodes pool entry

/-- A method of a class has an attribute with the name of those that have code. -/
def Member.HasCode (pool : Pool) (method : Method) : Prop :=
  ∃ entry ∈ method.attributes, pool.text entry.nameIndex = .ok codeName

namespace ParsedAttribute

variable {pool : Pool}

/-- Attributes that can each be had by decoding can be had together. -/
private theorem exists_canonical_all {entries : List Attribute}
    (h : ∀ entry ∈ entries, ∃ parsed : ParsedAttribute, parsed.toAttribute = entry ∧ parsed.Canonical pool) :
    ∃ all : List ParsedAttribute, all.map toAttribute = entries ∧ ∀ parsed ∈ all, parsed.Canonical pool := by
  induction entries with
  | nil => exact ⟨[], rfl, fun _ hmem => (by cases hmem)⟩
  | cons entry entries ih =>
    obtain ⟨first, rfl, hfirst⟩ := h entry List.mem_cons_self
    obtain ⟨rest, rfl, hrest⟩ := ih fun one hmem => h one (List.mem_cons_of_mem _ hmem)
    exact ⟨first :: rest, rfl, List.forall_mem_cons.2 ⟨hfirst, hrest⟩⟩

/-- An attribute that decodes is had by decoding. -/
theorem exists_canonical {entry : Attribute} (h : entry.Decodes pool) (hfits : entry.Fits) :
    ∃ parsed : ParsedAttribute, parsed.toAttribute = entry ∧ parsed.Canonical pool := by
  induction h with
  | @raw entry name hname hne =>
    exact ⟨.raw entry.nameIndex name entry.info, rfl, .raw hname hne hfits, rfl⟩
  | @code entry code hname hread _ ih =>
    obtain ⟨⟨hbody, hcount, hnestedFits⟩, hinfo⟩ := (Code.inverts_read _ _ _).1 hread
    rw [List.append_nil] at hinfo
    obtain ⟨nested, hnested, hcanonical⟩ := exists_canonical_all fun one hmem => ih one hmem (hnestedFits one hmem)
    have hnestedCount : nested.length < 65536 := by
      rwa [← hnested, List.length_map] at hcount
    rw [Attribute.Fits, hinfo] at hfits
    refine ⟨.code entry.nameIndex code.bytes.length code.toCodeBody nested, ?_,
      canonical_code hname hbody hnested hnestedCount hcanonical hfits⟩
    rw [toAttribute, info_code hnested, ← hinfo]
    rfl

/-- Code is what bears its name. -/
theorem Encodable.isNamed_eq {parsed : ParsedAttribute} (h : parsed.Encodable pool) :
    parsed.toAttribute.isNamed pool codeName = parsed.isCode := by
  cases h with
  | raw hname hne _ =>
    rw [isCode, Bool.eq_false_iff, Ne, Attribute.isNamed_iff]
    intro hcode
    cases hname.symm.trans hcode
    exact hne rfl
  | code hname _ _ _ _ => exact Attribute.isNamed_iff.2 hname

end ParsedAttribute

namespace ParsedMethod

variable {pool : Pool}

/-- A method of a class that decodes is parsed from its bytes, strictly or leniently, with nothing left out. -/
theorem exists_of_decodes {method : Method} {name descriptor : String} (hname : method.name pool = .ok name)
    (hdescriptor : method.descriptor pool = .ok descriptor) (hfits : Attribute.AllFit method.attributes)
    (hdecodes : ∀ entry ∈ method.attributes, entry.Decodes pool) :
    ∃ attributes, (⟨method.accessFlags, method.nameIndex, method.descriptorIndex, name, descriptor, attributes⟩ :
        ParsedMethod).toMethod = method ∧ (∀ parsed ∈ attributes, parsed.Encodable pool) ∧
      ∀ strictness, Returns (parse pool strictness method.bytes)
        ⟨method.accessFlags, method.nameIndex, method.descriptorIndex, name, descriptor, attributes⟩ := by
  obtain ⟨attributes, hattributes, hcanonical⟩ := ParsedAttribute.exists_canonical_all fun entry hmem =>
    ParsedAttribute.exists_canonical (hdecodes entry hmem) (hfits.2 entry hmem)
  have hcount : attributes.length < 65536 := by
    rw [← List.length_map ParsedAttribute.toAttribute, hattributes]
    exact hfits.1
  have hmethod : (⟨method.accessFlags, method.nameIndex, method.descriptorIndex, name, descriptor, attributes⟩ :
      ParsedMethod).toMethod = method := by
    rw [toMethod, hattributes]
  refine ⟨attributes, hmethod, fun parsed hmem => (hcanonical parsed hmem).encodable, fun strictness log => ?_⟩
  obtain ⟨log', -, hparse⟩ := @parse_bytes_canonical pool strictness
    ⟨method.accessFlags, method.nameIndex, method.descriptorIndex, name, descriptor, attributes⟩ hname hdescriptor
    hcount hcanonical log
  rw [hmethod] at hparse
  exact congrArg Prod.fst hparse

variable {method : ParsedMethod} (h : ∀ parsed ∈ method.attributes, parsed.Encodable pool)

include h

/-- Code is decoded exactly where there is some. -/
theorem exists_codeAttribute?_iff : (∃ code, method.codeAttribute? = some code) ↔ method.toMethod.HasCode pool := by
  rw [codeAttribute?, ← Option.isSome_iff_exists, List.find?_isSome]
  constructor
  · rintro ⟨parsed, hmem, hcode⟩
    refine ⟨parsed.toAttribute, List.mem_map_of_mem hmem, Attribute.isNamed_iff.1 ?_⟩
    rw [(h parsed hmem).isNamed_eq, hcode]
  · rintro ⟨entry, hmem, hname⟩
    obtain ⟨parsed, hparsed, rfl⟩ := List.mem_map.1 hmem
    refine ⟨parsed, hparsed, ?_⟩
    rw [← (h parsed hparsed).isNamed_eq]
    exact Attribute.isNamed_iff.2 hname

/-- Putting the first code of a decoded method into the method gives it back. -/
theorem withCode_eq {code : ParsedAttribute} (hcode : method.codeAttribute? = some code) :
    method.toMethod.withCode pool code.toAttribute = method.toMethod := by
  obtain ⟨hisCode, before, after, hattributes, hbefore⟩ := List.find?_eq_some_iff_append.1 hcode
  rw [hattributes] at h
  have hposition : method.toMethod.codePosition? pool = some before.length := by
    refine findIdx?_eq_some_iff_append.2 ⟨before.map ParsedAttribute.toAttribute, code.toAttribute,
      after.map ParsedAttribute.toAttribute, by simp [toMethod, hattributes], by simp, ?_, fun entry hmem => ?_⟩
    · rw [(h code (by simp)).isNamed_eq, hisCode]
    · obtain ⟨parsed, hparsed, rfl⟩ := List.mem_map.1 hmem
      rw [(h parsed (by simp [hparsed])).isNamed_eq]
      simpa using hbefore parsed hparsed
  rw [Member.withCode, hposition, Option.elim_some]
  simp [toMethod, hattributes]

end ParsedMethod

end ClassGraft
