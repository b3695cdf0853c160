import ClassGraft.ClassFile.Code
import ClassGraft.ClassFile.Member
import ClassGraft.Proofs.Codec.Reading

/-!
# Attributes, code and members and their bytes

The readers of attributes, of the contents of code attributes and of members accept exactly the bytes of those whose
lengths and counts fit into their fields.
-/

namespace ClassGraft

open Reader

/-- An attribute whose length fits into its field. -/
def Attribute.Fits (entry : Attribute) : Prop := entry.info.length < 4294967296

/-- A code attribute, up to its nested attributes, whose length and count fit into their fields. -/
def CodeBody.Fits (body : CodeBody) : Prop := body.code.length < 4294967296 ∧ body.handlers.length < 65536

/-- Attributes whose number fits into its field, as each of their lengths does. -/
def Attribute.AllFit (entries : List Attribute) : Prop := entries.length < 65536 ∧ ∀ entry ∈ entries, entry.Fits

theorem Attribute.length_bytes (entry : Attribute) : entry.bytes.length = 6 + entry.info.length := by
  simp only [Attribute.bytes, List.length_append, length_u16Bytes, length_bigEndian]

theorem Attribute.inverts_read : Inverts Attribute.read Attribute.bytes Attribute.Fits := by
  intro input entry rest
  simp only [Attribute.read, bind_eq_ok_iff, pure_eq_ok_iff, inverts_u16 _ _ _, inverts_sized _ _ _]
  constructor
  · rintro ⟨nameIndex, _, ⟨-, rfl⟩, info, _, ⟨hinfo, rfl⟩, rfl, rfl⟩
    exact ⟨hinfo, by simp [Attribute.bytes]⟩
  · rintro ⟨hfits, rfl⟩
    exact ⟨entry.nameIndex, _, ⟨trivial, by simp [Attribute.bytes]⟩, entry.info, _, ⟨hfits, rfl⟩, rfl, rfl⟩

/-- Attributes with their count are read back. -/
theorem Attribute.inverts_counted :
    Inverts (counted Attribute.read) (countedBytes Attribute.bytes) Attribute.AllFit :=
  Attribute.inverts_read.counted

theorem ExceptionHandler.inverts_read :
    Inverts ExceptionHandler.read ExceptionHandler.bytes fun _ => True := by
  intro input handler rest
  simp only [ExceptionHandler.read, bind_eq_ok_iff, pure_eq_ok_iff, inverts_u16 _ _ _]
  constructor
  · rintro ⟨startPc, _, ⟨-, rfl⟩, endPc, _, ⟨-, rfl⟩, handlerPc, _, ⟨-, rfl⟩, catchType, _, ⟨-, rfl⟩, rfl, rfl⟩
    exact ⟨trivial, by simp [ExceptionHandler.bytes]⟩
  · rintro ⟨-, rfl⟩
    exact ⟨handler.startPc, _, ⟨trivial, by simp [ExceptionHandler.bytes]⟩, handler.endPc, _, ⟨trivial, rfl⟩,
      handler.handlerPc, _, ⟨trivial, rfl⟩, handler.catchType, _, ⟨trivial, rfl⟩, rfl, rfl⟩

theorem CodeBody.inverts_read : Inverts CodeBody.read CodeBody.bytes CodeBody.Fits := by
  intro input body rest
  simp only [CodeBody.read, bind_eq_ok_iff, pure_eq_ok_iff, inverts_u16 _ _ _, inverts_sized _ _ _,
    ExceptionHandler.inverts_read.counted _ _ _]
  constructor
  · rintro ⟨maxStack, _, ⟨-, rfl⟩, maxLocals, _, ⟨-, rfl⟩, code, _, ⟨hcode, rfl⟩, handlers, _,
      ⟨⟨hhandlers, -⟩, rfl⟩, rfl, rfl⟩
    exact ⟨⟨hcode, hhandlers⟩, by simp [CodeBody.bytes]⟩
  · rintro ⟨⟨hcode, hhandlers⟩, rfl⟩
    exact ⟨body.maxStack, _, ⟨trivial, by simp [CodeBody.bytes]⟩, body.maxLocals, _, ⟨trivial, rfl⟩, body.code, _,
      ⟨hcode, (List.append_assoc ..).symm⟩, body.handlers, _, ⟨⟨hhandlers, fun _ _ => trivial⟩, rfl⟩, rfl, rfl⟩

/-- The contents of a code attribute are read back when they fit into their fields at both levels. -/
theorem Code.inverts_read :
    Inverts Code.read Code.bytes fun code => code.toCodeBody.Fits ∧ Attribute.AllFit code.attributes := by
  intro input code rest
  simp only [Code.read, bind_eq_ok_iff, pure_eq_ok_iff, CodeBody.inverts_read _ _ _, Attribute.inverts_counted _ _ _]
  constructor
  · rintro ⟨body, _, ⟨hbody, rfl⟩, attributes, _, ⟨hattributes, rfl⟩, rfl, rfl⟩
    exact ⟨⟨hbody, hattributes⟩, by simp [Code.bytes]⟩
  · rintro ⟨⟨hbody, hattributes⟩, rfl⟩
    exact ⟨code.toCodeBody, _, ⟨hbody, by simp [Code.bytes]⟩, code.attributes, _, ⟨hattributes, rfl⟩, rfl, rfl⟩

theorem Member.inverts_read :
    Inverts Member.read Member.bytes fun member => Attribute.AllFit member.attributes := by
  intro input member rest
  simp only [Member.read, bind_eq_ok_iff, pure_eq_ok_iff, inverts_u16 _ _ _, Attribute.inverts_counted _ _ _]
  constructor
  · rintro ⟨accessFlags, _, ⟨-, rfl⟩, nameIndex, _, ⟨-, rfl⟩, descriptorIndex, _, ⟨-, rfl⟩, attributes, _,
      ⟨hattributes, rfl⟩, rfl, rfl⟩
    exact ⟨hattributes, by simp [Member.bytes]⟩
  · rintro ⟨hattributes, rfl⟩
    exact ⟨member.accessFlags, _, ⟨trivial, by simp [Member.bytes]⟩, member.nameIndex, _, ⟨trivial, rfl⟩,
      member.descriptorIndex, _, ⟨trivial, rfl⟩, member.attributes, _, ⟨hattributes, rfl⟩, rfl, rfl⟩

end ClassGraft
