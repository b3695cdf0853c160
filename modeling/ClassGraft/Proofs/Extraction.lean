import ClassGraft.Patch
import ClassGraft.Proofs.Codec.Ending
import ClassGraft.Proofs.MethodTable
import Mathlib.Data.List.Forall2

/-!
# Extracted methods in the bytes of a class

The methods of a class that has been parsed are extracted as they stand in the parsed bytes: one after the other, behind
their count and before the attributes of the class (`ClassFile.MethodsAt`).  Every method is extracted by its position,
and by its name and descriptor when it is the one found under them; any other selector is refused
(`Selector.extract_parsed`).
-/

namespace ClassGraft

open Reader

/-! ### Where methods stand -/

/-- The methods of a class stand in bytes from an offset on, one after the other in these slices. -/
structure ClassFile.MethodsAt (file : ClassFile) (bytes : Bytes) (start : Nat) (slices : List Bytes) : Prop where
  start_le : start ≤ bytes.length
  behindCount : ∃ front atCount count, readFront bytes = .ok (front, atCount) ∧
    u16 atCount = .ok (count, bytes.drop start) ∧ count.toNat = file.methods.length
  beforeAttributes : ∃ behind rest, bytes.drop start = slices.flatten ++ behind ∧
    counted Attribute.read behind = .ok (file.attributes, rest)
  readBack : List.Forall₂ (fun slice method => Member.read slice = .ok (method, [])) slices file.methods

namespace ClassFile

variable {file : ClassFile} {bytes : Bytes} {start : Nat} {slices : List Bytes}

/-- A slice begins where those before it end. -/
theorem MethodsAt.slice_eq (h : file.MethodsAt bytes start slices) {position : Nat} {slice : Bytes}
    (hslice : slices[position]? = some slice) :
    (bytes.drop (start + (slices.take position).flatten.length)).take slice.length = slice := by
  obtain ⟨behind, rest, hbytes, -⟩ := h.beforeAttributes
  obtain ⟨hlt, rfl⟩ := List.getElem?_eq_some_iff.1 hslice
  have hsplit : slices.flatten =
      (slices.take position).flatten ++ (slices[position] ++ (slices.drop (position + 1)).flatten) := by
    rw [← List.flatten_cons, ← List.drop_eq_getElem_cons hlt, ← List.flatten_append, List.take_append_drop]
  rw [← List.drop_drop, hbytes, hsplit, List.append_assoc, List.drop_left, List.append_assoc, List.take_left]

/-- A class that is read from bytes has its methods in them, each as it is written. -/
theorem methodsAt_of_read {rest : Bytes} (h : read bytes = .ok (file, rest)) :
    ∃ start, file.MethodsAt bytes start (file.methods.map Member.bytes) := by
  rw [read_eq] at h
  obtain ⟨front, atCount, hfront, h⟩ := bind_eq_ok_iff.1 h
  obtain ⟨methods, behind, hmethods, h⟩ := bind_eq_ok_iff.1 h
  obtain ⟨attributes, _, hattributes, h⟩ := bind_eq_ok_iff.1 h
  obtain ⟨rfl, rfl⟩ := pure_eq_ok_iff.1 h
  obtain ⟨taken, rfl, -⟩ := findsEnd_readFront _ _ _ hfront
  obtain ⟨⟨hcount, hfit⟩, rfl⟩ := (Member.inverts_read.counted _ _ _).1 hmethods
  have hlength : (countBytes methods).length = 2 := length_bigEndian 2 _
  have hdrop : (taken ++ (countedBytes Member.bytes methods ++ behind)).drop (taken.length + 2) =
      methods.flatMap Member.bytes ++ behind := by
    rw [← List.drop_drop, List.drop_left, countedBytes, List.append_assoc, List.drop_left' hlength]
  refine ⟨taken.length + 2, ⟨?_, ?_, ?_, ?_⟩⟩
  · simp [countedBytes, hlength]
  · refine ⟨front, _, UInt16.ofNat methods.length, hfront, ?_, UInt16.toNat_ofNat_of_lt' hcount⟩
    rw [hdrop, inverts_u16 _ _ _]
    exact ⟨trivial, by rw [u16Bytes_ofNat hcount, countedBytes, countBytes, List.append_assoc]⟩
  · exact ⟨behind, _, by rw [hdrop, List.flatMap_def], hattributes⟩
  · rw [List.forall₂_map_left_iff, List.forall₂_same]
    exact fun method hmem => (Member.inverts_read _ _ _).2 ⟨hfit method hmem, (List.append_nil _).symm⟩

end ClassFile

/-! ### What selectors give -/

namespace Selector

/-- A selector finds the bytes of the method that it means. -/
theorem gives_extract? (file : ClassFile) (selector : Selector) :
    Gives (selector.extract? file) ((selector.find? file).map Member.bytes) := by
  intro log
  unfold extract?
  cases selector.find? file <;> rfl

/-- What a selector gives: the bytes of the method that it means, or a refusal. -/
theorem gives_extract (file : ClassFile) (selector : Selector) :
    Gives (selector.extract file).run
      (match selector.find? file with
        | some method => .ok method.bytes
        | none => .error (.methodNotFound selector.text)) := by
  intro log
  unfold extract
  rw [run_lift_bind, gives_extract? file selector log]
  cases selector.find? file <;> rfl

theorem returns_extract {file : ClassFile} {selector : Selector} {method : Method}
    (h : selector.find? file = some method) : Returns (selector.extract file) method.bytes := by
  have hgives := gives_extract file selector
  rwa [h] at hgives

/-- A selector is refused when it means no method, and only then. -/
theorem refused_iff {file : ClassFile} {selector : Selector} :
    Gives (selector.extract file).run (.error (.methodNotFound selector.text)) ↔ selector.find? file = none := by
  have hgives := gives_extract file selector
  cases hfound : selector.find? file with
  | none =>
    rw [hfound] at hgives
    exact iff_of_true hgives rfl
  | some method =>
    rw [hfound] at hgives
    refine iff_of_false (fun hrefused => ?_) (by simp)
    cases (hgives #[]).symm.trans (hrefused #[])

theorem find?_signature (file : ClassFile) (name descriptor : String) :
    (signature name descriptor).find? file = (file.findMethod? name descriptor).bind (file.methods[·]?) := rfl

/-- A method that is found is there. -/
theorem find?_signature_eq_none_iff {file : ClassFile} {name descriptor : String} :
    (signature name descriptor).find? file = none ↔ file.findMethod? name descriptor = none := by
  rw [find?_signature]
  cases hfound : file.findMethod? name descriptor with
  | none => exact iff_of_true rfl rfl
  | some position =>
    obtain ⟨hlt, -⟩ := List.findIdx?_eq_some_iff_getElem.1 hfound
    refine iff_of_false (fun hnone => ?_) (by simp)
    exact absurd (List.getElem?_eq_none_iff.1 hnone) (Nat.not_le.2 hlt)

/-- The methods of a class that is parsed are extracted as the slices of its bytes in which they stand. -/
theorem extract_parsed {bytes : Bytes} {log : Log} {file : ClassFile}
    (h : ((ClassFile.parse bytes).run.run log).1 = .ok file) :
    ∃ start slices, file.MethodsAt bytes start slices ∧
      (∀ position < file.methods.length, ∃ slice, slices[position]? = some slice ∧
        slice = (bytes.drop (start + (slices.take position).flatten.length)).take slice.length ∧
        Returns ((Selector.position position).extract file) slice) ∧
      (∀ name descriptor position, file.findMethod? name descriptor = some position →
        ∃ slice, slices[position]? = some slice ∧ Returns ((signature name descriptor).extract file) slice) ∧
      (∀ position, Gives ((Selector.position position).extract file).run
        (.error (.methodNotFound (Selector.position position).text)) ↔ file.methods.length ≤ position) ∧
      ∀ name descriptor, Gives ((signature name descriptor).extract file).run
        (.error (.methodNotFound (signature name descriptor).text)) ↔ file.findMethod? name descriptor = none := by
  obtain ⟨rest, hread⟩ := ClassFile.parse_eq_ok_iff.1 h
  obtain ⟨start, hat⟩ := ClassFile.methodsAt_of_read hread
  have hslice : ∀ {position : Nat} {method : Method}, file.methods[position]? = some method →
      (file.methods.map Member.bytes)[position]? = some method.bytes := by
    intro position method hmethod
    rw [List.getElem?_map, hmethod, Option.map_some]
  refine ⟨start, _, hat, fun position hlt => ?_, fun name descriptor position hfound => ?_, fun position => ?_,
    fun name descriptor => ?_⟩
  · have hmethod := List.getElem?_eq_getElem hlt
    exact ⟨_, hslice hmethod, (hat.slice_eq (hslice hmethod)).symm, returns_extract hmethod⟩
  · obtain ⟨hlt, -⟩ := List.findIdx?_eq_some_iff_getElem.1 hfound
    have hmethod := List.getElem?_eq_getElem hlt
    refine ⟨_, hslice hmethod, returns_extract ?_⟩
    rw [find?_signature, hfound]
    exact hmethod
  · rw [refused_iff]
    exact List.getElem?_eq_none_iff
  · rw [refused_iff, find?_signature_eq_none_iff]

/-- A class with a field, attributes and two methods of one name and descriptor. -/
def twinsClass : ClassFile where
  version := ⟨50, 0⟩
  pool := (Pool.empty.push (.utf8 (.ofText "m"))).push (.utf8 (.ofText "()V"))
  accessFlags := 0x21
  thisClass := 0
  superClass := 0
  interfaces := []
  fields := [⟨2, 1, 2, [⟨1, [0]⟩]⟩]
  methods := [⟨1, 1, 2, [⟨2, [3, 4]⟩]⟩, ⟨9, 1, 2, []⟩]
  attributes := [⟨1, [5]⟩]

/-- The first of two methods is extracted by their name and descriptor, and there is no third. -/
theorem extract_parsed_twins :
    ((ClassFile.parse twinsClass.bytes).run.run #[]).1 = .ok twinsClass ∧ ∃ start slices,
      twinsClass.MethodsAt twinsClass.bytes start slices ∧
      (∃ slice, slices[0]? = some slice ∧ Returns ((signature "m" "()V").extract twinsClass) slice) ∧
      Gives ((Selector.position 2).extract twinsClass).run (.error (.methodNotFound "#2")) := by
  have hparse : ((ClassFile.parse twinsClass.bytes).run.run #[]).1 = .ok twinsClass :=
    eq_ok_of_toOption (by decide +kernel)
  have hfound : twinsClass.findMethod? "m" "()V" = some 0 := by decide +kernel
  obtain ⟨start, slices, hat, -, hsignature, hrefused, -⟩ := extract_parsed hparse
  exact ⟨hparse, start, slices, hat, hsignature "m" "()V" 0 hfound, (hrefused 2).2 (by decide)⟩

end Selector

end ClassGraft
