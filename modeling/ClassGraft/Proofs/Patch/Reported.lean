import ClassGraft.Proofs.Patch.FullTables

/-!
# The method that a patch reports

A patch reports the name and the descriptor of the method that it edits or adds.  An edited method is always found under
them, where it was.  A method that is added stands last, so it is the one that is found exactly when its header resolves
and the target had at most one method of this name and descriptor, which then has been removed for it
(`applyPatch_reported`).
-/

namespace ClassGraft

/-- The name of a method leads to a text, and so does its descriptor unless the method is a class initializer. -/
def Member.HeaderResolves (pool : Pool) (name : String) (method : Method) : Prop :=
  pool.LeadsToText method.nameIndex ∧ (name = "<clinit>" ∨ pool.LeadsToText method.descriptorIndex)

/-- An index with no text but the one that the field of a header leads to has the text that stands for this field when
it has any. -/
private theorem text_eq_shown_iff {source pool : Pool} {strictness : Strictness} {placeholder shown : String}
    {field index : Index} (hshown : ParsedMethod.Shown source strictness placeholder field shown)
    (hsame : ∀ text, pool.text index = .ok text → source.text field = .ok text) :
    pool.text index = .ok shown ↔ pool.LeadsToText index := by
  constructor
  · exact fun h => ⟨shown, h⟩
  · rintro ⟨text, htext⟩
    rw [hshown.eq_of_text (hsame text htext), htext]

namespace MethodChange

/-- The method that is edited or added stands at its place. -/
theorem getElem?_place {methods : List Method} {change : MethodChange}
    (h : ∀ position method, change = .edit position method → position < methods.length) :
    (change.apply methods)[change.place methods]? = some change.method := by
  cases change with
  | edit position method =>
    have hlt := h position method rfl
    simp [apply, place, MethodChange.method, hlt]
  | add removed? method => simp [apply, place, MethodChange.method]

end MethodChange

namespace Patched

open TransferM

variable {request : PatchRequest} {target : ClassFile} {reported : PatchedMethod} {pool : Pool} {change : MethodChange}
  {removed? : Option Nat} {added : Method}

/-- A method that is added has the reported name and descriptor when its header resolves. -/
theorem isMethod_added_iff (h : Patched request target reported pool (.add removed? added))
    (htarget : target.Representable) :
    added.isMethod pool reported.name reported.descriptor = true ↔ added.HeaderResolves pool reported.name := by
  rw [Member.isMethod_iff, Member.HeaderResolves]
  cases h with
  | direct _ _ hpatch _ =>
    obtain ⟨_, hrun⟩ := hpatch.exists_run #[]
    obtain ⟨header, _, -, ⟨-, hnameIndex, hdescriptorIndex⟩, hname, hdescriptor, -⟩ :=
      ParsedMethod.exists_header_of_parse hrun
    rw [← hnameIndex] at hname
    rw [← hdescriptorIndex] at hdescriptor
    exact and_congr (text_eq_shown_iff hname fun _ => id)
      (or_congr_right (text_eq_shown_iff hdescriptor fun _ => id))
  | @reference _ _ reference patch _ _ method _ _ _ _ hreference hpatch hcopied _ =>
    obtain ⟨_, hrun⟩ := hpatch.exists_run #[]
    obtain ⟨header, _, -, ⟨-, hnameIndex, hdescriptorIndex⟩, hname, hdescriptor, -⟩ :=
      ParsedMethod.exists_header_of_parse hrun
    have hafter := copiedInto hreference htarget hcopied
    obtain ⟨name, hfield, hplace⟩ := text_of_carried hafter.carried.name hafter.valid
    obtain ⟨descriptor, hfield', hplace'⟩ := text_of_carried hafter.carried.descriptor hafter.valid
    rw [hnameIndex] at hfield
    rw [hdescriptorIndex] at hfield'
    refine and_congr (text_eq_shown_iff hname fun text htext => ?_)
      (or_congr_right (text_eq_shown_iff hdescriptor fun text htext => ?_))
    · rw [hfield, ← hplace, htext]
    · rw [hfield', ← hplace', htext]

/-- The header of a method that is carried over resolves. -/
theorem resolves_of_reference {file : Bytes} (h : Patched request target reported pool (.add removed? added))
    (htarget : target.Representable) (hmode : request.mode = .reference file) :
    added.HeaderResolves pool reported.name := by
  cases h with
  | direct hdirect =>
    rw [hmode] at hdirect
    cases hdirect
  | reference _ _ hreference _ hcopied _ =>
    have hafter := copiedInto hreference htarget hcopied
    obtain ⟨name, -, hplace⟩ := text_of_carried hafter.carried.name hafter.valid
    obtain ⟨descriptor, -, hplace'⟩ := text_of_carried hafter.carried.descriptor hafter.valid
    exact ⟨⟨name, hplace⟩, .inr ⟨descriptor, hplace'⟩⟩

/-- A method that is added is found under what is reported exactly when its header resolves and at most one method of
the target was found there. -/
theorem findMethod?_added_iff (h : Patched request target reported pool (.add removed? added))
    (htarget : target.Representable) :
    { target with pool := pool, methods := (MethodChange.add removed? added).apply target.methods }.findMethod?
        reported.name reported.descriptor = some ((MethodChange.add removed? added).place target.methods) ↔
      added.HeaderResolves pool reported.name ∧
        target.methods.countP (Member.isMethod pool reported.name reported.descriptor) ≤ 1 := by
  rw [← h.isMethod_added_iff htarget]
  obtain rfl : target.methods.findIdx? (Member.isMethod pool reported.name reported.descriptor) = removed? :=
    h.findMethod?_eq
  exact findIdx?_added

/-- A method that is edited is found under what is reported, where it was. -/
theorem findMethod?_edited {position : Nat} {edited : Method}
    (h : Patched request target reported pool (.edit position edited)) :
    { target with pool := pool, methods := target.methods.set position edited }.findMethod?
        reported.name reported.descriptor = some position := by
  have hfound := h.findMethod?_eq
  obtain ⟨hlt, hmatch, -⟩ := List.findIdx?_eq_some_iff_getElem.1 hfound
  refine findIdx?_edited hfound ?_
  cases h with
  | differential _ _ _ _ _ _ _ hmethod _ =>
    have hold : target.methods[position] = _ := List.getElem?_eq_some_iff.1 hmethod |>.2
    rw [hold] at hmatch
    exact hmatch

/-- A differential patch edits a method, and the others add one. -/
theorem change_cases (h : Patched request target reported pool change) :
    (∃ baseHex position edited, request.mode = .differential baseHex ∧ change = .edit position edited) ∨
      ((request.mode = .direct ∨ ∃ file, request.mode = .reference file) ∧
        ∃ removed? added, change = .add removed? added) := by
  cases h with
  | direct hmode => exact .inr ⟨.inl hmode, _, _, rfl⟩
  | reference hmode => exact .inr ⟨.inr ⟨_, hmode⟩, _, _, rfl⟩
  | differential hmode => exact .inl ⟨_, _, _, hmode, rfl⟩

end Patched

variable {recompute : FrameRecomputer} {request : PatchRequest} {outcome : PatchOutcome} {log : Log}

/-- A patch that succeeds gives a class that is parsed from its bytes, with nothing left over, as long as its methods
and the attributes of the one that was put in can be counted.  What is found in it under the reported name and
descriptor is the method that was edited, and the method that was added exactly when its header resolves, as it always
does with a reference class, and the target had at most one method of this name and descriptor. -/
theorem applyPatch_reported (hrecompute : recompute.GivesBack)
    (h : ((applyPatch recompute request).run.run log).1 = .ok outcome) :
    ∃ (target result : ClassFile) (change : MethodChange),
      Returns (ClassFile.parse request.target) target ∧
      result = { target with pool := result.pool, methods := change.apply target.methods } ∧
      outcome.bytes = result.bytes ∧
      (result.methods.length < 65536 → change.method.attributes.length < 65536 →
        ClassFile.ParsesTo outcome.bytes result) ∧
      result.methods[change.place target.methods]? = some change.method ∧
      (∀ baseHex, request.mode = .differential baseHex →
        (∃ position edited, change = .edit position edited) ∧
          result.findMethod? outcome.method.name outcome.method.descriptor = some (change.place target.methods)) ∧
      (∀ file, request.mode = .reference file →
        (∃ removed? added, change = .add removed? added) ∧
          (result.findMethod? outcome.method.name outcome.method.descriptor = some (change.place target.methods) ↔
            target.methods.countP
              (Member.isMethod result.pool outcome.method.name outcome.method.descriptor) ≤ 1)) ∧
      (request.mode = .direct →
        (∃ removed? added, change = .add removed? added) ∧
          (result.findMethod? outcome.method.name outcome.method.descriptor = some (change.place target.methods) ↔
            change.method.HeaderResolves result.pool outcome.method.name ∧
              target.methods.countP
                (Member.isMethod result.pool outcome.method.name outcome.method.descriptor) ≤ 1)) := by
  obtain ⟨bytes, reported⟩ := outcome
  obtain ⟨target, pool, change, htarget, hpatched, hbytes⟩ := bytes_of_applyPatch hrecompute h
  have hfile := ClassFile.representable_of_parse htarget
  dsimp only at hpatched hbytes ⊢
  refine ⟨target, { target with pool := pool, methods := change.apply target.methods }, change, htarget, rfl, hbytes,
    fun hmethods hattributes => hbytes ▸ hpatched.parsesTo hfile hmethods hattributes, ?_, ?_⟩
  · refine MethodChange.getElem?_place fun position edited hedit => ?_
    have hfound := hpatched.findMethod?_eq
    rw [hedit] at hfound
    obtain ⟨hlt, -⟩ := List.findIdx?_eq_some_iff_getElem.1 hfound
    exact hlt
  · rcases hpatched.change_cases with ⟨baseHex, position, edited, hmode, rfl⟩ | ⟨hmode, removed?, added, rfl⟩
    · simp only [hmode]
      exact ⟨fun _ _ => ⟨⟨_, _, rfl⟩, hpatched.findMethod?_edited⟩, nofun, nofun⟩
    · have hfound := hpatched.findMethod?_added_iff hfile
      refine ⟨fun baseHex hdifferential => ?_, fun file hreference => ⟨⟨_, _, rfl⟩, ?_⟩, fun _ => ⟨⟨_, _, rfl⟩, hfound⟩⟩
      · rw [hdifferential] at hmode
        rcases hmode with hdirect | ⟨file, hreference⟩
        · cases hdirect
        · cases hreference
      · exact hfound.trans (and_iff_right (hpatched.resolves_of_reference hfile hreference))

/-- The edited method is found, and the class with it is parsed from what is given. -/
theorem applyPatch_reported_waiting :
    (FrameRecomputer.unchanged false).GivesBack ∧
      ((applyPatch (.unchanged false) editingRequest).run.run #[]).1 =
        .ok ⟨waitingClass.bytes, ⟨"m", "()V", true⟩⟩ ∧
      ∃ (result : ClassFile) (position : Nat) (edited : Method), waitingClass.bytes = result.bytes ∧
        result.methods[position]? = some edited ∧ result.findMethod? "m" "()V" = some position := by
  have hrecompute := FrameRecomputer.givesBack_unchanged false
  obtain ⟨target, result, change, -, -, hbytes, -, hplace, hfound, -, -⟩ :=
    applyPatch_reported hrecompute applyPatch_editingRequest
  obtain ⟨-, hfound⟩ := hfound returningHex rfl
  exact ⟨hrecompute, applyPatch_editingRequest, result, _, _, hbytes, hplace, hfound⟩

/-- A class with two abstract methods of one name and descriptor. -/
def doubledClass : ClassFile := smallClass [.ofText "m", .ofText "()V"] [⟨0x400, 1, 2, []⟩, ⟨0x401, 1, 2, []⟩]

/-- What is reported may be missing, when the name of the method leads nowhere, or be another method, when there were
two, and what is given may not be a class, when a table was full. -/
theorem applyPatch_reports_other :
    (∃ result : ClassFile,
      PatchesTo (directRequest initializerClass "0401000900020000") initializerClass result
        ⟨"UnknownName", "()V", false⟩ ∧
      result.methods = [⟨0x400, 1, 2, []⟩, ⟨0x401, 9, 2, []⟩] ∧ result.findMethod? "UnknownName" "()V" = none) ∧
    (∃ result : ClassFile,
      PatchesTo (directRequest doubledClass "0410000100020000") doubledClass result ⟨"m", "()V", true⟩ ∧
      result.methods = [⟨0x401, 1, 2, []⟩, ⟨0x410, 1, 2, []⟩] ∧ result.findMethod? "m" "()V" = some 0) ∧
    (∃ bytes, Returns (applyPatch (.unchanged false) (directRequest crowdedClass "0400000100020000"))
        ⟨bytes, ⟨"m", "()V", false⟩⟩ ∧
      ∀ file, ¬ClassFile.ParsesTo bytes file) ∧
    (∃ bytes, Returns (applyPatch (.unchanged false) { editingRequest with target := crowdedMethodClass.bytes })
        ⟨bytes, ⟨"m", "()V", true⟩⟩ ∧
      ∀ file, ¬ClassFile.ParsesTo bytes file) := by
  refine ⟨⟨{ initializerClass with methods := [⟨0x400, 1, 2, []⟩, ⟨0x401, 9, 2, []⟩] }, ?_, rfl, ?_⟩,
    ⟨{ doubledClass with methods := [⟨0x401, 1, 2, []⟩, ⟨0x410, 1, 2, []⟩] }, ?_, rfl, ?_⟩,
    ⟨_, applyPatch_crowdedClass⟩, ⟨_, applyPatch_crowdedMethodClass⟩⟩
  · exact patchesTo_of_run (by decide +kernel) (by decide +kernel) (by decide +kernel)
  · decide +kernel
  · exact patchesTo_of_run (by decide +kernel) (by decide +kernel) (by decide +kernel)
  · decide +kernel

end ClassGraft
