import ClassGraft.Proofs.Alignment.Itself
import ClassGraft.Proofs.Extraction
import ClassGraft.Proofs.Frames
import ClassGraft.Proofs.Hex
import ClassGraft.Proofs.Method.Stored
import ClassGraft.Proofs.Patch.Frame
import ClassGraft.Proofs.Patch.Succeeding

/-!
# Feeding an extracted method back

A method that is extracted from a class is a patch that changes nothing.  Decoding its bytes and writing the result
gives these bytes again, aligning them with themselves does nothing, and the code that is put in is the code that is
there.  So a differential patch gives the class as it was, and a direct one moves the method to the end
(`applyPatch_extracted`).
-/

namespace ClassGraft

/-- A method is extracted as its bytes. -/
theorem Selector.gives_extract?_iff {file : ClassFile} {position : Nat} {method : Method}
    (hmethod : file.methods[position]? = some method) {extracted : Bytes} :
    Gives ((Selector.position position).extract? file) (some extracted) ↔ extracted = method.bytes := by
  have hgives := gives_extract? file (.position position)
  rw [find?, hmethod, Option.map_some] at hgives
  constructor
  · intro h
    have hboth := (h #[]).symm.trans (hgives #[])
    cases hboth
    rfl
  · rintro rfl
    exact hgives

/-- The class with one of its methods moved behind the others. -/
def ClassFile.moveToEnd (file : ClassFile) (position : Nat) (method : Method) : ClassFile :=
  { file with methods := file.methods.eraseIdx position ++ [method] }

variable {recompute : FrameRecomputer} {bytes extracted : Bytes} {target : ClassFile} {position : Nat} {method : Method}
  {name descriptor : String}

/-- A method that is extracted where it is found under its own name and descriptor, and that decodes, is a patch that
changes nothing but the place of a method that is put in directly. -/
theorem applyPatch_extracted (htarget : Returns (ClassFile.parse bytes) target)
    (hmethod : target.methods[position]? = some method) (hname : method.name target.pool = .ok name)
    (hdescriptor : method.descriptor target.pool = .ok descriptor)
    (hposition : target.findMethod? name descriptor = some position)
    (hdecodes : ∀ entry ∈ method.attributes, entry.Decodes target.pool)
    (hextracted : Gives ((Selector.position position).extract? target) (some extracted)) (reading : HexReading) :
    (method.HasCode target.pool → Returns (recompute target.bytes) target.bytes →
        Returns (applyPatch recompute ⟨bytes, Hex.encode extracted, .differential (Hex.encode extracted), reading⟩)
          ⟨target.bytes, ⟨name, descriptor, true⟩⟩) ∧
      (method.HasCode target.pool ∨ AccessFlags.haveNoCode method.accessFlags = true →
        Returns (recompute (target.moveToEnd position method).bytes) (target.moveToEnd position method).bytes →
        Returns (applyPatch recompute ⟨bytes, Hex.encode extracted, .direct, reading⟩)
          ⟨(target.moveToEnd position method).bytes, ⟨name, descriptor, true⟩⟩) := by
  obtain rfl := (Selector.gives_extract?_iff hmethod).1 hextracted
  have hhex := Hex.returns_decode_encode reading method.bytes
  have hfits : Attribute.AllFit method.attributes :=
    (ClassFile.representable_of_parse htarget).methods.2 method (List.mem_of_getElem? hmethod)
  obtain ⟨attributes, hwritten, hencodable, hparse⟩ :=
    ParsedMethod.exists_of_decodes hname hdescriptor hfits hdecodes
  have hcode := @ParsedMethod.exists_codeAttribute?_iff target.pool
    ⟨method.accessFlags, method.nameIndex, method.descriptorIndex, name, descriptor, attributes⟩ hencodable
  rw [hwritten] at hcode
  constructor
  · intro hhasCode hrecompute
    obtain ⟨code, hfound⟩ := hcode.2 hhasCode
    -- The alignment may note something or fail, but it leaves the bytes as they are.
    obtain ⟨alignment, haligned⟩ : ∃ alignment,
        Gives (align target.pool method.bytes method.bytes) (alignment, method.bytes) := by
      rcases hrun : (align target.pool method.bytes method.bytes).run #[] with ⟨⟨alignment, aligned⟩, log⟩
      have hkept := (Alignment.untouched_align target.pool method.bytes #[]).1
      rw [hrun] at hkept
      obtain rfl : aligned = method.bytes := hkept
      exact ⟨alignment, (steady_align _ _ _).gives (congrArg Prod.fst hrun)⟩
    have hclass := returns_patchDifferential hhex haligned (hparse .strict) (hparse .lenient) hposition hmethod hfound
    have hsame := ParsedMethod.withCode_eq hencodable hfound
    rw [hwritten] at hsame
    have hmethods : target.methods.set position method = target.methods := by
      obtain ⟨hlt, rfl⟩ := List.getElem?_eq_some_iff.1 hmethod
      exact List.set_getElem_self hlt
    rw [hsame, MethodChange.apply, hmethods] at hclass
    exact returns_applyPatch hhex htarget hclass hrecompute target.bytes_ne_nil
  · intro hneeded hrecompute
    have hrequired : (ParsedMethod.hasCode ⟨method.accessFlags, method.nameIndex, method.descriptorIndex, name,
        descriptor, attributes⟩ || AccessFlags.haveNoCode method.accessFlags) = true := by
      rw [Bool.or_eq_true]
      refine hneeded.imp_left fun hhasCode => ?_
      obtain ⟨code, hfound⟩ := hcode.2 hhasCode
      exact List.any_eq_true.2 ⟨code, List.mem_of_find?_eq_some hfound, List.find?_some hfound⟩
    have hclass := @returns_patchDirect reading target method.bytes _ (hparse .lenient) hrequired
    rw [hwritten, hposition] at hclass
    exact returns_applyPatch hhex htarget hclass hrecompute (ClassFile.bytes_ne_nil _)

/-- A method that is not the first of its name and descriptor does not come back to its own place: it is the first that
is taken away. -/
example : ((applyPatch (.unchanged false) ⟨(smallClass [.ofText "m", .ofText "()V"]
    [⟨0x400, 1, 2, []⟩, ⟨0x401, 1, 2, []⟩]).bytes, "0401000100020000", .direct, .strict⟩).run.run #[]).1.toOption =
      some ⟨(smallClass [.ofText "m", .ofText "()V"] [⟨0x401, 1, 2, []⟩, ⟨0x401, 1, 2, []⟩]).bytes,
        ⟨"m", "()V", true⟩⟩ := by
  decide +kernel

/-- The method that returns at once is fed back to its class. -/
theorem applyPatch_extracted_returning :
    Returns (applyPatch (.unchanged false) ⟨returningClass.bytes, returningHex, .differential returningHex, .strict⟩)
        ⟨returningClass.bytes, ⟨"m", "()V", true⟩⟩ ∧
      Returns (applyPatch (.unchanged false) ⟨returningClass.bytes, returningHex, .direct, .strict⟩)
        ⟨returningClass.bytes, ⟨"m", "()V", true⟩⟩ := by
  have hfirst : returningClass.methods[0]? = some (codedMethod [0xB1]) := rfl
  have hcode : returningClass.pool.text 3 = .ok codeName := by decide +kernel
  have hdecodes : ∀ entry ∈ (codedMethod [0xB1]).attributes, entry.Decodes returningClass.pool := by
    intro entry hmem
    rw [codedMethod, List.mem_singleton] at hmem
    subst hmem
    refine @Attribute.Decodes.code _ _ ⟨⟨0, 1, [0xB1], []⟩, []⟩ hcode (by decide +kernel) fun nested hnested => ?_
    cases hnested
  have hhasCode : (codedMethod [0xB1]).HasCode returningClass.pool := ⟨_, List.mem_singleton_self _, hcode⟩
  have hextracted := (Selector.gives_extract?_iff hfirst).2 rfl
  have hrecompute : Returns (FrameRecomputer.unchanged false returningClass.bytes) returningClass.bytes :=
    (FrameRecomputer.deterministic_unchanged false _).returns (by decide +kernel)
  have hhex : Hex.encode (codedMethod [0xB1]).bytes = returningHex := by decide +kernel
  obtain ⟨hdifferential, hdirect⟩ := @applyPatch_extracted (.unchanged false) _ _ _ _ _ "m" "()V" parse_returningClass
    hfirst (by decide +kernel) (by decide +kernel) (by decide +kernel) hdecodes hextracted .strict
  rw [hhex] at hdifferential hdirect
  exact ⟨hdifferential hhasCode hrecompute, hdirect (.inl hhasCode) hrecompute⟩

end ClassGraft
