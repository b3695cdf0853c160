import ClassGraft.Proofs.Patch.Identity
import ClassGraft.Proofs.Patch.Succeeding

/-!
# Tables that are full

Counts are written in two bytes and wrap, so 65536 methods or attributes are written with a count of zero, and what
stands behind this count is taken for something else or left over (`bytes_of_methods_overfull`,
`bytes_of_attributes_overfull`).  A patch that adds a method to a class with 65535 of them succeeds, and so does one
that adds code to a method with as many attributes, although what they give need not be a class and nothing else
(`applyPatch_crowdedClass`, `applyPatch_crowdedMethodClass`).
-/

namespace ClassGraft

/-- The count of 65536 elements is written as zero. -/
private theorem countedBytes_wrapped {α : Type} {encode : α → Bytes} {xs : List α} (h : xs.length = 65536) :
    countedBytes encode xs = countedBytes encode [] ++ xs.flatMap encode := by
  have hcount : bigEndian 2 65536 = bigEndian 2 0 := by decide
  unfold countedBytes countBytes
  rw [h, hcount, List.length_nil, List.flatMap_nil, List.append_nil]

namespace ClassFile

/-- Bytes that begin with those of a class and go on are not those of a class. -/
theorem Representable.not_parsesTo {file : ClassFile} (h : file.Representable) {rest : Bytes} (hrest : rest ≠ [])
    (other : ClassFile) : ¬ParsesTo (file.bytes ++ rest) other := by
  intro hparses
  have hread := parsesTo_iff.1 hparses
  rw [h.read_bytes rest] at hread
  cases hread
  exact hrest rfl

/-- The bytes of a class before its methods. -/
private def bytesBeforeMethods (file : ClassFile) : Bytes :=
  bigEndian 4 magic ++ file.version.bytes ++ file.pool.bytes ++ u16Bytes file.accessFlags ++
    u16Bytes file.thisClass ++ u16Bytes file.superClass ++ countedBytes u16Bytes file.interfaces ++
    countedBytes Member.bytes file.fields

private theorem bytes_eq_before (file : ClassFile) (methods : List Method) (hattributes : file.attributes = []) :
    { file with methods := methods }.bytes =
      file.bytesBeforeMethods ++ (countedBytes Member.bytes methods ++ [0, 0]) := by
  have hbytes : { file with methods := methods }.bytes =
      file.bytesBeforeMethods ++ countedBytes Member.bytes methods ++
        countedBytes Attribute.bytes file.attributes := rfl
  rw [hbytes, hattributes, List.append_assoc]
  rfl

/-- With 65536 methods, of which the first has no flags, a class without attributes is written like one without methods,
and more behind it. -/
theorem bytes_of_methods_overfull {file : ClassFile} {first : Method} {methods others : List Method}
    (hattributes : file.attributes = []) (hmethods : methods = first :: others) (hflags : first.accessFlags = 0)
    (hcount : methods.length = 65536) :
    ∃ rest, rest ≠ [] ∧ { file with methods := methods }.bytes = { file with methods := [] }.bytes ++ rest := by
  obtain ⟨rest, hrest⟩ : ∃ rest, methods.flatMap Member.bytes = [0, 0] ++ rest := by
    rw [hmethods, List.flatMap_cons, Member.bytes, hflags]
    exact ⟨_, by simp only [List.append_assoc]; rfl⟩
  refine ⟨rest ++ [0, 0], by simp, ?_⟩
  rw [bytes_eq_before file _ hattributes, bytes_eq_before file _ hattributes, countedBytes_wrapped hcount, hrest]
  simp only [List.append_assoc]

/-- With 65536 attributes, of which the first is named by zero, the only method of a class without attributes is written
like one without attributes, and more behind it. -/
theorem bytes_of_attributes_overfull {file : ClassFile} (method : Method) {first : Attribute}
    {attributes others : List Attribute} (hattributes : file.attributes = []) (hentries : attributes = first :: others)
    (hname : first.nameIndex = 0) (hcount : attributes.length = 65536) :
    ∃ rest, rest ≠ [] ∧ { file with methods := [{ method with attributes := attributes }] }.bytes =
      { file with methods := [{ method with attributes := [] }] }.bytes ++ rest := by
  obtain ⟨rest, hrest⟩ : ∃ rest, attributes.flatMap Attribute.bytes = [0, 0] ++ rest := by
    rw [hentries, List.flatMap_cons, Attribute.bytes, hname]
    exact ⟨_, by simp only [List.append_assoc]; rfl⟩
  have hmember : Member.bytes { method with attributes := attributes } =
      Member.bytes { method with attributes := [] } ++ ([0, 0] ++ rest) := by
    unfold Member.bytes
    rw [countedBytes_wrapped hcount, hrest]
    simp only [List.append_assoc]
  have hsingle (member : Method) : countedBytes Member.bytes [member] = [0, 1] ++ member.bytes := by
    simp [countedBytes, countBytes]
    rfl
  refine ⟨rest ++ [0, 0], by simp, ?_⟩
  rw [bytes_eq_before file _ hattributes, bytes_eq_before file _ hattributes, hsingle, hsingle, hmember]
  simp only [List.append_assoc]

end ClassFile

/-- As many methods whose flags and indices are zero as can be counted. -/
def blankMethods : List Method := List.replicate 65535 ⟨0, 0, 0, []⟩

/-- As many empty attributes whose index is zero as can be counted. -/
def blankAttributes : List Attribute := List.replicate 65535 ⟨0, []⟩

private theorem blankMethods_eq : blankMethods = ⟨0, 0, 0, []⟩ :: List.replicate 65534 ⟨0, 0, 0, []⟩ :=
  List.replicate_succ

private theorem blankAttributes_eq : blankAttributes = ⟨0, []⟩ :: List.replicate 65534 ⟨0, []⟩ := List.replicate_succ

/-- A class that is full of methods. -/
def crowdedClass : ClassFile := smallClass [.ofText "m", .ofText "()V"] blankMethods

/-- A class with a method that is full of attributes. -/
def crowdedMethodClass : ClassFile := { returningClass with methods := [⟨0, 1, 2, blankAttributes⟩] }

private theorem representable_of_run {file : ClassFile}
    (h : ((ClassFile.parse file.bytes).run.run #[]).1.toOption = some file) : file.Representable :=
  ClassFile.representable_of_parse ((ClassFile.steady_parse _).returns h)

private theorem representable_emptied : { crowdedClass with methods := [] }.Representable :=
  representable_of_run (by decide +kernel)

private theorem representable_crowdedClass : crowdedClass.Representable := by
  refine { representable_emptied with methods := ⟨?_, ?_⟩ }
  · rw [crowdedClass, smallClass, blankMethods, List.length_replicate]
    omega
  · intro method hmethod
    obtain ⟨-, rfl⟩ := List.mem_replicate.1 hmethod
    exact ⟨by decide, fun _ hentry => by cases hentry⟩

variable {request : PatchRequest} {target result emptied : ClassFile} {reported : PatchedMethod} {patched : Bytes}

/-- A patch gives its class as it is written, even when this is another class with something behind it. -/
private theorem returns_spoiled (hpatched : Returns (Hex.decode request.reading request.patchedHex) patched)
    (htarget : Returns (ClassFile.parse request.target) target)
    (hclass : Returns (patchClass request.mode request.reading target patched) (reported, result))
    (hemptied : emptied.Representable) (hversion : emptied.version.requiresFrames = false)
    (hmethods : ∀ method ∈ emptied.methods, method.attributes = [])
    (hbytes : ∃ rest, rest ≠ [] ∧ result.bytes = emptied.bytes ++ rest) :
    Returns (applyPatch (.unchanged false) request) ⟨result.bytes, reported⟩ ∧
      ∀ file, ¬ClassFile.ParsesTo result.bytes file := by
  obtain ⟨rest, hrest, hbytes⟩ := hbytes
  have hsome : result.bytes ≠ [] := by
    rw [hbytes]
    exact List.append_ne_nil_of_right_ne_nil _ hrest
  have hframes : Returns (FrameRecomputer.unchanged false result.bytes) result.bytes := by
    refine FrameRecomputer.returns_unchanged (fun log => ?_) hversion hmethods
    rw [hbytes]
    exact ClassFile.parse_eq_ok_iff.2 ⟨rest, hemptied.read_bytes rest⟩
  refine ⟨returns_applyPatch hpatched htarget hclass hframes hsome, fun file => ?_⟩
  rw [hbytes]
  exact hemptied.not_parsesTo hrest file

/-- A method is added to a class that is full of them, but what this gives is not a class. -/
theorem applyPatch_crowdedClass :
    Returns (applyPatch (.unchanged false) (directRequest crowdedClass "0400000100020000"))
        ⟨{ crowdedClass with methods := blankMethods ++ [⟨0x400, 1, 2, []⟩] : ClassFile }.bytes, ⟨"m", "()V", false⟩⟩ ∧
      ∀ file, ¬ClassFile.ParsesTo
        { crowdedClass with methods := blankMethods ++ [⟨0x400, 1, 2, []⟩] : ClassFile }.bytes file := by
  have hpatched : Returns (Hex.decode .strict "0400000100020000") [4, 0, 0, 1, 0, 2, 0, 0] :=
    (Hex.steady_decode _ _).returns (by decide +kernel)
  have hpatch : Returns (ParsedMethod.parse crowdedClass.pool .lenient [4, 0, 0, 1, 0, 2, 0, 0])
      ⟨0x400, 1, 2, "m", "()V", []⟩ := ParsedMethod.returns_bare (by decide +kernel)
  have hnew : crowdedClass.findMethod? "m" "()V" = none := by
    refine List.findIdx?_eq_none_iff.2 fun method hblank => ?_
    obtain ⟨-, rfl⟩ := List.mem_replicate.1 hblank
    decide +kernel
  have hclass : Returns (patchClass .direct .strict crowdedClass _) _ := returns_patchDirect hpatch (by decide)
  rw [hnew] at hclass
  refine returns_spoiled hpatched representable_crowdedClass.parsesTo.returns hclass representable_emptied
    (by decide) (by decide) ?_
  refine ClassFile.bytes_of_methods_overfull rfl (congrArg (· ++ _) blankMethods_eq) rfl ?_
  rw [List.length_append, blankMethods, List.length_replicate, List.length_singleton]

private theorem representable_crowdedMethodClass : crowdedMethodClass.Representable := by
  have hsmall := ClassFile.representable_of_parse parse_returningClass
  refine { hsmall with methods := ⟨by decide, fun method hmethod => ?_⟩ }
  obtain rfl := List.mem_singleton.1 hmethod
  refine ⟨?_, fun entry hentry => ?_⟩
  · rw [blankAttributes, List.length_replicate]
    omega
  · obtain ⟨-, rfl⟩ := List.mem_replicate.1 hentry
    exact (by decide : ([] : Bytes).length < 4294967296)

/-- The attribute that is added to that method. -/
def waitingCode : Attribute := ⟨3, Code.bytes ⟨⟨0, 1, [0x00, 0xB1], []⟩, []⟩⟩

/-- No attribute of that method is code, so this is added behind them. -/
private theorem withCode_blankAttributes :
    Member.withCode crowdedMethodClass.pool ⟨0, 1, 2, blankAttributes⟩ waitingCode =
      ⟨0, 1, 2, blankAttributes ++ [waitingCode]⟩ := by
  have hnone : Member.codePosition? crowdedMethodClass.pool ⟨0, 1, 2, blankAttributes⟩ = none := by
    refine List.findIdx?_eq_none_iff.2 fun entry hblank => ?_
    obtain ⟨-, rfl⟩ := List.mem_replicate.1 hblank
    decide +kernel
  rw [Member.withCode, hnone]
  rfl

/-- Code is added to a method that is full of attributes, but what this gives is not a class. -/
theorem applyPatch_crowdedMethodClass :
    Returns (applyPatch (.unchanged false) { editingRequest with target := crowdedMethodClass.bytes })
        ⟨{ crowdedMethodClass with methods := [⟨0, 1, 2, blankAttributes ++ [waitingCode]⟩] : ClassFile }.bytes,
          ⟨"m", "()V", true⟩⟩ ∧
      ∀ file, ¬ClassFile.ParsesTo
        { crowdedMethodClass with
          methods := [⟨0, 1, 2, blankAttributes ++ [waitingCode]⟩] : ClassFile }.bytes file := by
  have hpatched : Returns (Hex.decode .strict waitingHex) (codedMethod [0x00, 0xB1]).bytes :=
    (Hex.steady_decode _ _).returns (by decide +kernel)
  have hbase : Returns (Hex.decode .strict returningHex) (codedMethod [0xB1]).bytes :=
    (Hex.steady_decode _ _).returns (by decide +kernel)
  rcases hrun : ((align crowdedMethodClass.pool (codedMethod [0x00, 0xB1]).bytes (codedMethod [0xB1]).bytes).run #[]).1
    with ⟨outcome, aligned⟩
  have haligned := (steady_align _ _ _).gives hrun
  obtain rfl : (codedMethod [0x00, 0xB1]).bytes = aligned := by
    refine Eq.trans ?_ (congrArg Prod.snd hrun)
    decide +kernel
  obtain ⟨described, hdescribed, hheader⟩ :=
    (ParsedMethod.steady_parse crowdedMethodClass.pool .strict (codedMethod [0xB1]).bytes).exists_returns
      (fun described => (described.name, described.descriptor)) (show _ = some ("m", "()V") by decide +kernel)
  obtain ⟨hname, hdescriptor⟩ := Prod.mk.inj hheader
  obtain ⟨patch, hpatch, hcode⟩ :=
    (ParsedMethod.steady_parse crowdedMethodClass.pool .lenient (codedMethod [0x00, 0xB1]).bytes).exists_returns
      (fun patch => patch.codeAttribute?.map ParsedAttribute.toAttribute)
      (show _ = some (some waitingCode) by decide +kernel)
  obtain ⟨code, hcode, hwritten⟩ := Option.map_eq_some_iff.1 hcode
  have hposition : crowdedMethodClass.findMethod? described.name described.descriptor = some 0 := by
    rw [hname, hdescriptor]
    decide +kernel
  have hclass : Returns (patchClass editingRequest.mode .strict crowdedMethodClass _) _ :=
    returns_patchDifferential hbase haligned hdescribed hpatch hposition rfl hcode
  rw [hname, hdescriptor, hwritten, withCode_blankAttributes] at hclass
  have hemptied : { crowdedMethodClass with methods := [⟨0, 1, 2, []⟩] }.Representable :=
    representable_of_run (by decide +kernel)
  refine returns_spoiled hpatched representable_crowdedMethodClass.parsesTo.returns hclass hemptied
    (by decide) (by decide) ?_
  refine ClassFile.bytes_of_attributes_overfull ⟨0, 1, 2, []⟩ rfl (congrArg (· ++ _) blankAttributes_eq) rfl ?_
  rw [List.length_append, blankAttributes, List.length_replicate, List.length_singleton]

end ClassGraft
