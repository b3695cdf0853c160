import ClassGraft.Proofs.Frames
import ClassGraft.Proofs.Patch.Edits
import ClassGraft.Proofs.Patch.Neutral

/-!
# Independent patches

Two differential patches of different methods of a class commute: either can be applied to what the other gives, and
both orders give the same bytes (`applyPatch_commutes`).  An edit leaves the pool and the headers of all methods as they
are, so the other request finds its method where it was and decodes as before.  What is asked of the recomputer is that
it gives classes back and accepts one whose methods it has all seen in classes that it accepts
(`FrameRecomputer.JudgesMethods`), as the one that leaves frames alone does.
-/

namespace ClassGraft

namespace FrameRecomputer

/-- A recomputer that gives back the classes that it accepts, whatever has been noted before, and accepts a class when
each of its methods is in one of two others that it accepts and that are equal to it but for their methods. -/
structure JudgesMethods (recompute : FrameRecomputer) : Prop where
  givesBack : recompute.GivesBack
  deterministic : recompute.Deterministic
  accepts : ∀ a b c : ClassFile, a.Representable → b.Representable → c.Representable →
    c = { a with methods := c.methods } → c = { b with methods := c.methods } →
    (∀ method ∈ c.methods, method ∈ a.methods ∨ method ∈ b.methods) →
    Returns (recompute a.bytes) a.bytes → Returns (recompute b.bytes) b.bytes → Returns (recompute c.bytes) c.bytes

/-- A class that has once been let through is given back. -/
theorem JudgesMethods.returns_of_run {recompute : FrameRecomputer} (h : recompute.JudgesMethods) {bytes frames : Bytes}
    {log : Log} (hrun : ((recompute bytes).run.run log).1 = .ok frames) :
    frames = bytes ∧ Returns (recompute bytes) bytes := by
  obtain rfl := h.givesBack _ _ _ hrun
  exact ⟨rfl, (h.deterministic _).gives hrun⟩

/-- A recomputer that gives back every class does. -/
theorem judgesMethods_of_identity {recompute : FrameRecomputer} (h : ∀ bytes, Returns (recompute bytes) bytes) :
    recompute.JudgesMethods where
  givesBack bytes log frames hrun := by
    rw [h bytes log] at hrun
    cases hrun
    rfl
  deterministic bytes log log' := (h bytes log).trans (h bytes log').symm
  accepts _ _ c _ _ _ _ _ _ _ _ := h c.bytes

/-- Leaving the frames alone does, as it looks at the version and at one method after the other. -/
theorem judgesMethods_unchanged (allowStale : Bool) : (unchanged allowStale).JudgesMethods where
  givesBack := givesBack_unchanged allowStale
  deterministic := deterministic_unchanged allowStale
  accepts a b c ha hb hc hca hcb hmethods hreturns hreturns' := by
    obtain ⟨hversion, hchecked⟩ := (returns_unchanged_iff ha.parsesTo.returns).1 hreturns
    obtain ⟨-, hchecked'⟩ := (returns_unchanged_iff hb.parsesTo.returns).1 hreturns'
    have hpool : c.pool = a.pool := by rw [hca]
    have hpool' : c.pool = b.pool := by rw [hcb]
    refine (returns_unchanged_iff hc.parsesTo.returns).2 ⟨?_, fun method hmethod => ?_⟩
    · rw [hca]
      exact hversion
    · rcases hmethods method hmethod with hold | hold
      · rw [hpool]
        exact hchecked method hold
      · rw [hpool']
        exact hchecked' method hold

end FrameRecomputer

/-- A class with code put into one of its methods. -/
def ClassFile.withCodeAt (file : ClassFile) (position : Nat) (method : Method) (code : Attribute) : ClassFile :=
  { file with methods := file.methods.set position (method.withCode file.pool code) }

variable {recompute : FrameRecomputer} {request first second : PatchRequest} {file : ClassFile}
  {position position' : Nat} {outcome outcome' : PatchOutcome} {log log' : Log}

/-- A differential request that succeeds gives code to the method that its base stands for. -/
theorem edits_of_applyPatch (hrecompute : recompute.JudgesMethods)
    (htarget : Returns (ClassFile.parse request.target) file) (hedits : request.EditsAt file position)
    (h : ((applyPatch recompute request).run.run log).1 = .ok outcome) :
    ∃ method code, file.findMethod? outcome.method.name outcome.method.descriptor = some position ∧
      file.methods[position]? = some method ∧ Edits request file.pool outcome.method code ∧
      outcome.bytes = (file.withCodeAt position method code).bytes ∧
      Returns (recompute outcome.bytes) outcome.bytes ∧
      (method.TakesCode file.pool → (file.withCodeAt position method code).Representable) := by
  obtain ⟨baseHex, base, hmode, hbase, hstands⟩ := hedits
  obtain ⟨target, pool, change, log', hparsed, hpatched, hframes⟩ := patched_of_applyPatch h
  obtain rfl : file = target := htarget.unique hparsed
  have hfile := ClassFile.representable_of_parse htarget
  obtain ⟨base', found, method, code, hbase', hstands', hfound, hmethod, hedits, rfl, rfl⟩ :=
    hpatched.exists_edits hmode
  obtain rfl : base = base' := hbase.unique hbase'
  obtain rfl : position = found := hstands.unique hstands'
  obtain ⟨hbytes, haccepted⟩ := hrecompute.returns_of_run hframes
  refine ⟨method, code, hfound, hmethod, hedits, hbytes, hbytes ▸ haccepted, fun htakes => ?_⟩
  exact ClassFile.representable_of_parse (hpatched.parsesTo_of_takesCode hfile hmethod htakes).returns

/-- Giving code to another method leaves a request to edit what it edited. -/
theorem Edits.returns_withCodeAt {reported : PatchedMethod} {code code' : Attribute}
    (h : Edits request file.pool reported code) {method other : Method} (hne : position ≠ position')
    (hfound : file.findMethod? reported.name reported.descriptor = some position)
    (hmethod : file.methods[position]? = some method) (hother : file.methods[position']? = some other)
    {edited : ClassFile} (hedited : edited = file.withCodeAt position' other code') :
    ∃ patched, Returns (Hex.decode request.reading request.patchedHex) patched ∧
      Returns (patchClass request.mode request.reading edited patched)
        (reported, edited.withCodeAt position method code) := by
  subst hedited
  obtain ⟨patched, hpatched, hclass⟩ := h.puts
  refine ⟨patched, hpatched, hclass _ position method rfl ?_ ?_⟩
  · rw [← hfound]
    exact @ClassFile.findMethod?_set file position' other (other.withCode file.pool code') hother rfl rfl _ _
  · change (file.methods.set position' _)[position]? = _
    rw [List.getElem?_set_ne hne.symm, hmethod]

namespace ClassFile

variable {method method' : Method} {code code' : Attribute}

/-- Code is put into two different methods in either order. -/
theorem withCodeAt_comm (hne : position ≠ position') :
    (file.withCodeAt position method code).withCodeAt position' method' code' =
      (file.withCodeAt position' method' code').withCodeAt position method code := by
  simp only [withCodeAt, mk.injEq, true_and, and_true]
  exact List.set_comm _ _ hne

/-- Every method of a class into which code has been put twice is in one of the classes into which it was put once. -/
theorem mem_withCodeAt_withCodeAt (hmethod' : file.methods[position']? = some method') {one : Method}
    (hone : one ∈ ((file.withCodeAt position method code).withCodeAt position' method' code').methods) :
    one ∈ (file.withCodeAt position method code).methods ∨ one ∈ (file.withCodeAt position' method' code').methods := by
  rcases List.mem_or_eq_of_mem_set hone with hold | rfl
  · exact .inl hold
  · obtain ⟨hlt, -⟩ := List.getElem?_eq_some_iff.1 hmethod'
    have hself : (file.withCodeAt position' method' code').methods[position']? =
        some (method'.withCode file.pool code') := List.getElem?_set_self hlt
    exact .inr (List.mem_of_getElem? hself)

/-- So it can be written when they can. -/
theorem representable_withCodeAt_withCodeAt (hmethod' : file.methods[position']? = some method')
    (h : (file.withCodeAt position method code).Representable)
    (h' : (file.withCodeAt position' method' code').Representable) :
    ((file.withCodeAt position method code).withCodeAt position' method' code').Representable := by
  refine { h with methods := ⟨?_, fun one hone => ?_⟩ }
  · simpa [withCodeAt] using h.methods.1
  · rcases mem_withCodeAt_withCodeAt hmethod' hone with hfirst | hsecond
    · exact h.methods.2 one hfirst
    · exact h'.methods.2 one hsecond

end ClassFile

/-- Two differential patches that succeed on a class and are about different methods of it, of which each has code or
room for one more attribute, can both be applied one after the other, and give the same bytes in either order. -/
theorem applyPatch_commutes (hrecompute : recompute.JudgesMethods) (hsame : second.target = first.target)
    (htarget : Returns (ClassFile.parse first.target) file) (hfirst : first.EditsAt file position)
    (hsecond : second.EditsAt file position') (hne : position ≠ position')
    (hroom : ∀ method, file.methods[position]? = some method ∨ file.methods[position']? = some method →
      method.TakesCode file.pool)
    (h : ((applyPatch recompute first).run.run log).1 = .ok outcome)
    (h' : ((applyPatch recompute second).run.run log').1 = .ok outcome') :
    ∃ bytes,
      Returns (applyPatch recompute { second with target := outcome.bytes }) ⟨bytes, outcome'.method⟩ ∧
      Returns (applyPatch recompute { first with target := outcome'.bytes }) ⟨bytes, outcome.method⟩ := by
  obtain ⟨method, code, hfound, hmethod, hedits, hbytes, haccepted, hwritten⟩ :=
    edits_of_applyPatch hrecompute htarget hfirst h
  obtain ⟨method', code', hfound', hmethod', hedits', hbytes', haccepted', hwritten'⟩ :=
    edits_of_applyPatch hrecompute (hsame ▸ htarget) hsecond h'
  have hone := hwritten (hroom method (.inl hmethod))
  have htwo := hwritten' (hroom method' (.inr hmethod'))
  rw [hbytes] at haccepted ⊢
  rw [hbytes'] at haccepted' ⊢
  -- The recomputer has seen every method of the class with both edits.
  have hframes : Returns (recompute ((file.withCodeAt position method code).withCodeAt position' method' code').bytes)
      ((file.withCodeAt position method code).withCodeAt position' method' code').bytes :=
    hrecompute.accepts _ _ _ hone htwo (ClassFile.representable_withCodeAt_withCodeAt hmethod' hone htwo) rfl rfl
      (fun _ hmem => ClassFile.mem_withCodeAt_withCodeAt hmethod' hmem) haccepted haccepted'
  obtain ⟨patched', hpatched', hclass'⟩ := hedits'.returns_withCodeAt hne.symm hfound' hmethod' hmethod rfl
  obtain ⟨patched, hpatched, hclass⟩ := hedits.returns_withCodeAt hne hfound hmethod hmethod' rfl
  rw [← ClassFile.withCodeAt_comm hne] at hclass
  exact ⟨_, returns_applyPatch hpatched' hone.parsesTo.returns hclass' hframes (ClassFile.bytes_ne_nil _),
    returns_applyPatch hpatched htwo.parsesTo.returns hclass hframes (ClassFile.bytes_ne_nil _)⟩

/-- A class with two methods that return at once. -/
def pairClass : ClassFile :=
  smallClass [.ofText "m", .ofText "()V", .ofText codeName, .ofText "n"]
    [codedMethod [0xB1], { codedMethod [0xB1] with nameIndex := 4 }]

/-- The request to edit the first method. -/
def pairRequest : PatchRequest := { editingRequest with target := pairClass.bytes }

/-- The request to edit the second method. -/
def pairRequest' : PatchRequest where
  target := pairClass.bytes
  patchedHex := "000100040002000100030000000e000000010000000200b100000000"
  mode := .differential "000100040002000100030000000d0000000100000001b100000000"
  reading := .strict

/-- Either request finds its method. -/
private theorem editsAt_pairClass : pairRequest.EditsAt pairClass 0 ∧ pairRequest'.EditsAt pairClass 1 := by
  have hname : pairClass.pool.text 1 = .ok "m" := eq_ok_of_toOption (by decide +kernel)
  have hname' : pairClass.pool.text 4 = .ok "n" := eq_ok_of_toOption (by decide +kernel)
  have hdescriptor : pairClass.pool.text 2 = .ok "()V" := eq_ok_of_toOption (by decide +kernel)
  constructor
  · exact ⟨_, _, rfl, decode_returningHex, _, _, "m", "()V", rfl, hname, hdescriptor, by decide +kernel⟩
  · exact ⟨_, Member.bytes { codedMethod [0xB1] with nameIndex := 4 }, rfl, (Hex.steady_decode _ _).returns rfl, _, _,
      "n", "()V", rfl, hname', hdescriptor, by decide +kernel⟩

/-- An instruction is inserted into both methods of a class, in either order. -/
theorem applyPatch_commutes_pairClass :
    (FrameRecomputer.unchanged false).JudgesMethods ∧ Returns (ClassFile.parse pairRequest.target) pairClass ∧
      pairRequest.EditsAt pairClass 0 ∧ pairRequest'.EditsAt pairClass 1 ∧
      ∃ first second bytes,
        Returns (applyPatch (.unchanged false) { pairRequest' with target := first }) ⟨bytes, ⟨"n", "()V", true⟩⟩ ∧
        Returns (applyPatch (.unchanged false) { pairRequest with target := second }) ⟨bytes, ⟨"m", "()V", true⟩⟩ := by
  have hrecompute := FrameRecomputer.judgesMethods_unchanged false
  have htarget : Returns (ClassFile.parse pairRequest.target) pairClass :=
    (ClassFile.steady_parse _).returns (by decide +kernel)
  have hcode : pairClass.pool.text 3 = .ok codeName := eq_ok_of_toOption (by decide +kernel)
  have hroom : ∀ method : Method, pairClass.methods[0]? = some method ∨ pairClass.methods[1]? = some method →
      method.TakesCode pairClass.pool := by
    rintro _ (⟨⟨⟩⟩ | ⟨⟨⟩⟩) <;> exact .inl ⟨_, List.mem_singleton_self _, hcode⟩
  have hfirst : ((applyPatch (.unchanged false) pairRequest).run.run #[]).1 =
      .ok ⟨({ pairClass with
        methods := pairClass.methods.set 0 (codedMethod [0x00, 0xB1]) } : ClassFile).bytes, ⟨"m", "()V", true⟩⟩ :=
    eq_ok_of_toOption (by decide +kernel)
  have hsecond : ((applyPatch (.unchanged false) pairRequest').run.run #[]).1 =
      .ok ⟨({ pairClass with
        methods := pairClass.methods.set 1 { codedMethod [0x00, 0xB1] with nameIndex := 4 } } : ClassFile).bytes,
          ⟨"n", "()V", true⟩⟩ :=
    eq_ok_of_toOption (by decide +kernel)
  have hsame : pairRequest'.target = pairRequest.target := rfl
  obtain ⟨bytes, hthen, hthen'⟩ := applyPatch_commutes hrecompute hsame htarget editsAt_pairClass.1
    editsAt_pairClass.2 (by decide) hroom hfirst hsecond
  exact ⟨hrecompute, htarget, editsAt_pairClass.1, editsAt_pairClass.2, _, _, bytes, hthen, hthen'⟩

end ClassGraft
