import ClassGraft.Proofs.Frames
import ClassGraft.Proofs.Patch.Edits
import ClassGraft.Proofs.Patch.Identity
import ClassGraft.Proofs.Patch.Neutral
import ClassGraft.Proofs.Patch.Reported
import ClassGraft.Proofs.Signature
import ClassGraft.Proofs.Transfer.Again

/-!
# Applying a patch again

A request that has succeeded can be applied to the class that it gave, and gives this class again
(`applyPatch_again`).  A method that was added is the one that is found then, so it is taken away and added once more,
and code that was put in is replaced by itself; with a reference class, all that the method needs is already in the
pool.  For this no two methods of the target may have the same signature.
-/

namespace ClassGraft

/-- Adding a method in place of itself, where it stands last, changes nothing. -/
theorem MethodChange.apply_add_again (methods : List Method) (removed? : Option Nat) (method : Method) :
    (MethodChange.add (some ((MethodChange.add removed? method).place methods)) method).apply
        ((MethodChange.add removed? method).apply methods) = (MethodChange.add removed? method).apply methods := by
  simp only [apply, place, Option.elim_some, eraseIdx_middle, List.append_nil]

/-- The name and the descriptor in the header of the patched method lead to texts of a pool. -/
def PatchRequest.HeaderResolves (request : PatchRequest) (pool : Pool) : Prop :=
  ∃ patched header rest, Returns (Hex.decode request.reading request.patchedHex) patched ∧
    ParsedMethod.readHeader patched = .ok (header, rest) ∧ pool.LeadsToText header.nameIndex ∧
    pool.LeadsToText header.descriptorIndex

namespace Patched

variable {request : PatchRequest} {target : ClassFile} {reported : PatchedMethod} {pool : Pool} {change : MethodChange}

/-- The header of a method that is added directly resolves when that of the patched method does. -/
theorem resolves_of_direct {removed? : Option Nat} {added : Method}
    (h : Patched request target reported pool (.add removed? added)) (hmode : request.mode = .direct)
    (hheader : request.HeaderResolves target.pool) : added.HeaderResolves pool reported.name := by
  cases h with
  | direct _ hpatched hpatch =>
    obtain ⟨_, hrun⟩ := hpatch.exists_run #[]
    obtain ⟨header, rest, hread, ⟨-, hname, hdescriptor⟩, -⟩ := ParsedMethod.exists_header_of_parse hrun
    obtain ⟨patched', header', rest', hpatched', hread', hnamed, hdescribed⟩ := hheader
    obtain rfl := hpatched.unique hpatched'
    rw [hread] at hread'
    cases hread'
    rw [Member.HeaderResolves, ParsedMethod.toMethod, hname, hdescriptor]
    exact ⟨hnamed, .inr hdescribed⟩
  | reference hreference =>
    rw [hmode] at hreference
    cases hreference

/-- A method that is found where it was added is taken away and added again. -/
theorem again_added {removed? : Option Nat} {added : Method}
    (h : Patched request target reported pool (.add removed? added)) (htarget : target.Representable)
    {result : ClassFile}
    (hresult : result =
      { target with pool := pool, methods := (MethodChange.add removed? added).apply target.methods })
    (hfound : result.findMethod? reported.name reported.descriptor =
      some ((MethodChange.add removed? added).place target.methods)) :
    ∃ patched, Returns (Hex.decode request.reading request.patchedHex) patched ∧
      Returns (patchClass request.mode request.reading result patched)
        ({ reported with replaced := true }, result) := by
  have hsame : { result with
      methods := (MethodChange.add (some ((MethodChange.add removed? added).place target.methods)) added).apply
        result.methods } = result := by
    rw [hresult]
    simp only [MethodChange.apply_add_again]
  cases h with
  | @direct patched patch removed? hmode hpatched hpatch _ hneeded =>
    have hpool : result.pool = target.pool := by rw [hresult]
    rw [← hpool] at hpatch
    have hclass := @returns_patchDirect request.reading result patched patch hpatch hneeded
    dsimp only at hfound
    rw [hfound, hsame] at hclass
    exact ⟨patched, hpatched, hmode ▸ hclass⟩
  | @reference patched file reference patch _ _ _ after _ hmode hpatched hreference hpatch hcopied _ hneeded =>
    have hpool : result.pool = after.target.pool := by rw [hresult]
    -- all that the method needs is in the pool by now
    have hcopied' := TransferM.method_again (ClassFile.representable_of_parse hreference).pool htarget.pool hcopied
    rw [← hpool] at hcopied'
    have hclass := @returns_patchReference request.reading result patched file reference patch added result.pool
      hreference hpatch hneeded hcopied'
    dsimp only at hfound
    rw [hfound, hsame] at hclass
    exact ⟨patched, hpatched, hmode ▸ hclass⟩

/-- A method into which code has been put gets the same code again. -/
theorem again_edited {position : Nat} {edited : Method}
    (h : Patched request target reported pool (.edit position edited)) {result : ClassFile}
    (hresult : result =
      { target with pool := pool, methods := (MethodChange.edit position edited).apply target.methods }) :
    ∃ patched, Returns (Hex.decode request.reading request.patchedHex) patched ∧
      Returns (patchClass request.mode request.reading result patched)
        ({ reported with replaced := true }, result) := by
  rcases h.change_cases with ⟨baseHex, _, _, hmode, -⟩ | ⟨-, _, _, hadded⟩
  · have hfound := h.findMethod?_edited
    obtain ⟨_, _, method, code, -, -, -, hmethod, ⟨hnamed, hreplaced, patched, hpatched, hputs⟩, rfl, hchange⟩ :=
      h.exists_edits hmode
    cases hchange
    have hpool : result.pool = target.pool := by rw [hresult]
    have hplace : result.methods[position]? = some (method.withCode target.pool code) := by
      obtain ⟨hlt, -⟩ := List.getElem?_eq_some_iff.1 hmethod
      rw [hresult]
      exact List.getElem?_set_self hlt
    have hagain := hputs result position _ hpool (hresult ▸ hfound) hplace
    rw [Member.withCode_withCode hnamed] at hagain
    have hsame :
        { result with methods := result.methods.set position (method.withCode target.pool code) } = result := by
      rw [hresult]
      simp only [MethodChange.apply, List.set_set]
    have hreported : { reported with replaced := true } = reported := by
      rw [← hreplaced]
    rw [hsame] at hagain
    exact ⟨patched, hpatched, hreported ▸ hagain⟩
  · cases hadded

/-- What a patch has done to a class it does again to the class that came of it, which stays as it is. -/
theorem again (h : Patched request target reported pool change) (htarget : target.Representable)
    (hsigned : target.Signed)
    (hresolves : ∀ removed? added, change = .add removed? added → added.HeaderResolves pool reported.name) :
    ∃ patched, Returns (Hex.decode request.reading request.patchedHex) patched ∧
      Returns (patchClass request.mode request.reading
          { target with pool := pool, methods := change.apply target.methods } patched)
        ({ reported with replaced := true },
          { target with pool := pool, methods := change.apply target.methods }) := by
  obtain ⟨hpool, -, hextends⟩ := h.pool_extends htarget
  -- at most one method was found before, so that what is found afterwards is the method that was added
  have hone := (hsigned.extends_pool hextends hpool htarget.pool).keyed.countP_isMethod_le
  rcases h.change_cases with ⟨_, position, edited, -, rfl⟩ | ⟨-, removed?, added, rfl⟩
  · exact h.again_edited rfl
  · exact h.again_added htarget rfl ((h.findMethod?_added_iff htarget).2 ⟨hresolves removed? added rfl, hone _ _⟩)

/-- The patched class is parsed from its bytes when there was room for the method that is added, or for the code that
is put into one. -/
theorem parsesTo_of_room (h : Patched request target reported pool change) (htarget : target.Representable)
    (hmethods : reported.replaced = true ∨ target.methods.length < 65535)
    (hattributes : ∀ position method, request.EditsAt target position → target.methods[position]? = some method →
      method.TakesCode target.pool) :
    ClassFile.ParsesTo { target with pool := pool, methods := change.apply target.methods : ClassFile }.bytes
      { target with pool := pool, methods := change.apply target.methods } := by
  rcases h.change_cases with ⟨baseHex, _, _, hmode, -⟩ | ⟨-, removed?, added, rfl⟩
  · obtain ⟨base, position, method, code, hbase, hstands, -, hmethod, -, rfl, rfl⟩ := h.exists_edits hmode
    exact h.parsesTo_of_takesCode htarget hmethod
      (hattributes position method ⟨baseHex, base, hmode, hbase, hstands⟩ hmethod)
  · refine h.parsesTo htarget ?_ (h.attributes_lt htarget)
    have hcount := htarget.methods.1
    have hfound := h.findMethod?_eq
    rw [h.replaced_eq] at hmethods
    cases removed? with
    | none =>
      have hroom := hmethods.resolve_left nofun
      rw [MethodChange.apply, Option.elim_none, List.length_append, List.length_singleton]
      omega
    | some position =>
      have hlt : position < target.methods.length := (List.findIdx?_eq_some_iff_getElem.1 hfound).1
      rw [MethodChange.apply, Option.elim_some, List.length_append, List.length_singleton,
        List.length_eraseIdx_of_lt hlt]
      omega

end Patched

/-- A request that has succeeded for a class in which every method has a signature, and no two have the same, succeeds
again for the class that it gave, which stays as it is, and reports that the method was replaced.  In direct mode the
header of the patched method has to resolve, and there has to be room for a method that is added, and for the code of
one that is edited. -/
theorem applyPatch_again {recompute : FrameRecomputer} {request : PatchRequest} {target : ClassFile}
    {outcome : PatchOutcome} {log : Log} (hrecompute : recompute.GivesBack) (hsteady : recompute.Deterministic)
    (htarget : Returns (ClassFile.parse request.target) target) (hsigned : target.Signed)
    (hheader : request.mode = .direct → request.HeaderResolves target.pool)
    (hmethods : outcome.method.replaced = true ∨ target.methods.length < 65535)
    (hattributes : ∀ position method, request.EditsAt target position → target.methods[position]? = some method →
      method.TakesCode target.pool)
    (h : ((applyPatch recompute request).run.run log).1 = .ok outcome) :
    Returns (applyPatch recompute { request with target := outcome.bytes })
      ⟨outcome.bytes, { outcome.method with replaced := true }⟩ := by
  obtain ⟨parsed, pool, change, log', hparsed, hpatched, hframes⟩ := patched_of_applyPatch h
  obtain rfl := htarget.unique hparsed
  have hfile := ClassFile.representable_of_parse htarget
  have hbytes := hrecompute _ _ _ hframes
  have hgiven := (hsteady _).gives hframes
  have hwritten := hpatched.parsesTo_of_room hfile hmethods hattributes
  have hresolves : ∀ removed? added, change = .add removed? added →
      added.HeaderResolves pool outcome.method.name := by
    rintro removed? added rfl
    rcases hpatched.change_cases with ⟨_, _, _, -, hedit⟩ | ⟨hdirect | ⟨file, hreference⟩, -⟩
    · cases hedit
    · exact hpatched.resolves_of_direct hdirect (hheader hdirect)
    · exact hpatched.resolves_of_reference hfile hreference
  obtain ⟨patched, hhex, hclass⟩ := hpatched.again hfile hsigned hresolves
  rw [hbytes] at hgiven ⊢
  exact returns_applyPatch hhex hwritten.returns hclass hgiven (ClassFile.bytes_ne_nil _)

/-- A method is carried over into a class, which adds constants to it, and is then carried over again. -/
theorem applyPatch_again_blankClass :
    (FrameRecomputer.unchanged false).GivesBack ∧ (FrameRecomputer.unchanged false).Deterministic ∧
      Returns (ClassFile.parse blankRequest.target) blankClass ∧ blankClass.Signed ∧ blankRequest.mode ≠ .direct ∧
      blankClass.methods.length < 65535 ∧
      ((applyPatch (.unchanged false) blankRequest).run.run #[]).1 = .ok ⟨filledClass.bytes, ⟨"m", "()V", false⟩⟩ ∧
      Returns (applyPatch (.unchanged false) { blankRequest with target := filledClass.bytes })
        ⟨filledClass.bytes, ⟨"m", "()V", true⟩⟩ := by
  have hrecompute := FrameRecomputer.givesBack_unchanged false
  have hsteady := FrameRecomputer.deterministic_unchanged false
  obtain ⟨htarget, hrun, -⟩ := patchesTo_blankClass
  have hsigned : blankClass.Signed := ⟨by decide, by decide⟩
  have hagain := applyPatch_again hrecompute hsteady htarget hsigned nofun (.inr (by decide)) (fun _ _ _ => nofun) hrun
  exact ⟨hrecompute, hsteady, htarget, hsigned, nofun, by decide, hrun, hagain⟩

end ClassGraft
