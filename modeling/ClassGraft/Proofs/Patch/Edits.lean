import ClassGraft.Proofs.Method.Stored
import ClassGraft.Proofs.Patch.Frame
import ClassGraft.Proofs.Patch.Succeeding

/-!
# Differential patches on other classes

All that a differential patch reads of its target, apart from the method that it edits, is the pool.  So a request that
has succeeded brings the same code to the same method in every class with this pool in which the method is found
(`Edits`, `Patched.exists_edits`).  The class that it gives can be written when the method had code already or could be
given one more attribute (`Member.takesCode_iff`).
-/

namespace ClassGraft

/-- A method whose attributes can be counted once it is given code: it has code that is replaced, or room for it. -/
def Member.TakesCode (pool : Pool) (method : Method) : Prop :=
  method.HasCode pool ∨ method.attributes.length < 65535

/-- This is what keeps the attributes from being too many. -/
theorem Member.takesCode_iff {pool : Pool} {method : Method} (h : method.attributes.length ≤ 65535) (code : Attribute) :
    method.TakesCode pool ↔ (method.withCode pool code).attributes.length ≤ 65535 := by
  have hcode : method.HasCode pool ↔ method.codePosition? pool ≠ none := by
    rw [HasCode, codePosition?, Ne, List.findIdx?_eq_none_iff]
    simp [Attribute.isNamed_iff.symm]
  rw [TakesCode, hcode, withCode]
  cases method.codePosition? pool with
  | none =>
    rw [Option.elim_none, List.length_append, List.length_singleton]
    simp only [ne_eq, not_true_eq_false, false_or]
    omega
  | some position => simpa using h

/-- A class is parsed from its bytes after a patch that has put code into a method that takes it. -/
theorem Patched.parsesTo_of_takesCode {request : PatchRequest} {target : ClassFile} {reported : PatchedMethod}
    {pool : Pool} {position : Nat} {method : Method} {code : Attribute}
    (h : Patched request target reported pool (.edit position (method.withCode target.pool code)))
    (htarget : target.Representable) (hmethod : target.methods[position]? = some method)
    (htakes : method.TakesCode target.pool) :
    ClassFile.ParsesTo
      { target with
        pool := pool
        methods := target.methods.set position (method.withCode target.pool code) : ClassFile }.bytes
      { target with pool := pool, methods := target.methods.set position (method.withCode target.pool code) } := by
  have hold : method.attributes.length ≤ 65535 :=
    Nat.le_of_lt_succ (htarget.methods.2 method (List.mem_of_getElem? hmethod)).1
  refine h.parsesTo htarget ?_ (Nat.lt_succ_of_le ((Member.takesCode_iff hold code).1 htakes))
  rw [MethodChange.apply, List.length_set]
  exact htarget.methods.1

/-- A differential request whose base stands for the method at this position of a class. -/
def PatchRequest.EditsAt (request : PatchRequest) (file : ClassFile) (position : Nat) : Prop :=
  ∃ baseHex base, request.mode = .differential baseHex ∧ Returns (Hex.decode request.reading baseHex) base ∧
    file.StandsFor base position

/-- What a differential request does to every class with a certain pool in which it finds the method that it reports:
it gives this method certain code. -/
structure Edits (request : PatchRequest) (pool : Pool) (reported : PatchedMethod) (code : Attribute) : Prop where
  named : code.isNamed pool codeName = true
  replaced : reported.replaced = true
  puts : ∃ patched, Returns (Hex.decode request.reading request.patchedHex) patched ∧
    ∀ (file : ClassFile) (position : Nat) (method : Method), file.pool = pool →
      file.findMethod? reported.name reported.descriptor = some position → file.methods[position]? = some method →
      Returns (patchClass request.mode request.reading file patched)
        (reported, { file with methods := file.methods.set position (method.withCode pool code) })

/-- A differential request that has succeeded edits the method that its base stands for, and would edit it in other
classes with this pool. -/
theorem Patched.exists_edits {request : PatchRequest} {target : ClassFile} {reported : PatchedMethod} {pool : Pool}
    {change : MethodChange} (h : Patched request target reported pool change) {baseHex : String}
    (hmode : request.mode = .differential baseHex) :
    ∃ base position method code, Returns (Hex.decode request.reading baseHex) base ∧ target.StandsFor base position ∧
      target.findMethod? reported.name reported.descriptor = some position ∧
      target.methods[position]? = some method ∧ Edits request target.pool reported code ∧
      pool = target.pool ∧ change = .edit position (method.withCode target.pool code) := by
  cases h with
  | direct hdirect =>
    rw [hmode] at hdirect
    cases hdirect
  | reference hreference =>
    rw [hmode] at hreference
    cases hreference
  | @differential _ patched base _ _ described patch position method code hdifferential hpatched hbase haligned
      hdescribed hpatch hposition hmethod hcode =>
    have hsame := hdifferential
    rw [hmode] at hsame
    cases hsame
    obtain ⟨-, hencodable⟩ := ParsedMethod.attributes_of_parse hpatch
    refine ⟨base, position, method, code.toAttribute, hbase, ClassFile.standsFor_of_parse hdescribed hposition,
      hposition, hmethod, ⟨?_, rfl, patched, hpatched, ?_⟩, rfl, rfl⟩
    · rw [(hencodable code (List.mem_of_find?_eq_some hcode)).isNamed_eq]
      exact List.find?_some hcode
    · intro file position' method' hpool hposition' hmethod'
      rw [← hpool] at haligned hdescribed hpatch ⊢
      rw [hmode]
      exact returns_patchDifferential hbase haligned hdescribed hpatch hposition' hmethod' hcode

end ClassGraft
