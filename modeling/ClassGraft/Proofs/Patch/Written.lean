import ClassGraft.Proofs.Patch.Stages
import ClassGraft.Proofs.Transfer.Sizes

/-!
# Patched classes are written and read back

A patch leaves a pool that extends that of the target and can be written (`Patched.pool_extends`), and a method whose
attributes fit into their length fields (`Patched.fits`).  So the patched class is parsed from its bytes, with nothing
left over, as long as its methods and the attributes of the method that was put in can still be counted in two bytes
(`Patched.parsesTo`).  The latter can only fail for a method that is edited (`Patched.attributes_lt`).
-/

namespace ClassGraft

open TransferM Transfer

theorem ParsedMethod.attributes_of_parse {pool : Pool} {strictness : Strictness} {bytes : Bytes} {method : ParsedMethod}
    (h : Returns (parse pool strictness bytes) method) :
    method.attributes.length < 65536 ∧ ∀ parsed ∈ method.attributes, parsed.Encodable pool := by
  obtain ⟨log', hrun⟩ := h.exists_run #[]
  exact (parse_encodable hrun).2.2

/-- What a method that is carried over into another pool, and this pool, are like. -/
structure CopiedInto (source target : Pool) (parsed : ParsedMethod) (method : Method) (after : Transfer) : Prop where
  valid : after.Valid source
  carried : MethodCarried source after parsed method
  extends_target : after.target.pool.Extends target
  storable : after.target.pool.Storable

private theorem copiedInto_of_run {source target : Pool} (hsource : source.WellFormed) (hstored : source.Storable)
    (htarget : target.WellFormed) (hwritten : target.Storable) {parsed : ParsedMethod} {method : Method}
    {after : Transfer} {log log' : Log}
    (h : runOn (TransferM.method source parsed) (.into target) log = ((.ok method, after), log')) :
    CopiedInto source target parsed method after := by
  have hinto := valid_into hsource htarget
  obtain ⟨hsteps, hcarried⟩ := ensures_method hinto parsed log _ _ _ h
  exact ⟨Steps.valid hsteps hinto, hcarried method rfl, Steps.pool_extends hsteps hinto,
    Steps.storable hsteps hsource hstored hwritten⟩

namespace Patched

variable {request : PatchRequest} {target : ClassFile} {reported : PatchedMethod} {pool : Pool} {change : MethodChange}

theorem copiedInto {file : Bytes} {reference : ClassFile} (hreference : Returns (ClassFile.parse file) reference)
    (htarget : target.Representable) {patch : ParsedMethod} {method : Method} {after : Transfer} {log log' : Log}
    (h : runOn (TransferM.method reference.pool patch) (.into target.pool) log = ((.ok method, after), log')) :
    CopiedInto reference.pool target.pool patch method after :=
  have hfile := ClassFile.representable_of_parse hreference
  copiedInto_of_run hfile.pool hfile.storable htarget.pool htarget.storable h

/-- The pool of a patched class can be written, and begins with the entries of the target. -/
theorem pool_extends (h : Patched request target reported pool change) (htarget : target.Representable) :
    pool.WellFormed ∧ pool.Storable ∧ pool.Extends target.pool := by
  cases h with
  | direct => exact ⟨htarget.pool, htarget.storable, .refl _⟩
  | reference _ _ hreference _ hcopied _ =>
    have hafter := copiedInto hreference htarget hcopied
    exact ⟨hafter.valid.sound.pool, hafter.storable, hafter.extends_target⟩
  | differential => exact ⟨htarget.pool, htarget.storable, .refl _⟩

/-- The indices of the target lead to the same entries in the patched class. -/
theorem get (h : Patched request target reported pool change) (htarget : target.Representable) {index : Index}
    {constant : Constant} (hget : target.pool.get index = .ok constant) : pool.get index = .ok constant := by
  obtain ⟨hpool, -, hextends⟩ := h.pool_extends htarget
  exact hextends.get hpool htarget.pool hget

/-- The lengths of the attributes of the method that is put in fit into their fields. -/
theorem fits (h : Patched request target reported pool change) (htarget : target.Representable) :
    ∀ entry ∈ change.method.attributes, entry.Fits := by
  cases h with
  | direct _ _ hpatch _ =>
    obtain ⟨hcount, hattributes⟩ := ParsedMethod.attributes_of_parse hpatch
    exact (ParsedAttribute.allFit_of_encodable hcount hattributes).2
  | reference _ _ hreference hpatch hcopied _ =>
    obtain ⟨hcount, hattributes⟩ := ParsedMethod.attributes_of_parse hpatch
    exact ((copiedInto hreference htarget hcopied).carried.allFit hcount hattributes).2
  | @differential _ _ _ _ _ _ _ _ method code _ _ _ _ _ hpatch _ hmethod hcode =>
    obtain ⟨-, hattributes⟩ := ParsedMethod.attributes_of_parse hpatch
    have hold : ∀ entry ∈ method.attributes, entry.Fits :=
      (htarget.methods.2 method (List.mem_of_getElem? hmethod)).2
    have hnew : code.toAttribute.Fits := (hattributes code (List.mem_of_find?_eq_some hcode)).fits
    intro entry hentry
    rcases Member.mem_withCode hentry with hmem | rfl
    · exact hold entry hmem
    · exact hnew

/-- A method that is added has attributes that can be counted. -/
theorem attributes_lt {removed? : Option Nat} {added : Method}
    (h : Patched request target reported pool (.add removed? added)) (htarget : target.Representable) :
    added.attributes.length < 65536 := by
  cases h with
  | direct _ _ hpatch _ =>
    obtain ⟨hcount, -⟩ := ParsedMethod.attributes_of_parse hpatch
    simpa [ParsedMethod.toMethod] using hcount
  | reference _ _ hreference hpatch hcopied _ =>
    obtain ⟨hcount, hattributes⟩ := ParsedMethod.attributes_of_parse hpatch
    exact ((copiedInto hreference htarget hcopied).carried.allFit hcount hattributes).1

/-- A patched class whose methods, and the attributes of the one put in, can be counted is parsed from its bytes. -/
theorem parsesTo (h : Patched request target reported pool change) (htarget : target.Representable)
    (hmethods : (change.apply target.methods).length < 65536) (hattributes : change.method.attributes.length < 65536) :
    ClassFile.ParsesTo { target with pool := pool, methods := change.apply target.methods : ClassFile }.bytes
      { target with pool := pool, methods := change.apply target.methods } := by
  obtain ⟨hpool, hstorable, -⟩ := h.pool_extends htarget
  refine ClassFile.Representable.parsesTo ⟨hpool, hstorable, htarget.interfaces, htarget.fields, ⟨hmethods, ?_⟩,
    htarget.attributes⟩
  intro method hmethod
  rcases MethodChange.mem_apply hmethod with hold | rfl
  · exact htarget.methods.2 method hold
  · exact ⟨hattributes, h.fits htarget⟩

end Patched

end ClassGraft
