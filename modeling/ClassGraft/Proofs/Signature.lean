import ClassGraft.Proofs.MethodTable
import Mathlib.Data.List.Nodup

/-!
# Signatures of methods

What tells the methods of a class apart is their name and descriptor, or the name alone for a class initializer.  In a
class where no two methods have the same signature, and those without one have no name either, finding a method comes
down to looking up its signature (`ClassFile.Keyed.findMethod?_eq`), and what is taken away with the first method found
is every method of that signature (`ClassFile.Keyed.removed_eq`).
-/

namespace ClassGraft

/-- A name and, except for the class initializer, a descriptor. -/
structure Signature where
  name : String
  descriptor : Option String
deriving DecidableEq, Repr

/-- The signature of a method with a name and a descriptor. -/
def Signature.of (name descriptor : String) : Signature where
  name := name
  descriptor := if name = "<clinit>" then none else some descriptor

theorem Signature.of_eq_of_iff {name descriptor name' descriptor' : String} :
    of name descriptor = of name' descriptor' ↔ name = name' ∧ (name = "<clinit>" ∨ descriptor = descriptor') := by
  rw [of, of, mk.injEq]
  refine and_congr_right fun hname => ?_
  subst hname
  by_cases hclinit : name = "<clinit>" <;> simp [hclinit]

/-- The signature of a method whose name and descriptor lead to texts. -/
def Member.signature? (pool : Pool) (method : Method) : Option Signature :=
  match pool.text method.nameIndex, pool.text method.descriptorIndex with
  | .ok name, .ok descriptor => some (.of name descriptor)
  | _, _ => none

theorem Member.signature?_eq_some_iff {pool : Pool} {method : Method} {signature : Signature} :
    method.signature? pool = some signature ↔ ∃ name descriptor, pool.text method.nameIndex = .ok name ∧
      pool.text method.descriptorIndex = .ok descriptor ∧ Signature.of name descriptor = signature := by
  unfold signature?
  cases pool.text method.nameIndex <;> cases pool.text method.descriptorIndex <;> simp

/-- A method that has a name has a descriptor as well. -/
def Member.WhollyNamed (pool : Pool) (method : Method) : Prop :=
  method.signature? pool = none → ∀ name, pool.text method.nameIndex ≠ .ok name

/-- A method with both texts, or without a name, is found under a name and descriptor when they make its signature. -/
theorem Member.WhollyNamed.isMethod_iff {pool : Pool} {method : Method} (h : method.WhollyNamed pool)
    {name descriptor : String} :
    method.isMethod pool name descriptor = true ↔ method.signature? pool = some (.of name descriptor) := by
  rw [Member.isMethod_iff, Member.signature?_eq_some_iff]
  constructor
  · rintro ⟨hname, hdescriptor⟩
    cases hfound : pool.text method.descriptorIndex with
    | ok found =>
      refine ⟨name, found, hname, rfl, Signature.of_eq_of_iff.2 ⟨rfl, hdescriptor.imp_right fun hsame => ?_⟩⟩
      rw [hfound] at hsame
      cases hsame
      rfl
    | error error =>
      have hnone : method.signature? pool = none := by
        rw [Member.signature?, hname, hfound]
      exact absurd hname (h hnone name)
  · rintro ⟨name', descriptor', hname, hdescriptor, hsame⟩
    obtain ⟨rfl, hmatch⟩ := Signature.of_eq_of_iff.1 hsame
    refine ⟨hname, hmatch.imp_right fun heq => ?_⟩
    rw [hdescriptor, heq]

namespace ClassFile

/-- Whether a method of the class has a signature. -/
def hasSignature (file : ClassFile) (signature : Signature) (method : Method) : Bool :=
  method.signature? file.pool = some signature

/-- No two methods have the same signature, and those without one have no name. -/
structure Keyed (file : ClassFile) : Prop where
  distinct : (file.methods.filterMap (Member.signature? file.pool)).Nodup
  named : ∀ method ∈ file.methods, method.WhollyNamed file.pool

/-- The method with a signature. -/
def lookup? (file : ClassFile) (signature : Signature) : Option Method :=
  file.methods.find? (file.hasSignature signature)

namespace Keyed

variable {file : ClassFile}

theorem isMethod_eq (h : file.Keyed) {method : Method} (hmethod : method ∈ file.methods) (name descriptor : String) :
    method.isMethod file.pool name descriptor = file.hasSignature (.of name descriptor) method := by
  rw [Bool.eq_iff_iff, (h.named method hmethod).isMethod_iff, hasSignature, decide_eq_true_eq]

theorem findMethod?_eq (h : file.Keyed) (name descriptor : String) :
    file.findMethod? name descriptor = file.methods.findIdx? (file.hasSignature (.of name descriptor)) :=
  findIdx?_congr fun _ hmethod => h.isMethod_eq hmethod name descriptor

/-- At most one method is found under a name and descriptor. -/
theorem countP_isMethod_le (h : file.Keyed) (name descriptor : String) :
    file.methods.countP (Member.isMethod file.pool name descriptor) ≤ 1 := by
  have hcount : file.methods.countP (Member.isMethod file.pool name descriptor) =
      (file.methods.filterMap (Member.signature? file.pool)).count (.of name descriptor) := by
    rw [List.count_filterMap]
    refine List.countP_congr fun method hmethod => ?_
    rw [h.isMethod_eq hmethod, hasSignature]
    simp
  rw [hcount]
  exact List.nodup_iff_count_le_one.1 h.distinct _

/-- A method is found where the one with the signature is. -/
theorem map_findMethod? (h : file.Keyed) (name descriptor : String) :
    (file.findMethod? name descriptor).map (file.methods[·]?) = (file.lookup? (.of name descriptor)).map some := by
  rw [h.findMethod?_eq, lookup?]
  cases hfound : file.methods.findIdx? (file.hasSignature (.of name descriptor)) with
  | none =>
    have hnone : file.methods.find? (file.hasSignature (.of name descriptor)) = none := by
      simpa using hfound
    rw [hnone]
    rfl
  | some position =>
    obtain ⟨before, method, after, hmethods, rfl, hmethod, hbefore⟩ := findIdx?_eq_some_iff_append.1 hfound
    have hfirst : file.methods.find? (file.hasSignature (.of name descriptor)) = some method := by
      rw [hmethods]
      exact List.find?_eq_some_iff_append.2 ⟨hmethod, before, after, rfl, by simpa using hbefore⟩
    rw [hfirst, Option.map_some, hmethods]
    simp

/-- Only one method has a given signature. -/
theorem not_hasSignature (h : file.Keyed) {before after : List Method} {method : Method}
    (hmethods : file.methods = before ++ method :: after) {signature : Signature}
    (hmethod : file.hasSignature signature method = true) :
    ∀ other ∈ before ++ after, file.hasSignature signature other = false := by
  have hdistinct := h.distinct
  have hsignature : method.signature? file.pool = some signature := by simpa [hasSignature] using hmethod
  rw [hmethods, List.filterMap_append, List.filterMap_cons_some hsignature, List.nodup_middle, List.nodup_cons,
    ← List.filterMap_append] at hdistinct
  intro other hother
  rw [hasSignature, decide_eq_false_iff_not]
  exact fun heq => hdistinct.1 (List.mem_filterMap.2 ⟨other, hother, heq⟩)

/-- Taking away the first method that is found takes away the methods with its signature, and no others. -/
theorem removed_eq (h : file.Keyed) (name descriptor : String) :
    (file.findMethod? name descriptor).elim file.methods file.methods.eraseIdx =
      file.methods.filter fun method => !file.hasSignature (.of name descriptor) method := by
  rw [h.findMethod?_eq]
  cases hfound : file.methods.findIdx? (file.hasSignature (.of name descriptor)) with
  | none =>
    rw [Option.elim_none, List.filter_eq_self.2]
    simpa using hfound
  | some position =>
    obtain ⟨before, method, after, hmethods, rfl, hmethod, -⟩ := findIdx?_eq_some_iff_append.1 hfound
    have hothers := h.not_hasSignature hmethods hmethod
    have hkept : (before ++ after).filter (fun other => !file.hasSignature (.of name descriptor) other) =
        before ++ after := List.filter_eq_self.2 (by simpa using hothers)
    rw [Option.elim_some, hmethods, eraseIdx_middle, ← hkept, List.filter_append, List.filter_append,
      List.filter_cons_of_neg (by simp [hmethod])]

end Keyed

/-- Every method has a signature, and no two methods have the same. -/
structure Signed (file : ClassFile) : Prop where
  distinct : (file.methods.filterMap (Member.signature? file.pool)).Nodup
  signed : ∀ method ∈ file.methods, (method.signature? file.pool).isSome = true

namespace Signed

variable {file : ClassFile}

theorem keyed (h : file.Signed) : file.Keyed where
  distinct := h.distinct
  named method hmethod hnone := by
    have hsome := h.signed method hmethod
    rw [hnone] at hsome
    cases hsome

/-- Adding entries to the pool does not change signatures. -/
theorem extends_pool (h : file.Signed) {pool : Pool} (hextends : pool.Extends file.pool) (hpool : pool.WellFormed)
    (hfile : file.pool.WellFormed) : { file with pool := pool }.Signed := by
  have hsame : ∀ method ∈ file.methods, method.signature? pool = method.signature? file.pool := by
    intro method hmethod
    obtain ⟨signature, hsignature⟩ := Option.isSome_iff_exists.1 (h.signed method hmethod)
    obtain ⟨name, descriptor, hname, hdescriptor, hof⟩ := Member.signature?_eq_some_iff.1 hsignature
    rw [hsignature]
    exact Member.signature?_eq_some_iff.2
      ⟨name, descriptor, hextends.text hpool hfile hname, hextends.text hpool hfile hdescriptor, hof⟩
  constructor
  · change (file.methods.filterMap (Member.signature? pool)).Nodup
    rw [List.filterMap_congr hsame]
    exact h.distinct
  · intro method hmethod
    change (method.signature? pool).isSome = true
    rw [hsame method hmethod]
    exact h.signed method hmethod

end Signed

end ClassFile

end ClassGraft
