import ClassGraft.Proofs.Pool.Entries
import Mathlib.Data.List.Basic

/-!
# References and deep equality

What the references of a constant have to lead to, how far they go down, and when entries of two pools are alike:
their literals are equal, and their references lead to entries that are alike.  References lead to constants of
smaller depth (`depth_lt_of_admits`), and entries that are alike stay so when the pools are extended
(`Pool.Alike.mono`).
-/

namespace ClassGraft

/-- The tags of the entries that an index may lead to. -/
def Expectation.Admits : Expectation → Tag → Prop
  | .entry tag, found => found = tag
  | .memberRef, found => ∃ kind : MemberKind, found = kind.tag

/-- How far the references of an entry with a tag go down: texts are reached from names, names from members and
computed constants, and members from method handles. -/
def Tag.depth : Tag → Nat
  | .classInfo | .string | .methodType | .moduleInfo | .packageInfo | .nameAndType => 1
  | .fieldRef | .methodRef | .interfaceMethodRef | .dynamic | .invokeDynamic => 2
  | .methodHandle => 3
  | _ => 0

theorem NamedKind.depth_tag (kind : NamedKind) : kind.tag.depth = 1 := by
  cases kind <;> rfl

theorem MemberKind.depth_tag (kind : MemberKind) : kind.tag.depth = 2 := by
  cases kind <;> rfl

theorem DynamicKind.depth_tag (kind : DynamicKind) : kind.tag.depth = 2 := by
  cases kind <;> rfl

/-- How far the references of an entry of an expected kind go down. -/
def Expectation.depth : Expectation → Nat
  | .entry tag => tag.depth
  | .memberRef => 2

theorem Expectation.depth_of_admits (expected : Expectation) {found : Tag} (h : expected.Admits found) :
    found.depth = expected.depth := by
  cases expected with
  | entry tag => rw [show found = tag from h, depth]
  | memberRef =>
    obtain ⟨kind, rfl⟩ := h
    exact kind.depth_tag

namespace Constant

/-- The references of a constant, with the kinds of entries that they have to lead to. -/
def references : Constant → List (Expectation × Index)
  | .named _ text => [(.entry .utf8, text)]
  | .member _ owner signature => [(.entry .classInfo, owner), (.entry .nameAndType, signature)]
  | .nameAndType name descriptor => [(.entry .utf8, name), (.entry .utf8, descriptor)]
  | .methodHandle _ target => [(.memberRef, target)]
  | .dynamic _ _ signature => [(.entry .nameAndType, signature)]
  | _ => []

/-- A constant with its references renamed. -/
def renamed (place : Index → Index) : Constant → Constant
  | .named kind text => .named kind (place text)
  | .member kind owner signature => .member kind (place owner) (place signature)
  | .nameAndType name descriptor => .nameAndType (place name) (place descriptor)
  | .methodHandle kind target => .methodHandle kind (place target)
  | .dynamic kind bootstrap signature => .dynamic kind bootstrap (place signature)
  | literal => literal

/-- How far the references of a constant go down. -/
def depth (constant : Constant) : Nat := constant.tag.depth

theorem depth_lt (constant : Constant) : constant.depth < 4 := by
  rw [depth]
  cases constant.tag <;> simp [Tag.depth]

/-- References lead to constants of smaller depth. -/
theorem depth_lt_of_admits {constant target : Constant} {reference : Expectation × Index}
    (hmem : reference ∈ constant.references) (hadmits : reference.1.Admits target.tag) :
    target.depth < constant.depth := by
  have hdepth : reference.1.depth < constant.tag.depth := by
    cases constant with
    | named kind text =>
      rw [List.mem_singleton.1 hmem, tag, NamedKind.depth_tag]
      exact Nat.zero_lt_one
    | member kind owner signature =>
      rw [tag, MemberKind.depth_tag]
      rcases List.mem_pair.1 hmem with rfl | rfl <;> exact Nat.one_lt_two
    | nameAndType name descriptor =>
      rcases List.mem_pair.1 hmem with rfl | rfl <;> exact Nat.zero_lt_one
    | methodHandle kind target =>
      rw [List.mem_singleton.1 hmem]
      exact Nat.lt_succ_self 2
    | dynamic kind bootstrap signature =>
      rw [List.mem_singleton.1 hmem, tag, DynamicKind.depth_tag]
      exact Nat.one_lt_two
    | _ => cases hmem
  rw [depth, depth, reference.1.depth_of_admits hadmits]
  exact hdepth

theorem Storable.renamed {constant : Constant} (h : constant.Storable) (place : Index → Index) :
    (constant.renamed place).Storable := by
  cases constant <;> exact h

theorem Genuine.renamed {constant : Constant} (h : constant.Genuine) (place : Index → Index) :
    (constant.renamed place).Genuine := by
  cases constant <;> exact h

/-- Renaming a constant depends on its references only. -/
theorem renamed_congr {constant : Constant} {place place' : Index → Index}
    (h : ∀ reference ∈ constant.references, place reference.2 = place' reference.2) :
    constant.renamed place = constant.renamed place' := by
  cases constant <;> simp_all [renamed, references]

end Constant

namespace Pool

/-- The entry at an index of one pool is deeply equal to the entry at an index of another: the literals are equal, and
the references lead to entries that are deeply equal. -/
inductive Alike (source target : Pool) : Index → Index → Prop
  | literal {i j : Index} {constant : Constant} (hliteral : constant.references = [])
      (hi : source.get i = .ok constant) (hj : target.get j = .ok constant) : Alike source target i j
  | named {i j text text' : Index} {kind : NamedKind} (hi : source.get i = .ok (.named kind text))
      (hj : target.get j = .ok (.named kind text')) (htext : Alike source target text text') :
      Alike source target i j
  | member {i j owner owner' signature signature' : Index} {kind : MemberKind}
      (hi : source.get i = .ok (.member kind owner signature))
      (hj : target.get j = .ok (.member kind owner' signature')) (howner : Alike source target owner owner')
      (hsignature : Alike source target signature signature') : Alike source target i j
  | nameAndType {i j name name' descriptor descriptor' : Index}
      (hi : source.get i = .ok (.nameAndType name descriptor))
      (hj : target.get j = .ok (.nameAndType name' descriptor')) (hname : Alike source target name name')
      (hdescriptor : Alike source target descriptor descriptor') : Alike source target i j
  | methodHandle {i j member member' : Index} {kind : HandleKind}
      (hi : source.get i = .ok (.methodHandle kind member)) (hj : target.get j = .ok (.methodHandle kind member'))
      (hmember : Alike source target member member') : Alike source target i j
  | dynamic {i j signature signature' : Index} {kind : DynamicKind} {bootstrap : UInt16}
      (hi : source.get i = .ok (.dynamic kind bootstrap signature))
      (hj : target.get j = .ok (.dynamic kind bootstrap signature'))
      (hsignature : Alike source target signature signature') : Alike source target i j

namespace Alike

variable {source target : Pool} {i j : Index}

/-- Entries stay alike when the second pool keeps its entries. -/
theorem mono {larger : Pool} (h : source.Alike target i j)
    (hkept : ∀ index constant, target.get index = .ok constant → larger.get index = .ok constant) :
    source.Alike larger i j := by
  induction h with
  | literal hliteral hi hj => exact .literal hliteral hi (hkept _ _ hj)
  | named hi hj _ ih => exact .named hi (hkept _ _ hj) ih
  | member hi hj _ _ ihowner ihsignature => exact .member hi (hkept _ _ hj) ihowner ihsignature
  | nameAndType hi hj _ _ ihname ihdescriptor => exact .nameAndType hi (hkept _ _ hj) ihname ihdescriptor
  | methodHandle hi hj _ ih => exact .methodHandle hi (hkept _ _ hj) ih
  | dynamic hi hj _ ih => exact .dynamic hi (hkept _ _ hj) ih

/-- An entry is alike to the one with its references renamed when the references lead to entries that are alike. -/
theorem of_renamed {constant : Constant} {place : Index → Index} (hi : source.get i = .ok constant)
    (hj : target.get j = .ok (constant.renamed place))
    (hreferences : ∀ reference ∈ constant.references, source.Alike target reference.2 (place reference.2)) :
    source.Alike target i j := by
  cases constant with
  | named kind text => exact .named hi hj (hreferences (.entry .utf8, text) (by simp [Constant.references]))
  | member kind owner signature =>
    refine .member hi hj (hreferences (.entry .classInfo, owner) ?_)
      (hreferences (.entry .nameAndType, signature) ?_) <;> simp [Constant.references]
  | nameAndType name descriptor =>
    refine .nameAndType hi hj (hreferences (.entry .utf8, name) ?_)
      (hreferences (.entry .utf8, descriptor) ?_) <;> simp [Constant.references]
  | methodHandle kind target =>
    exact .methodHandle hi hj (hreferences (.memberRef, target) (by simp [Constant.references]))
  | dynamic kind bootstrap signature =>
    exact .dynamic hi hj (hreferences (.entry .nameAndType, signature) (by simp [Constant.references]))
  | _ => exact .literal rfl hi hj

theorem source_get (h : source.Alike target i j) : ∃ constant, source.get i = .ok constant := by
  cases h with
  | literal _ hi _ | named hi _ _ | member hi _ _ _ | nameAndType hi _ _ _ | methodHandle hi _ _ | dynamic hi _ _ =>
    exact ⟨_, hi⟩

/-- An index that is alike to another leads somewhere. -/
theorem target_get (h : source.Alike target i j) : ∃ constant, target.get j = .ok constant := by
  cases h with
  | _ => exact ⟨_, by assumption⟩

theorem symm (h : source.Alike target i j) : target.Alike source j i := by
  induction h with
  | literal hliteral hi hj => exact .literal hliteral hj hi
  | named hi hj _ ih => exact .named hj hi ih
  | member hi hj _ _ ihowner ihsignature => exact .member hj hi ihowner ihsignature
  | nameAndType hi hj _ _ ihname ihdescriptor => exact .nameAndType hj hi ihname ihdescriptor
  | methodHandle hi hj _ ih => exact .methodHandle hj hi ih
  | dynamic hi hj _ ih => exact .dynamic hj hi ih

theorem trans {further : Pool} {k : Index} (h : source.Alike target i j) (h' : target.Alike further j k) :
    source.Alike further i k := by
  induction h generalizing k with
  | literal hliteral hi hj =>
    cases h' with
    | literal _ hj' hk =>
      rw [hj] at hj'
      cases hj'
      exact .literal hliteral hi hk
    | _ hj' =>
      rw [hj] at hj'
      cases hj'
      cases hliteral
  | named hi hj _ ih =>
    cases h' with
    | literal hliteral hj' => rw [hj] at hj'; cases hj'; cases hliteral
    | named hj' hk htext =>
      rw [hj] at hj'
      cases hj'
      exact .named hi hk (ih htext)
    | _ hj' => rw [hj] at hj'; cases hj'
  | member hi hj _ _ ihowner ihsignature =>
    cases h' with
    | literal hliteral hj' => rw [hj] at hj'; cases hj'; cases hliteral
    | member hj' hk howner hsignature =>
      rw [hj] at hj'
      cases hj'
      exact .member hi hk (ihowner howner) (ihsignature hsignature)
    | _ hj' => rw [hj] at hj'; cases hj'
  | nameAndType hi hj _ _ ihname ihdescriptor =>
    cases h' with
    | literal hliteral hj' => rw [hj] at hj'; cases hj'; cases hliteral
    | nameAndType hj' hk hname hdescriptor =>
      rw [hj] at hj'
      cases hj'
      exact .nameAndType hi hk (ihname hname) (ihdescriptor hdescriptor)
    | _ hj' => rw [hj] at hj'; cases hj'
  | methodHandle hi hj _ ih =>
    cases h' with
    | literal hliteral hj' => rw [hj] at hj'; cases hj'; cases hliteral
    | methodHandle hj' hk hmember =>
      rw [hj] at hj'
      cases hj'
      exact .methodHandle hi hk (ih hmember)
    | _ hj' => rw [hj] at hj'; cases hj'
  | dynamic hi hj _ ih =>
    cases h' with
    | literal hliteral hj' => rw [hj] at hj'; cases hj'; cases hliteral
    | dynamic hj' hk hsignature =>
      rw [hj] at hj'
      cases hj'
      exact .dynamic hi hk (ih hsignature)
    | _ hj' => rw [hj] at hj'; cases hj'

/-- An entry that is alike to a text is that text. -/
theorem utf8 (h : source.Alike target i j) {stored : StoredText} (hi : source.get i = .ok (.utf8 stored)) :
    target.get j = .ok (.utf8 stored) := by
  cases h with
  | literal _ hi' hj =>
    rw [hi] at hi'
    cases hi'
    exact hj
  | _ hi' => rw [hi] at hi'; cases hi'

end Alike

end Pool

end ClassGraft
