import ClassGraft.MethodTable
import ClassGraft.Proofs.Pool.Entries
import ClassGraft.Proofs.Running

/-!
# Finding, replacing and editing methods

What it means that a method is found (`Member.isMethod_iff`), and what adding a method in place of another and editing
the code of a method give, whatever has been noted before (`ClassFile.gives_addOrReplace`, `Member.gives_replaceCode`).
A method that is added last is the one that is found exactly when it matches and only one match was there to be removed
(`findIdx?_added`); a method that is edited in place is found where it was (`findIdx?_edited`).
-/

namespace ClassGraft

theorem Pool.isText_iff {pool : Pool} {index : Index} {text : String} :
    pool.isText index text = true ↔ pool.text index = .ok text := by
  unfold Pool.isText
  cases pool.text index <;> simp

/-- The attribute has the given name. -/
theorem Attribute.isNamed_iff {pool : Pool} {name : String} {entry : Attribute} :
    entry.isNamed pool name = true ↔ pool.text entry.nameIndex = .ok name := by
  unfold Attribute.isNamed
  cases pool.text entry.nameIndex <;> simp

theorem MethodKind.ofName_eq_classInitializer_iff {name : String} :
    ofName name = .classInitializer ↔ name = "<clinit>" := by
  unfold ofName
  by_cases hinit : name = "<init>"
  · subst hinit
    decide
  · rw [if_neg hinit]
    by_cases hclinit : name = "<clinit>" <;> simp [hclinit]

/-! ### The first of several -/

section

variable {α : Type} {p : α → Bool} {xs : List α}

/-- The first element with a property stands behind others without it. -/
theorem findIdx?_eq_some_iff_append {position : Nat} :
    xs.findIdx? p = some position ↔ ∃ before x after, xs = before ++ x :: after ∧ before.length = position ∧
      p x = true ∧ ∀ y ∈ before, p y = false := by
  constructor
  · intro h
    obtain ⟨hlt, hfound, hfirst⟩ := List.findIdx?_eq_some_iff_getElem.1 h
    refine ⟨xs.take position, xs[position], xs.drop (position + 1), by simp, by simp; omega, hfound, ?_⟩
    intro y hy
    obtain ⟨earlier, hearlier, rfl⟩ := List.mem_take_iff_getElem.1 hy
    have hbelow : earlier < position := by omega
    simpa using hfirst earlier hbelow
  · rintro ⟨before, x, after, rfl, rfl, hx, hbefore⟩
    have hnone : before.findIdx? p = none := List.findIdx?_eq_none_iff.2 hbefore
    rw [List.findIdx?_append, hnone, List.findIdx?_cons, if_pos hx]
    simp

theorem findIdx?_congr {q : α → Bool} (h : ∀ x ∈ xs, p x = q x) : xs.findIdx? p = xs.findIdx? q := by
  induction xs with
  | nil => rfl
  | cons x xs ih =>
    rw [List.findIdx?_cons, List.findIdx?_cons, h x List.mem_cons_self, ih fun y hy => h y (List.mem_cons_of_mem _ hy)]

theorem eraseIdx_middle {before after : List α} {x : α} :
    (before ++ x :: after).eraseIdx before.length = before ++ after := by
  rw [List.eraseIdx_append_of_length_le (Nat.le_refl _), Nat.sub_self]
  rfl

/-- A last element is the first with a property when it has it and no other does. -/
private theorem findIdx?_append_last_iff {x : α} :
    (xs ++ [x]).findIdx? p = some xs.length ↔ p x = true ∧ xs.countP p = 0 := by
  rw [findIdx?_eq_some_iff_append, List.countP_eq_zero]
  constructor
  · rintro ⟨before, y, after, heq, hlength, hy, hbefore⟩
    obtain ⟨rfl, hlast⟩ := List.append_inj heq hlength.symm
    cases hlast
    exact ⟨hy, fun z hz => by simp [hbefore z hz]⟩
  · rintro ⟨hx, hnone⟩
    exact ⟨xs, x, [], rfl, rfl, hx, fun y hy => by simpa using hnone y hy⟩

/-- When the first match is taken away and an element is added at the end, the added one is the first match exactly when
it is a match and there was no second one. -/
theorem findIdx?_added {x : α} :
    ((xs.findIdx? p).elim xs xs.eraseIdx ++ [x]).findIdx? p = some ((xs.findIdx? p).elim xs xs.eraseIdx).length ↔
      p x = true ∧ xs.countP p ≤ 1 := by
  rw [findIdx?_append_last_iff]
  refine and_congr_right fun _ => ?_
  cases hfound : xs.findIdx? p with
  | none =>
    have hnone : xs.countP p = 0 := by
      rw [List.countP_eq_zero]
      exact fun y hy => by simp [List.findIdx?_eq_none_iff.1 hfound y hy]
    rw [Option.elim_none]
    omega
  | some position =>
    obtain ⟨before, y, after, rfl, rfl, hy, -⟩ := findIdx?_eq_some_iff_append.1 hfound
    rw [Option.elim_some, eraseIdx_middle, List.countP_append, List.countP_append, List.countP_cons_of_pos hy]
    omega

/-- An element that is replaced by another match is the first match as before. -/
theorem findIdx?_edited {position : Nat} (h : xs.findIdx? p = some position) {x : α} (hx : p x = true) :
    (xs.set position x).findIdx? p = some position := by
  obtain ⟨before, y, after, rfl, rfl, -, hbefore⟩ := findIdx?_eq_some_iff_append.1 h
  exact findIdx?_eq_some_iff_append.2 ⟨before, x, after, by simp, rfl, hx, hbefore⟩

/-- An element that is replaced by one that has the property when the other had it does not change where the first is.
-/
theorem findIdx?_set {position : Nat} {x y : α} (hx : xs[position]? = some x) (hsame : p y = p x) :
    (xs.set position y).findIdx? p = xs.findIdx? p := by
  induction xs generalizing position with
  | nil => rfl
  | cons z xs ih =>
    cases position with
    | zero =>
      cases hx
      rw [List.set_cons_zero, List.findIdx?_cons, List.findIdx?_cons, hsame]
    | succ position =>
      rw [List.set_cons_succ, List.findIdx?_cons, List.findIdx?_cons, ih hx]

end

/-! ### Methods -/

namespace Member

/-- A method is known by its name and descriptor, and a class initializer by its name alone. -/
theorem isMethod_iff {pool : Pool} {name descriptor : String} {method : Method} :
    method.isMethod pool name descriptor = true ↔ pool.text method.nameIndex = .ok name ∧
      (name = "<clinit>" ∨ pool.text method.descriptorIndex = .ok descriptor) := by
  unfold isMethod
  rw [Bool.and_eq_true, Pool.isText_iff]
  refine and_congr_right fun _ => ?_
  by_cases hclinit : name = "<clinit>"
  · have hkind := MethodKind.ofName_eq_classInitializer_iff.2 hclinit
    rw [hkind]
    exact iff_of_true rfl (.inl hclinit)
  · have hkind : MethodKind.ofName name ≠ .classInitializer :=
      fun heq => hclinit (MethodKind.ofName_eq_classInitializer_iff.1 heq)
    split
    · contradiction
    · simp [hclinit, Pool.isText_iff]

/-- Attributes with one of them in place of the first code attribute, or at the end when there is none. -/
inductive CodeReplaced (pool : Pool) (code : Attribute) : List Attribute → List Attribute → Prop
  | first {before after : List Attribute} {old : Attribute}
      (hbefore : ∀ entry ∈ before, pool.text entry.nameIndex ≠ .ok codeName)
      (hold : pool.text old.nameIndex = .ok codeName) :
      CodeReplaced pool code (before ++ old :: after) (before ++ code :: after)
  | none {attributes : List Attribute} (h : ∀ entry ∈ attributes, pool.text entry.nameIndex ≠ .ok codeName) :
      CodeReplaced pool code attributes (attributes ++ [code])

/-- The method with an attribute in place of its first code attribute, or at the end when it has none. -/
def withCode (pool : Pool) (method : Method) (code : Attribute) : Method :=
  { method with
    attributes := (method.codePosition? pool).elim (method.attributes ++ [code]) (method.attributes.set · code) }

theorem mem_withCode {pool : Pool} {method : Method} {code entry : Attribute}
    (h : entry ∈ (method.withCode pool code).attributes) : entry ∈ method.attributes ∨ entry = code := by
  unfold withCode at h
  cases hposition : method.codePosition? pool with
  | none =>
    rw [hposition] at h
    rcases List.mem_append.1 h with hold | hnew
    · exact .inl hold
    · exact .inr (List.mem_singleton.1 hnew)
  | some position =>
    rw [hposition] at h
    exact List.mem_or_eq_of_mem_set h

/-- A code attribute that has been put in is found and replaced by what is put in next. -/
theorem withCode_withCode {pool : Pool} {method : Method} {code code' : Attribute}
    (hcode : code.isNamed pool codeName = true) :
    (method.withCode pool code).withCode pool code' = method.withCode pool code' := by
  have hposition : (method.withCode pool code).codePosition? pool =
      some ((method.codePosition? pool).getD method.attributes.length) := by
    unfold withCode codePosition?
    cases hfound : method.attributes.findIdx? (Attribute.isNamed pool codeName) with
    | none => exact findIdx?_append_last_iff.2 ⟨hcode, List.countP_eq_zero.2 fun entry hentry => by
        simp [List.findIdx?_eq_none_iff.1 hfound entry hentry]⟩
    | some position => exact findIdx?_edited hfound hcode
  rw [withCode, hposition]
  unfold withCode
  cases method.codePosition? pool <;> simp

private theorem not_named {pool : Pool} {entry : Attribute} (h : entry.isNamed pool codeName = false) :
    pool.text entry.nameIndex ≠ .ok codeName := by
  intro hname
  rw [Attribute.isNamed_iff.2 hname] at h
  cases h

theorem codeReplaced_withCode (pool : Pool) (method : Method) (code : Attribute) :
    CodeReplaced pool code method.attributes (method.withCode pool code).attributes := by
  unfold withCode codePosition?
  cases hfound : method.attributes.findIdx? (Attribute.isNamed pool codeName) with
  | none =>
    refine .none fun entry hentry => not_named ?_
    exact List.findIdx?_eq_none_iff.1 hfound entry hentry
  | some position =>
    obtain ⟨before, old, after, hattributes, rfl, hold, hbefore⟩ := findIdx?_eq_some_iff_append.1 hfound
    have hreplaced : method.attributes.set before.length code = before ++ code :: after := by
      rw [hattributes]
      simp
    rw [Option.elim_some, hreplaced, hattributes]
    exact .first (fun entry hentry => not_named (hbefore entry hentry)) (Attribute.isNamed_iff.1 hold)

/-- Editing the code of a method puts in the first code attribute of the patch, if the patch has one. -/
theorem gives_replaceCode (pool : Pool) (patch : ParsedMethod) (method : Method) :
    Gives (method.replaceCode pool patch)
      (patch.codeAttribute?.map fun code => method.withCode pool code.toAttribute) := by
  intro log
  unfold replaceCode
  cases hcode : patch.codeAttribute? with
  | none => rfl
  | some code =>
    cases code with
    | raw nameIndex name info =>
      have hisCode := List.find?_some hcode
      cases hisCode
    | code nameIndex length body nested =>
      unfold withCode
      cases method.codePosition? pool <;> rfl

end Member

/-- Editing a method without changing its header does not change where methods are found. -/
theorem ClassFile.findMethod?_set {file : ClassFile} {position : Nat} {method edited : Method}
    (hmethod : file.methods[position]? = some method) (hname : edited.nameIndex = method.nameIndex)
    (hdescriptor : edited.descriptorIndex = method.descriptorIndex) (name descriptor : String) :
    { file with methods := file.methods.set position edited }.findMethod? name descriptor =
      file.findMethod? name descriptor := by
  refine findIdx?_set hmethod ?_
  rw [Member.isMethod, Member.isMethod, hname, hdescriptor]

/-- Removing gives the first method with a name and descriptor, if there is one, and takes it away. -/
theorem ClassFile.gives_removeMethod (file : ClassFile) (name descriptor : String) :
    Gives (file.removeMethod name descriptor)
      ((file.findMethod? name descriptor).bind (file.methods[·]?),
        { file with methods := (file.findMethod? name descriptor).elim file.methods file.methods.eraseIdx }) := by
  intro log
  unfold removeMethod
  cases file.findMethod? name descriptor <;> rfl

/-- Adding a method takes away the first one with its name and descriptor, and says whether there was one. -/
theorem ClassFile.gives_addOrReplace (file : ClassFile) (name descriptor : String) (method : Method) :
    Gives (file.addOrReplace name descriptor method)
      ((file.findMethod? name descriptor).isSome,
        { file with
          methods := (file.findMethod? name descriptor).elim file.methods file.methods.eraseIdx ++ [method] }) := by
  have hsome : ((file.findMethod? name descriptor).bind (file.methods[·]?)).isSome =
      (file.findMethod? name descriptor).isSome := by
    cases hfound : file.findMethod? name descriptor with
    | none => rfl
    | some position =>
      obtain ⟨hlt, -⟩ := List.findIdx?_eq_some_iff_getElem.1 hfound
      simpa using hlt
  rw [← hsome]
  exact (file.gives_removeMethod name descriptor).bind (.pure _)

end ClassGraft
