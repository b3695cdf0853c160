import ClassGraft.Proofs.Signature

/-!
# The methods of a class as a map

Edits remove methods and add others.  When every added method has the signature under which it is added, the methods
of a class behave as a finite map from signatures: after any edits, what is found under a signature is what the last
edit under it left there, and is what it was when there was none (`ClassFile.Keyed.gives_editAll`).  The methods of
signatures that were not edited, and those without a name, stay in order in front of those that were added and have
lasted.
-/

namespace ClassGraft

/-- A removal, or an addition in place of what is there. -/
inductive Edit where
  | remove (name descriptor : String)
  | add (name descriptor : String) (method : Method)
deriving DecidableEq, Repr

/-- What an edit reports: the method that was removed, or whether one was replaced. -/
inductive EditReport where
  | removed (method? : Option Method)
  | added (replaced : Bool)
deriving DecidableEq, Repr

namespace Edit

/-- The signature that an edit is about. -/
def signature : Edit → Signature
  | remove name descriptor => .of name descriptor
  | add name descriptor _ => .of name descriptor

/-- The method that an edit leaves under its signature. -/
def left? : Edit → Option Method
  | remove _ _ => none
  | add _ _ method => some method

/-- What an edit reports when a method was found, or none. -/
def report (edit : Edit) (found? : Option Method) : EditReport :=
  match edit with
  | remove _ _ => .removed found?
  | add _ _ _ => .added found?.isSome

/-- An added method leads to the name and the descriptor under which it is added. -/
def Resolves (pool : Pool) : Edit → Prop
  | remove _ _ => True
  | add name descriptor method =>
    pool.text method.nameIndex = .ok name ∧ pool.text method.descriptorIndex = .ok descriptor

/-- The last of several edits that is about a signature. -/
def last? (edits : List Edit) (signature : Signature) : Option Edit :=
  edits.reverse.find? fun edit => edit.signature = signature

/-- The added methods, in order, except for those whose signature is edited again. -/
def lasting : List Edit → List Method
  | [] => []
  | edit :: edits => edit.left?.toList.filter (fun _ => (last? edits edit.signature).isNone) ++ lasting edits

theorem last?_cons (edit : Edit) (edits : List Edit) (signature : Signature) :
    last? (edit :: edits) signature =
      (last? edits signature).or (if edit.signature = signature then some edit else none) := by
  rw [last?, last?, List.reverse_cons, List.find?_append, List.find?_singleton]
  simp

end Edit

namespace ClassFile

/-- What one edit reports and makes of a class. -/
def edit (file : ClassFile) : Edit → Logged (EditReport × ClassFile)
  | .remove name descriptor => do
    let (removed, file) ← file.removeMethod name descriptor
    return (.removed removed, file)
  | .add name descriptor method => do
    let (replaced, file) ← file.addOrReplace name descriptor method
    return (.added replaced, file)

/-- What edits one after the other report and make of a class. -/
def editAll (file : ClassFile) : List Edit → Logged (List EditReport × ClassFile)
  | [] => return ([], file)
  | edit :: edits => do
    let (report, file) ← file.edit edit
    let (reports, file) ← file.editAll edits
    return (report :: reports, file)

/-- The method that should be under a signature after edits: the one that the last edit about it left there, or the
one that was there. -/
def standing? (file : ClassFile) (edits : List Edit) (signature : Signature) : Option Method :=
  match Edit.last? edits signature with
  | some edit => edit.left?
  | none => file.lookup? signature

/-- The methods that no edit is about. -/
def untouched (file : ClassFile) (edits : List Edit) : List Method :=
  file.methods.filter fun method => edits.all fun edit => !file.hasSignature edit.signature method

/-! ### One edit -/

/-- The class after an edit. -/
def edited (file : ClassFile) (edit : Edit) : ClassFile :=
  { file with
    methods := file.methods.filter (fun method => !file.hasSignature edit.signature method) ++ edit.left?.toList }

/-- An added method has the signature under which it is added. -/
theorem hasSignature_left {file : ClassFile} {edit : Edit} (hresolves : edit.Resolves file.pool) {method : Method}
    (hleft : edit.left? = some method) (signature : Signature) :
    file.hasSignature signature method = decide (edit.signature = signature) := by
  cases edit with
  | remove name descriptor => cases hleft
  | add name descriptor added =>
    cases hleft
    have hsignature : method.signature? file.pool = some (.of name descriptor) :=
      Member.signature?_eq_some_iff.2 ⟨name, descriptor, hresolves.1, hresolves.2, rfl⟩
    rw [hasSignature, hsignature, Edit.signature]
    simp

namespace Keyed

variable {file : ClassFile} {edit : Edit}

/-- The method that is found is the one with the signature. -/
theorem bind_findMethod? (h : file.Keyed) (name descriptor : String) :
    (file.findMethod? name descriptor).bind (file.methods[·]?) = file.lookup? (.of name descriptor) := by
  have hfound := h.map_findMethod? name descriptor
  cases hposition : file.findMethod? name descriptor with
  | none =>
    rw [hposition] at hfound
    exact (Option.map_eq_none_iff.1 hfound.symm).symm
  | some position =>
    rw [hposition, Option.map_some] at hfound
    obtain ⟨method, hlookup, hmethod⟩ := Option.map_eq_some_iff.1 hfound.symm
    rw [hlookup, hmethod]
    rfl

/-- An edit takes away what is found under its signature and reports it. -/
theorem gives_edit (h : file.Keyed) (edit : Edit) :
    Gives (file.edit edit) (edit.report (file.lookup? edit.signature), file.edited edit) := by
  cases edit with
  | remove name descriptor =>
    have hremoved := file.gives_removeMethod name descriptor
    rw [h.bind_findMethod?, h.removed_eq, ← List.append_nil (List.filter _ _)] at hremoved
    exact hremoved.bind (.pure _)
  | add name descriptor method =>
    have hadded := file.gives_addOrReplace name descriptor method
    have hsome : (file.findMethod? name descriptor).isSome = (file.lookup? (.of name descriptor)).isSome := by
      simpa using congrArg Option.isSome (h.map_findMethod? name descriptor)
    rw [h.removed_eq, hsome] at hadded
    exact hadded.bind (.pure _)

theorem edited (h : file.Keyed) (hresolves : edit.Resolves file.pool) : (file.edited edit).Keyed := by
  have hkept : ((file.methods.filter fun method => !file.hasSignature edit.signature method).filterMap
      (Member.signature? file.pool)).Nodup :=
    h.distinct.sublist (List.filter_sublist.filterMap _)
  cases hleft : edit.left? with
  | none =>
    have hmethods : (file.edited edit).methods =
        file.methods.filter fun method => !file.hasSignature edit.signature method := by
      simp [ClassFile.edited, hleft]
    refine ⟨hmethods ▸ hkept, fun method hmethod => h.named method ?_⟩
    rw [hmethods] at hmethod
    exact List.mem_of_mem_filter hmethod
  | some added =>
    have hmethods : (file.edited edit).methods =
        (file.methods.filter fun method => !file.hasSignature edit.signature method) ++ [added] := by
      simp [ClassFile.edited, hleft]
    have hsignature : added.signature? file.pool = some edit.signature := by
      simpa [hasSignature] using hasSignature_left hresolves hleft edit.signature
    constructor
    · rw [hmethods]
      change (List.filterMap (Member.signature? file.pool) _).Nodup
      rw [List.filterMap_append, List.filterMap_cons_some hsignature, List.filterMap_nil]
      refine hkept.append (List.nodup_singleton _) ?_
      -- no method with the signature of the added one has been kept
      intro signature hold hnew
      obtain ⟨method, hmethod, hsame⟩ := List.mem_filterMap.1 hold
      have hother := List.of_mem_filter hmethod
      rw [List.mem_singleton.1 hnew] at hsame
      simp [hasSignature, hsame] at hother
    · intro method hmethod
      rw [hmethods] at hmethod
      rcases List.mem_append.1 hmethod with hold | hnew
      · exact h.named method (List.mem_of_mem_filter hold)
      · rw [List.mem_singleton.1 hnew]
        intro hnone
        change added.signature? file.pool = none at hnone
        rw [hsignature] at hnone
        cases hnone

end Keyed

section

variable {file : ClassFile} {edit : Edit}

/-- Under its own signature, an edit leaves what it adds, and under all others what was there. -/
theorem lookup?_edited (hresolves : edit.Resolves file.pool) (signature : Signature) :
    (file.edited edit).lookup? signature =
      if edit.signature = signature then edit.left? else file.lookup? signature := by
  change ((file.methods.filter _) ++ edit.left?.toList).find? (file.hasSignature signature) = _
  rw [List.find?_append, List.find?_filter]
  have hnew : edit.left?.toList.find? (file.hasSignature signature) =
      if edit.signature = signature then edit.left? else none := by
    cases hleft : edit.left? with
    | none => simp
    | some added =>
      rw [Option.toList_some, List.find?_singleton, hasSignature_left hresolves hleft]
      simp
  have hold : file.methods.find? (fun method =>
      decide ((!file.hasSignature edit.signature method) = true ∧ file.hasSignature signature method = true)) =
        if edit.signature = signature then none else file.lookup? signature := by
    by_cases hsame : edit.signature = signature
    · rw [if_pos hsame, hsame, List.find?_eq_none]
      simp
    · rw [if_neg hsame, lookup?]
      congr 1
      funext method
      by_cases hmethod : method.signature? file.pool = some signature
      · have hother : signature ≠ edit.signature := fun heq => hsame heq.symm
        simp [hasSignature, hmethod, hother]
      · simp [hasSignature, hmethod]
  rw [hnew, hold]
  by_cases hsame : edit.signature = signature <;> simp [hsame]

theorem standing?_edited (hresolves : edit.Resolves file.pool) (edits : List Edit) (signature : Signature) :
    (file.edited edit).standing? edits signature = file.standing? (edit :: edits) signature := by
  rw [standing?, standing?, Edit.last?_cons, lookup?_edited hresolves]
  cases Edit.last? edits signature with
  | some later => rfl
  | none =>
    by_cases hsame : edit.signature = signature <;> simp [hsame]

/-- What is left of the methods, after further edits, that an edit keeps or adds. -/
theorem untouched_edited (hresolves : edit.Resolves file.pool) (edits : List Edit) :
    (file.edited edit).untouched edits ++ Edit.lasting edits =
      file.untouched (edit :: edits) ++ Edit.lasting (edit :: edits) := by
  have hnew : (edit.left?.toList.filter fun method =>
      edits.all fun later => !file.hasSignature later.signature method) =
        edit.left?.toList.filter fun _ => (Edit.last? edits edit.signature).isNone := by
    refine List.filter_congr fun added hadded => ?_
    have hleft : edit.left? = some added := by simpa using hadded
    rw [Bool.eq_iff_iff, Option.isNone_iff_eq_none, Edit.last?, List.find?_eq_none, List.all_eq_true]
    simp [hasSignature_left hresolves hleft, eq_comm (a := edit.signature)]
  rw [Edit.lasting, ← hnew, untouched, untouched, ← List.append_assoc]
  congr 1
  change ((file.methods.filter _ ++ edit.left?.toList).filter _) = _
  rw [List.filter_append, List.filter_filter]
  congr 1
  refine List.filter_congr fun method _ => ?_
  rw [List.all_cons, Bool.and_comm]
  rfl

end

/-! ### Any number of edits -/

/-- Edits each report what stands under their signature when their turn comes; afterwards, methods that no edit was
about stand in order in front of those that were added and have lasted, the class is still keyed, and what is found is
what stands. -/
theorem Keyed.gives_editAll {file : ClassFile} (h : file.Keyed) {edits : List Edit}
    (hresolves : ∀ edit ∈ edits, edit.Resolves file.pool) :
    ∃ reports after, Gives (file.editAll edits) (reports, after) ∧
      after = { file with methods := file.untouched edits ++ Edit.lasting edits } ∧ after.Keyed ∧
      (∀ name descriptor, (after.findMethod? name descriptor).map (after.methods[·]?) =
        (file.standing? edits (.of name descriptor)).map some) ∧
      reports.length = edits.length ∧
      ∀ (position : Nat) (edit : Edit), edits[position]? = some edit →
        reports[position]? = some (edit.report (file.standing? (edits.take position) edit.signature)) := by
  induction edits generalizing file with
  | nil =>
    refine ⟨[], file, .pure _, ?_, h, h.map_findMethod?, rfl, fun _ _ hnone => by cases hnone⟩
    simp [untouched, Edit.lasting]
  | cons edit edits ih =>
    have hfirst := hresolves edit List.mem_cons_self
    obtain ⟨reports, after, hgives, hafter, hkeyed, hfound, hlength, hreports⟩ :=
      ih (h.edited hfirst) fun later hlater => hresolves later (List.mem_cons_of_mem _ hlater)
    refine ⟨edit.report (file.lookup? edit.signature) :: reports, after, ?_, ?_, hkeyed, ?_, ?_, ?_⟩
    · exact (h.gives_edit edit).bind (hgives.bind (.pure _))
    · rw [hafter, untouched_edited hfirst]
      rfl
    · intro name descriptor
      rw [hfound, standing?_edited hfirst]
    · rw [List.length_cons, hlength, List.length_cons]
    · intro position later hlater
      cases position with
      | zero =>
        cases hlater
        rfl
      | succ position =>
        rw [List.getElem?_cons_succ, hreports position later hlater, standing?_edited hfirst]
        rfl

/-- A class with a class initializer, a method without a name, and another method. -/
def initializedClass : ClassFile where
  version := ⟨50, 0⟩
  pool := ((Pool.empty.push (.utf8 (.ofText "<clinit>"))).push (.utf8 (.ofText "m"))).push (.utf8 (.ofText "()V"))
  accessFlags := 0x400
  thisClass := 0
  superClass := 0
  interfaces := []
  fields := []
  methods := [⟨8, 1, 3, []⟩, ⟨1, 9, 3, []⟩, ⟨1, 2, 3, []⟩]
  attributes := []

/-- The last method is replaced and the initializer removed, whatever its descriptor; the method without a name stays
in front. -/
theorem gives_editAll_initializedClass :
    initializedClass.Keyed ∧
      (∀ edit ∈ [Edit.add "m" "()V" ⟨17, 2, 3, []⟩, .remove "<clinit>" "(I)V"],
        edit.Resolves initializedClass.pool) ∧
      ∃ reports after,
        Gives (initializedClass.editAll [.add "m" "()V" ⟨17, 2, 3, []⟩, .remove "<clinit>" "(I)V"]) (reports, after) ∧
        after.methods = [⟨1, 9, 3, []⟩, ⟨17, 2, 3, []⟩] ∧ after.Keyed ∧
        reports[0]? = some (.added true) ∧ reports[1]? = some (.removed (some ⟨8, 1, 3, []⟩)) := by
  have hkeyed : initializedClass.Keyed := by
    have hsignatures : initializedClass.methods.filterMap (Member.signature? initializedClass.pool) =
        [⟨"<clinit>", none⟩, ⟨"m", some "()V"⟩] := by decide +kernel
    have hunnamed : ∀ method ∈ initializedClass.methods, method.signature? initializedClass.pool = none →
        (initializedClass.pool.text method.nameIndex).toOption = none := by decide +kernel
    refine ⟨by rw [hsignatures]; decide, fun method hmethod hnone name hname => ?_⟩
    have hindex := hunnamed method hmethod hnone
    rw [hname] at hindex
    cases hindex
  have hresolves : ∀ edit ∈ [Edit.add "m" "()V" ⟨17, 2, 3, []⟩, .remove "<clinit>" "(I)V"],
      edit.Resolves initializedClass.pool := by
    intro edit hedit
    rcases List.mem_cons.1 hedit with rfl | hlast
    · exact ⟨eq_ok_of_toOption (by decide +kernel), eq_ok_of_toOption (by decide +kernel)⟩
    · rw [List.mem_singleton.1 hlast]
      trivial
  refine ⟨hkeyed, hresolves, ?_⟩
  obtain ⟨reports, after, hgives, rfl, hafter, -, -, hreports⟩ := hkeyed.gives_editAll hresolves
  refine ⟨reports, _, hgives, ?_, hafter, ?_, ?_⟩
  · decide +kernel
  · rw [hreports 0 _ rfl]
    decide +kernel
  · rw [hreports 1 _ rfl]
    decide +kernel

end ClassFile

end ClassGraft
