import ClassGraft.Proofs.Pool.References
import ClassGraft.Proofs.Transfer.Calls

/-!
# How deep transfers nest

Transferring an entry is a recursion: `constantBy` is one call of it, which hands each reference on to a further call
after looking whether it leads to an entry of the kind it should.  The entries that are handed on are of smaller depth,
so however the indices of the source are wired, four calls are enough: what is done instead of a fifth one inside them
does not matter (`runsAs_constantWithin`).
-/

namespace ClassGraft.TransferM

open Transfer

section

variable (again : Index → TransferM Index)

/-- Hands on an index after looking at what it leads to. -/
def handedOn {α : Type} (found : Except IndexError α) (index : Index) : TransferM Index := do
  discard (resolved found)
  again index

variable (source : Pool)

/-- Hands on an index that has to lead to a member reference. -/
def handleTargetBy (index : Index) : TransferM Index := do
  match ← resolved (source.get index) with
  | .member _ _ _ => again index
  | other => throw (.index (.wrongTag index .memberRef other.tag))

/-- The constant for the target, with the references of the entry at an index handed on. -/
def rebuiltBy (index : Index) : Constant → TransferM Constant
  | .named kind name => return .named kind (← handedOn again (source.text name) name)
  | .member kind ownerIndex signatureIndex => do
    let ownerIndex ← handedOn again (source.className ownerIndex) ownerIndex
    let signatureIndex ← handedOn again (source.nameAndType signatureIndex) signatureIndex
    return .member kind ownerIndex signatureIndex
  | .nameAndType name descriptor => do
    let name ← handedOn again (source.text name) name
    let descriptor ← handedOn again (source.text descriptor) descriptor
    return .nameAndType name descriptor
  | .methodHandle kind target => return .methodHandle kind (← handleTargetBy again source target)
  | .dynamic kind bootstrap signatureIndex => do
    let what := match kind with
      | .value => "dynamic"
      | .callSite => "invokedynamic"
    note .warning s!"Keeping bootstrap method index {bootstrap} of {what} constant #{index} as is"
    let signatureIndex ← handedOn again (source.nameAndType signatureIndex) signatureIndex
    return .dynamic kind bootstrap signatureIndex
  | literal => return literal

/-- One call of the recursion: an index that has been transferred is known, and of any other the references are handed
on first. -/
def constantBy (index : Index) : TransferM Index :=
  remember index do rebuiltBy again source index (← resolved (source.get index))

end

/-- Transfers an index with at most so many calls active at once: where one more would be made, something else is done
instead. -/
def constantWithin (source : Pool) (otherwise : Index → TransferM Index) : Nat → Index → TransferM Index
  | 0 => otherwise
  | calls + 1 => constantBy (constantWithin source otherwise calls) source

variable {source : Pool}

/-! ### Transfers are the recursion -/

theorem text_eq (index : Index) :
    text source index = handedOn (constant source) (source.text index) index := by
  rw [text, handedOn, discard_resolved, Pool.text]
  cases hget : source.get index with
  | error error => rfl
  | ok found =>
    cases found with
    | utf8 stored =>
      show remember index (pure (.utf8 stored)) = constant source index
      rw [constant, hget]
      rfl
    | _ => rfl

theorem owner_eq (index : Index) :
    owner source index = handedOn (constant source) (source.className index) index := by
  rw [owner, handedOn, discard_resolved, discard_resolved]
  cases hname : source.className index with
  | error error => rfl
  | ok name =>
    obtain ⟨text, hget, -⟩ := Pool.className_eq_ok_iff.1 hname
    show (resolved (source.get index) >>= _) = constant source index
    rw [constant, hget]
    rfl

theorem signature_eq (index : Index) :
    signature source index = handedOn (constant source) (source.nameAndType index) index := by
  rw [signature, handedOn, discard_resolved, discard_resolved]
  cases htexts : source.nameAndType index with
  | error error => rfl
  | ok texts =>
    obtain ⟨name, descriptor, hget, -⟩ := Pool.nameAndType_eq_ok_iff.1 htexts
    show (resolved (source.get index) >>= _) = constant source index
    rw [constant, hget]
    rfl

theorem handleTarget_eq (index : Index) :
    handleTarget source index = handleTargetBy (constant source) source index := by
  rw [handleTarget, handleTargetBy]
  cases hget : source.get index with
  | error error => rfl
  | ok found =>
    cases found with
    | member kind ownerIndex signatureIndex =>
      show member source index kind ownerIndex signatureIndex = constant source index
      rw [constant, hget]
      rfl
    | _ => rfl

/-- Transferring an entry rebuilds it with its references transferred, and remembers it. -/
theorem constant_eq {index : Index} {found : Constant} (hget : source.get index = .ok found) :
    constant source index = remember index (rebuiltBy (constant source) source index found) := by
  rw [constant, hget]
  cases found with
  | named kind name =>
    show named source index kind name = _
    rw [named, rebuiltBy, text_eq]
  | member kind ownerIndex signatureIndex =>
    show member source index kind ownerIndex signatureIndex = _
    rw [member, rebuiltBy, owner_eq, signature_eq]
  | nameAndType name descriptor =>
    show nameAndType source index name descriptor = _
    rw [nameAndType, rebuiltBy, text_eq, text_eq]
  | methodHandle kind target =>
    show remember index _ = _
    rw [rebuiltBy, handleTarget_eq]
  | dynamic kind bootstrap signatureIndex =>
    show dynamic source index kind bootstrap signatureIndex = _
    unfold dynamic
    rw [signature_eq]
    rfl
  | _ => rfl

/-! ### Four calls are enough -/

/-- Two computations run alike from every transfer out of a source. -/
def RunsAs {α : Type} (source : Pool) (x y : TransferM α) : Prop :=
  ∀ before log, before.Valid source → runOn x before log = runOn y before log

namespace RunsAs

variable {α β : Type} {x y : TransferM α}

theorem refl (x : TransferM α) : RunsAs source x x := fun _ _ _ => rfl

theorem bind {f g : α → TransferM β} {limit : Nat} {condition : α → Transfer → Prop} (hx : RunsAs source x y)
    (hy : ∀ before, Ensures source limit before y condition) (hf : ∀ a, RunsAs source (f a) (g a)) :
    RunsAs source (x >>= f) (y >>= g) := by
  intro before log hvalid
  rw [runOn_bind, runOn_bind, hx before log hvalid]
  rcases hrun : runOn y before log with ⟨⟨outcome, after⟩, log'⟩
  cases outcome with
  | error error => rfl
  | ok a => exact hf a after log' (Steps.valid (hy before log _ _ _ hrun).1 hvalid)

theorem bind_left {f : α → TransferM β} (hx : RunsAs source x y) : RunsAs source (x >>= f) (y >>= f) := by
  intro before log hvalid
  rw [runOn_bind, runOn_bind, hx before log hvalid]

theorem resolved_bind {found : Except IndexError α} {f g : α → TransferM β}
    (hf : ∀ a, found = .ok a → RunsAs source (f a) (g a)) :
    RunsAs source (resolved found >>= f) (resolved found >>= g) := by
  cases found with
  | error error => exact .refl _
  | ok a => exact hf a rfl

theorem lift_bind {note : Logged α} {f g : α → TransferM β} (hf : ∀ a, RunsAs source (f a) (g a)) :
    RunsAs source ((liftM note : TransferM α) >>= f) ((liftM note : TransferM α) >>= g) := by
  intro before log hvalid
  rw [runOn_bind, runOn_bind]
  exact hf _ before _ hvalid

theorem remember {index : Index} {build build' : TransferM Constant} (h : RunsAs source build build') :
    RunsAs source (TransferM.remember index build) (TransferM.remember index build') := by
  intro before log hvalid
  rw [TransferM.remember, TransferM.remember, runOn_bind, runOn_bind, runOn_get]
  dsimp only
  cases before.transferred[index]? with
  | some known => rfl
  | none => exact h.bind_left before log hvalid

end RunsAs

section

variable {again : Index → TransferM Index}

theorem runsAs_handedOn {α : Type} {found : Except IndexError α} {index : Index}
    (h : ∀ a, found = .ok a → RunsAs source (again index) (constant source index)) :
    RunsAs source (handedOn again found index) (handedOn (constant source) found index) := by
  rw [handedOn, handedOn, discard_resolved, discard_resolved]
  exact .resolved_bind h

theorem runsAs_handleTargetBy {index : Index}
    (h : source.Fulfils (.memberRef, index) → RunsAs source (again index) (constant source index)) :
    RunsAs source (handleTargetBy again source index) (handleTargetBy (constant source) source index) := by
  rw [handleTargetBy, handleTargetBy]
  refine .resolved_bind fun found hget => ?_
  cases found with
  | member kind ownerIndex signatureIndex => exact h ⟨_, hget, kind, rfl⟩
  | _ => exact .refl _

/-- What is rebuilt depends on the further calls only for references that are fulfilled. -/
theorem runsAs_rebuiltBy {index : Index} {found : Constant}
    (h : ∀ reference ∈ found.references, source.Fulfils reference →
      RunsAs source (again reference.2) (constant source reference.2)) :
    RunsAs source (rebuiltBy again source index found) (rebuiltBy (constant source) source index found) := by
  have htext : ∀ name, (.entry .utf8, name) ∈ found.references →
      RunsAs source (handedOn again (source.text name) name)
        (handedOn (constant source) (source.text name) name) :=
    fun name hmem => runsAs_handedOn fun _ hok => h _ hmem (Pool.fulfils_of_text hok)
  have howner : ∀ owner, (.entry .classInfo, owner) ∈ found.references →
      RunsAs source (handedOn again (source.className owner) owner)
        (handedOn (constant source) (source.className owner) owner) :=
    fun owner hmem => runsAs_handedOn fun _ hok => h _ hmem (Pool.fulfils_of_className hok)
  have hsignature : ∀ signature, (.entry .nameAndType, signature) ∈ found.references →
      RunsAs source (handedOn again (source.nameAndType signature) signature)
        (handedOn (constant source) (source.nameAndType signature) signature) :=
    fun signature hmem => runsAs_handedOn fun _ hok => h _ hmem (Pool.fulfils_of_nameAndType hok)
  cases found with
  | named kind name => exact (htext name (by simp [Constant.references])).bind_left
  | member kind ownerIndex signatureIndex =>
    refine (howner ownerIndex (by simp [Constant.references])).bind
      (fun before => owner_eq ownerIndex ▸ ensures_owner Nat.one_lt_two ownerIndex) fun _ => ?_
    exact (hsignature signatureIndex (by simp [Constant.references])).bind_left
  | nameAndType name descriptor =>
    refine (htext name (by simp [Constant.references])).bind
      (fun before => text_eq name ▸ ensures_text Nat.one_pos name) fun _ => ?_
    exact (htext descriptor (by simp [Constant.references])).bind_left
  | methodHandle kind target =>
    exact (runsAs_handleTargetBy (h (.memberRef, target) (by simp [Constant.references]))).bind_left
  | dynamic kind bootstrap signatureIndex =>
    exact .lift_bind fun _ => (hsignature signatureIndex (by simp [Constant.references])).bind_left
  | _ => exact .refl _

/-- One call runs as the transfer of its index when the further calls do for the fulfilled references. -/
theorem runsAs_constantBy {index : Index}
    (h : ∀ found, source.get index = .ok found → ∀ reference ∈ found.references, source.Fulfils reference →
      RunsAs source (again reference.2) (constant source reference.2)) :
    RunsAs source (constantBy again source index) (constant source index) := by
  cases hget : source.get index with
  | error error =>
    intro before log hvalid
    -- an index that leads nowhere has not been transferred, so it is looked up in both
    have hnew : before.transferred[index]? = none := by
      cases hplace : before.transferred[index]? with
      | none => rfl
      | some place =>
        obtain ⟨found, hfound⟩ := (hvalid.alike index place hplace).source_get
        rw [hget] at hfound
        cases hfound
    rw [constantBy, constant, hget, TransferM.remember, runOn_bind, runOn_get]
    dsimp only
    rw [hnew]
    rfl
  | ok found =>
    rw [constant_eq hget, constantBy, hget]
    exact .remember (runsAs_rebuiltBy (h found hget))

end

/-- As many calls as the depth of an entry asks for are enough, whatever would be done instead of a further one. -/
theorem runsAs_constantWithin (otherwise : Index → TransferM Index) {calls : Nat} {index : Index}
    (hdepth : ∀ found, source.get index = .ok found → found.depth ≤ calls) :
    RunsAs source (constantWithin source otherwise (calls + 1) index) (constant source index) := by
  induction calls generalizing index with
  | zero =>
    refine runsAs_constantBy fun found hget reference hmem ⟨next, _, hadmits⟩ => ?_
    have hless := Constant.depth_lt_of_admits hmem hadmits
    have hbound := hdepth found hget
    omega
  | succ calls ih =>
    refine runsAs_constantBy fun found hget reference hmem ⟨next, hnext, hadmits⟩ => ih fun again hagain => ?_
    rw [hnext] at hagain
    cases hagain
    have hless := Constant.depth_lt_of_admits hmem hadmits
    have hbound := hdepth found hget
    omega

end ClassGraft.TransferM
