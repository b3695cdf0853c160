import ClassGraft.Patch
import ClassGraft.Proofs.Alignment.Steady
import ClassGraft.Proofs.Codec.ClassFile
import ClassGraft.Proofs.Method.Parsing
import ClassGraft.Proofs.MethodTable

/-!
# Stages of a patch

A patch that succeeds has gone through all stages of its mode, and what each of them gave does not depend on what had
been noted before.  `Patched` lists these stages mode by mode, together with the change that they make to the methods of
the target, and `patched_of_applyPatch` finds them in a run.  From then on no run has to be taken apart.
-/

namespace ClassGraft

/-- A recomputer whose bytes, whenever it gives some, are those that it was given. -/
def FrameRecomputer.GivesBack (recompute : FrameRecomputer) : Prop :=
  ∀ bytes log frames, ((recompute bytes).run.run log).1 = .ok frames → frames = bytes

/-- Leaving the frames alone gives back the bytes. -/
theorem FrameRecomputer.givesBack_unchanged (allowStale : Bool) : (unchanged allowStale).GivesBack := by
  intro bytes log frames h
  unfold unchanged at h
  rw [run_lift_bind] at h
  split at h
  · cases h
  · dsimp only at h
    split at h
    · split at h
      · obtain ⟨_, _, -, h⟩ := exists_run_of_bind h
        obtain ⟨_, _, -, h⟩ := exists_run_of_bind h
        cases h
        rfl
      · obtain ⟨_, _, hthrow, -⟩ := exists_run_of_bind h
        cases hthrow
    · obtain ⟨_, _, -, h⟩ := exists_run_of_bind h
      cases h
      rfl

/-! ### Changes of methods -/

/-- What a patch does to the methods of a class: it edits one of them, or it adds one at the end and may remove another
one for it. -/
inductive MethodChange where
  | edit (position : Nat) (method : Method)
  | add (removed? : Option Nat) (method : Method)

namespace MethodChange

/-- The methods after a change. -/
def apply (methods : List Method) : MethodChange → List Method
  | edit position method => methods.set position method
  | add removed? method => removed?.elim methods methods.eraseIdx ++ [method]

/-- The position, before the change, of the method that is edited or removed. -/
def touched? : MethodChange → Option Nat
  | edit position _ => some position
  | add removed? _ => removed?

/-- The method that is edited or added, as it is after the change. -/
def method : MethodChange → Method
  | edit _ method => method
  | add _ method => method

/-- The position, after the change, of the method that is edited or added. -/
def place (methods : List Method) : MethodChange → Nat
  | edit position _ => position
  | add removed? _ => (removed?.elim methods methods.eraseIdx).length

theorem mem_apply {methods : List Method} {change : MethodChange} {method : Method}
    (h : method ∈ change.apply methods) : method ∈ methods ∨ method = change.method := by
  cases change with
  | edit position edited =>
    rcases List.mem_or_eq_of_mem_set h with hold | hnew
    · exact .inl hold
    · exact .inr hnew
  | add removed? added =>
    rcases List.mem_append.1 h with hold | hnew
    · refine .inl ?_
      cases removed? with
      | none => exact hold
      | some position => exact List.mem_of_mem_eraseIdx hold
    · exact .inr (List.mem_singleton.1 hnew)

end MethodChange

/-! ### What the stages give -/

theorem Hex.steady_decode (reading : HexReading) (text : String) : Steady (Hex.decode reading text).run := by
  cases reading with
  | lenient => exact .bind_except (.lift (.noteAll _ _)) fun _ => .pure _
  | strict => exact .pure _

/-- The stages of a successful patch: what it reports, the pool that the class has afterwards, and the change that it
makes to the methods of the target. -/
inductive Patched (request : PatchRequest) (target : ClassFile) : PatchedMethod → Pool → MethodChange → Prop
  | direct {patched : Bytes} {patch : ParsedMethod} {removed? : Option Nat} (hmode : request.mode = .direct)
      (hpatched : Returns (Hex.decode request.reading request.patchedHex) patched)
      (hpatch : Returns (ParsedMethod.parse target.pool .lenient patched) patch)
      (hremoved : target.findMethod? patch.name patch.descriptor = removed?)
      (hneeded : (patch.hasCode || AccessFlags.haveNoCode patch.accessFlags) = true) :
      Patched request target ⟨patch.name, patch.descriptor, removed?.isSome⟩ target.pool
        (.add removed? patch.toMethod)
  | reference {patched file : Bytes} {reference : ClassFile} {patch : ParsedMethod} {log log' : Log} {method : Method}
      {after : Transfer} {removed? : Option Nat} (hmode : request.mode = .reference file)
      (hpatched : Returns (Hex.decode request.reading request.patchedHex) patched)
      (hreference : Returns (ClassFile.parse file) reference)
      (hpatch : Returns (ParsedMethod.parse reference.pool .lenient patched) patch)
      (hcopied : runOn (TransferM.method reference.pool patch) (.into target.pool) log = ((.ok method, after), log'))
      (hremoved : { target with pool := after.target.pool }.findMethod? patch.name patch.descriptor = removed?)
      (hneeded : (patch.hasCode || AccessFlags.haveNoCode patch.accessFlags) = true) :
      Patched request target ⟨patch.name, patch.descriptor, removed?.isSome⟩ after.target.pool (.add removed? method)
  | differential {baseHex : String} {patched base aligned : Bytes} {outcome : Except AlignmentError AlignmentReport}
      {described patch : ParsedMethod} {position : Nat} {method : Method} {code : ParsedAttribute}
      (hmode : request.mode = .differential baseHex)
      (hpatched : Returns (Hex.decode request.reading request.patchedHex) patched)
      (hbase : Returns (Hex.decode request.reading baseHex) base)
      (haligned : Gives (align target.pool patched base) (outcome, aligned))
      (hdescribed : Returns (ParsedMethod.parse target.pool .strict base) described)
      (hpatch : Returns (ParsedMethod.parse target.pool .lenient aligned) patch)
      (hposition : target.findMethod? described.name described.descriptor = some position)
      (hmethod : target.methods[position]? = some method) (hcode : patch.codeAttribute? = some code) :
      Patched request target ⟨described.name, described.descriptor, true⟩ target.pool
        (.edit position (method.withCode target.pool code.toAttribute))

namespace Patched

variable {request : PatchRequest} {target : ClassFile} {reported : PatchedMethod} {pool : Pool} {change : MethodChange}

/-- The method that is edited or removed is the one found under the reported name and descriptor, with the pool that the
class has afterwards. -/
theorem findMethod?_eq (h : Patched request target reported pool change) :
    { target with pool := pool }.findMethod? reported.name reported.descriptor = change.touched? := by
  cases h with
  | direct _ _ _ hremoved _ => exact hremoved
  | reference _ _ _ _ _ hremoved _ => exact hremoved
  | differential _ _ _ _ _ _ hposition => exact hposition

theorem replaced_eq (h : Patched request target reported pool change) :
    reported.replaced = change.touched?.isSome := by
  cases h <;> rfl

end Patched

/-! ### Runs of stages -/

private theorem ok_of_stage {ε α : Type} {wrap : ε → PatchError} {x : LoggedExcept ε α} {a : α} {log : Log}
    (h : ((stage wrap x).run.run log).1 = .ok a) : (x.run.run log).1 = .ok a := by
  have hmapped : ((x.run.run log).1.mapError wrap) = .ok a := h
  cases hresult : (x.run.run log).1 with
  | error error =>
    rw [hresult] at hmapped
    cases hmapped
  | ok found =>
    rw [hresult] at hmapped
    cases hmapped
    rfl

theorem steady_stage {ε α : Type} {wrap : ε → PatchError} {x : LoggedExcept ε α} (hx : Steady x.run) :
    Steady (stage wrap x).run :=
  fun log log' => congrArg (Except.mapError wrap) (hx log log')

/-- A stage returns what it is put around returns. -/
theorem returns_stage_iff {ε α : Type} {wrap : ε → PatchError} {x : LoggedExcept ε α} {a : α} :
    Returns (stage wrap x) a ↔ Returns x a :=
  ⟨fun h log => ok_of_stage (h log), fun h log => congrArg (Except.mapError wrap) (h log)⟩

/-- A stage that is steady returns something when what follows it succeeds. -/
private theorem exists_returns_of_stage {ε α β : Type} {wrap : ε → PatchError} {x : LoggedExcept ε α}
    {f : α → LoggedExcept PatchError β} (hx : Steady x.run) {b : β} {log : Log}
    (h : ((stage wrap x >>= f).run.run log).1 = .ok b) :
    ∃ a middle, Returns x a ∧ ((f a).run.run middle).1 = .ok b := by
  obtain ⟨a, middle, hstage, hrest⟩ := exists_run_of_bind h
  exact ⟨a, middle, hx.gives (ok_of_stage hstage), hrest⟩

/-- A method that is let through has code or needs none. -/
private theorem needed_of_requireCode {patch : ParsedMethod} {log : Log}
    (h : ((requireCode patch).run.run log).1 = .ok ()) :
    (patch.hasCode || AccessFlags.haveNoCode patch.accessFlags) = true := by
  unfold requireCode at h
  by_cases hneeded : (patch.hasCode || AccessFlags.haveNoCode patch.accessFlags) = true
  · exact hneeded
  · rw [if_neg hneeded] at h
    cases h

theorem bytes_of_alignNoting (pool : Pool) (patched base : Bytes) (log : Log) :
    ((alignNoting pool patched base).run log).1 = ((align pool patched base).run log).1.2 := by
  rcases hrun : (align pool patched base).run log with ⟨⟨outcome, aligned⟩, log'⟩
  rw [alignNoting, StateT.run_bind, hrun]
  cases outcome <;> rfl

theorem run_copyMethod (source : Pool) (method : ParsedMethod) (file : ClassFile) (log : Log) :
    (file.copyMethod source method).run log =
      (((runOn (TransferM.method source method) (.into file.pool) log).1.1,
        { file with pool := (runOn (TransferM.method source method) (.into file.pool) log).1.2.target.pool }),
        (runOn (TransferM.method source method) (.into file.pool) log).2) := rfl

/-! ### Runs of modes -/

variable {request : PatchRequest} {target : ClassFile} {patched : Bytes} {reported : PatchedMethod} {result : ClassFile}
  {log : Log}

private theorem patched_of_patchDirect (hmode : request.mode = .direct)
    (hpatched : Returns (Hex.decode request.reading request.patchedHex) patched)
    (h : ((patchDirect target patched).run.run log).1 = .ok (reported, result)) :
    ∃ pool change, Patched request target reported pool change ∧
      result = { target with pool := pool, methods := change.apply target.methods } := by
  rw [patchDirect] at h
  obtain ⟨patch, _, hpatch, h⟩ := exists_returns_of_stage (ParsedMethod.steady_parse _ _ _) h
  obtain ⟨_, middle, hrequired, h⟩ := exists_run_of_bind h
  rw [run_lift_bind, ClassFile.gives_addOrReplace target patch.name patch.descriptor patch.toMethod middle] at h
  cases h
  exact ⟨_, _, .direct hmode hpatched hpatch rfl (needed_of_requireCode hrequired), rfl⟩

private theorem patched_of_patchReference {file : Bytes} {reference : ClassFile}
    (hmode : request.mode = .reference file)
    (hpatched : Returns (Hex.decode request.reading request.patchedHex) patched)
    (hreference : Returns (ClassFile.parse file) reference)
    (h : ((patchReference target patched reference).run.run log).1 = .ok (reported, result)) :
    ∃ pool change, Patched request target reported pool change ∧
      result = { target with pool := pool, methods := change.apply target.methods } := by
  rw [patchReference] at h
  obtain ⟨patch, _, hpatch, h⟩ := exists_returns_of_stage (ParsedMethod.steady_parse _ _ _) h
  obtain ⟨_, middle, hrequired, h⟩ := exists_run_of_bind h
  rw [run_lift_bind, run_copyMethod] at h
  rcases hcopied : runOn (TransferM.method reference.pool patch) (.into target.pool) middle
    with ⟨⟨outcome, after⟩, log'⟩
  rw [hcopied] at h
  cases outcome with
  | error error => cases h
  | ok method =>
    dsimp only at h
    rw [run_lift_bind, ClassFile.gives_addOrReplace _ patch.name patch.descriptor method log'] at h
    cases h
    exact ⟨_, _, .reference hmode hpatched hreference hpatch hcopied rfl (needed_of_requireCode hrequired), rfl⟩

private theorem patched_of_patchDifferential {baseHex : String} {base : Bytes}
    (hmode : request.mode = .differential baseHex)
    (hpatched : Returns (Hex.decode request.reading request.patchedHex) patched)
    (hbase : Returns (Hex.decode request.reading baseHex) base)
    (h : ((patchDifferential target patched base).run.run log).1 = .ok (reported, result)) :
    ∃ pool change, Patched request target reported pool change ∧
      result = { target with pool := pool, methods := change.apply target.methods } := by
  rw [patchDifferential, run_lift_bind, bytes_of_alignNoting] at h
  have haligned : Gives (align target.pool patched base) ((align target.pool patched base).run log).1 :=
    (steady_align target.pool patched base).gives rfl
  obtain ⟨described, _, hdescribed, h⟩ := exists_returns_of_stage (ParsedMethod.steady_parse _ _ _) h
  obtain ⟨patch, _, hpatch, h⟩ := exists_returns_of_stage (ParsedMethod.steady_parse _ _ _) h
  cases hposition : target.findMethod? described.name described.descriptor with
  | none =>
    rw [hposition] at h
    cases h
  | some position =>
    rw [hposition] at h
    dsimp only at h
    rw [run_lift_bind] at h
    cases hmethod : target.methods[position]? with
    | none =>
      rw [hmethod] at h
      cases h
    | some method =>
      rw [hmethod] at h
      dsimp only at h
      rw [run_lift_bind, method.gives_replaceCode target.pool patch] at h
      cases hcode : patch.codeAttribute? with
      | none =>
        rw [hcode] at h
        cases h
      | some code =>
        rw [hcode] at h
        cases h
        exact ⟨_, _, .differential hmode hpatched hbase haligned hdescribed hpatch hposition hmethod hcode, rfl⟩

private theorem patched_of_patchClass (hpatched : Returns (Hex.decode request.reading request.patchedHex) patched)
    (h : ((patchClass request.mode request.reading target patched).run.run log).1 = .ok (reported, result)) :
    ∃ pool change, Patched request target reported pool change ∧
      result = { target with pool := pool, methods := change.apply target.methods } := by
  unfold patchClass at h
  cases hmode : request.mode with
  | direct =>
    rw [hmode] at h
    dsimp only at h
    rw [run_lift_bind] at h
    exact patched_of_patchDirect hmode hpatched h
  | reference file =>
    rw [hmode] at h
    dsimp only at h
    rw [run_lift_bind] at h
    obtain ⟨reference, _, hreference, h⟩ := exists_returns_of_stage (ClassFile.steady_parse _) h
    exact patched_of_patchReference hmode hpatched hreference h
  | differential baseHex =>
    rw [hmode] at h
    dsimp only at h
    rw [run_lift_bind] at h
    obtain ⟨base, _, hbase, h⟩ := exists_returns_of_stage (Hex.steady_decode _ _) h
    exact patched_of_patchDifferential hmode hpatched hbase h

private theorem patched_of_patchTarget {bytes : Bytes}
    (h : ((patchTarget request).run.run log).1 = .ok (reported, bytes)) :
    ∃ target pool change, Returns (ClassFile.parse request.target) target ∧
      Patched request target reported pool change ∧
      bytes = { target with pool := pool, methods := change.apply target.methods : ClassFile }.bytes := by
  rw [patchTarget] at h
  obtain ⟨patched, _, hpatched, h⟩ := exists_returns_of_stage (Hex.steady_decode _ _) h
  rw [run_lift_bind] at h
  obtain ⟨target, _, htarget, h⟩ := exists_returns_of_stage (ClassFile.steady_parse _) h
  dsimp only at h
  rw [run_lift_bind] at h
  obtain ⟨⟨method, result⟩, _, hclass, h⟩ := exists_run_of_bind h
  cases h
  obtain ⟨pool, change, hchange, rfl⟩ := patched_of_patchClass hpatched hclass
  exact ⟨target, pool, change, htarget, hchange, rfl⟩

/-- A patch that succeeds has gone through the stages of its mode, and its bytes are those that the recomputer gives for
the class with the methods as they are then. -/
theorem patched_of_applyPatch {recompute : FrameRecomputer} {outcome : PatchOutcome}
    (h : ((applyPatch recompute request).run.run log).1 = .ok outcome) :
    ∃ target pool change log', Returns (ClassFile.parse request.target) target ∧
      Patched request target outcome.method pool change ∧
      ((recompute { target with pool := pool, methods := change.apply target.methods : ClassFile }.bytes).run.run
        log').1 = .ok outcome.bytes := by
  rw [applyPatch] at h
  obtain ⟨⟨method, bytes⟩, _, htarget, h⟩ := exists_run_of_bind h
  obtain ⟨frames, _, hframes, h⟩ := exists_run_of_bind h
  have houtcome : outcome = ⟨frames, method⟩ := by
    unfold outcomeOf at h
    by_cases hempty : frames.isEmpty = true
    · rw [if_pos hempty] at h
      cases h
    · rw [if_neg hempty] at h
      dsimp only at h
      rw [run_lift_bind] at h
      cases h
      rfl
  obtain ⟨target, pool, change, hparsed, hpatched, rfl⟩ := patched_of_patchTarget htarget
  subst houtcome
  exact ⟨target, pool, change, _, hparsed, hpatched, ok_of_stage hframes⟩

/-- The bytes of a patched class are those of the target with the pool and the methods that the stages gave. -/
theorem bytes_of_applyPatch {recompute : FrameRecomputer} {outcome : PatchOutcome}
    (hrecompute : recompute.GivesBack) (h : ((applyPatch recompute request).run.run log).1 = .ok outcome) :
    ∃ target pool change, Returns (ClassFile.parse request.target) target ∧
      Patched request target outcome.method pool change ∧
      outcome.bytes = { target with pool := pool, methods := change.apply target.methods : ClassFile }.bytes := by
  obtain ⟨target, pool, change, log', htarget, hpatched, hbytes⟩ := patched_of_applyPatch h
  exact ⟨target, pool, change, htarget, hpatched, hrecompute _ _ _ hbytes⟩

end ClassGraft
