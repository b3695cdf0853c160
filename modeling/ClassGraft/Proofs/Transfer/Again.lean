import ClassGraft.Proofs.Transfer.Ensures
import ClassGraft.Transfer.Method

/-!
# Transfers done again

What a transfer has added to its target is found there when the same is transferred a second time, even if the target
has grown further in between: an index that was given for a constant is the first one with its bytes, and the first one
stays the first.  So the second transfer gives what the first one gave and adds nothing (`TransferM.retraces_method`).
In particular a method that has been carried over into a pool is carried over into the pool that came of it by giving
the same method and the same pool (`TransferM.method_again`).
-/

namespace ClassGraft

/-- A second transfer, into a target that has reached its final pool, is as far as a first one. -/
structure Transfer.Follows (final : Pool) (first second : Transfer) : Prop where
  pool : second.target.pool = final
  sound : second.target.Sound
  places : ∀ index : Index, second.transferred[index]? = first.transferred[index]?

namespace TransferM

open Transfer

/-- When a computation succeeds, its result satisfies a condition, and when it is done again, by a transfer that was as
far as the first one into a pool that extends the one which the first one left, it gives the same and adds nothing. -/
def Retraces {α : Type} (x : TransferM α) (condition : α → Prop) : Prop :=
  ∀ before log a after log', before.target.Sound → runOn x before log = ((.ok a, after), log') →
    condition a ∧ after.target.Sound ∧ after.target.pool.Extends before.target.pool ∧
      ∀ final second log'', Pool.Extends final after.target.pool → Follows final before second →
        ∃ second', (runOn x second log'').1 = (.ok a, second') ∧ Follows final after second'

namespace Retraces

variable {α β : Type} {x : TransferM α} {condition : α → Prop} {result : β → Prop}

theorem pure {a : α} (h : condition a) : Retraces (Pure.pure a) condition := by
  intro before log b after log' hsound hrun
  cases hrun
  exact ⟨h, hsound, .refl _, fun final second log'' _ hfollows => ⟨second, rfl, hfollows⟩⟩

theorem throw (error : TransferError) : Retraces (MonadExcept.throw error) condition := by
  intro before log b after log' hsound hrun
  cases hrun

theorem bind {f : α → TransferM β} (hx : Retraces x condition) (hf : ∀ a, condition a → Retraces (f a) result) :
    Retraces (x >>= f) result := by
  intro before log b after log' hsound hrun
  rw [runOn_bind] at hrun
  rcases hfirst : runOn x before log with ⟨⟨_ | a, between⟩, middle⟩
  · rw [hfirst] at hrun
    cases hrun
  · rw [hfirst] at hrun
    obtain ⟨ha, hbetween, hextends, hagain⟩ := hx before log a between middle hsound hfirst
    obtain ⟨hb, hafter, hextends', hagain'⟩ := hf a ha between middle b after log' hbetween hrun
    refine ⟨hb, hafter, hextends'.trans hextends, fun final second log'' hfinal hfollows => ?_⟩
    -- the final pool extends the one in between as well, so the first part is done again before the second
    obtain ⟨second', hsecond, hfollows'⟩ := hagain final second log'' (hfinal.trans hextends') hfollows
    rcases hrun' : runOn x second log'' with ⟨outcome, middle'⟩
    rw [hrun'] at hsecond
    subst hsecond
    rw [runOn_bind, hrun']
    exact hagain' final second' middle' hfinal hfollows'

theorem map {f : α → β} (hx : Retraces x condition) (h : ∀ a, condition a → result (f a)) :
    Retraces (f <$> x) result := by
  rw [map_eq_pure_bind]
  exact hx.bind fun a ha => .pure (h a ha)

/-- What is noted before does not matter, and need not be the same. -/
theorem of_noted {y : TransferM α} (h : Retraces y condition)
    (hnoted : ∀ transfer log, ∃ longer, runOn x transfer log = runOn y transfer longer) : Retraces x condition := by
  intro before log a after log' hsound hrun
  obtain ⟨longer, hlonger⟩ := hnoted before log
  rw [hlonger] at hrun
  obtain ⟨ha, hafter, hextends, hagain⟩ := h before longer a after log' hsound hrun
  refine ⟨ha, hafter, hextends, fun final second log'' hfinal hfollows => ?_⟩
  obtain ⟨longer', hlonger'⟩ := hnoted second log''
  rw [hlonger']
  exact hagain final second longer' hfinal hfollows

theorem note_bind {severity : Severity} {message : String} {y : TransferM β} (h : Retraces y result) :
    Retraces ((liftM (note severity message) : TransferM Unit) >>= fun _ => y) result :=
  h.of_noted fun transfer log => ⟨_, runOn_bind _ _ transfer log⟩

theorem get_note_bind {severity : Severity} {message : Transfer → String} {y : TransferM β} (h : Retraces y result) :
    Retraces (get >>= fun transfer => (liftM (note severity (message transfer)) : TransferM Unit) >>= fun _ => y)
      result :=
  h.of_noted fun transfer log => ⟨log.push ⟨severity, message transfer⟩, rfl⟩

/-- Both transfers have a place for an index, which is the same, or neither of them has. -/
theorem remembered_or {index : Index} {y : TransferM Index} (h : Retraces y fun _ => True) :
    Retraces (get >>= fun transfer => match transfer.transferred[index]? with
      | some known => return known
      | none => y) fun _ => True := by
  intro before log new after log' hsound hrun
  rw [runOn_bind, runOn_get] at hrun
  dsimp only at hrun
  cases hknown : before.transferred[index]? with
  | some known =>
    rw [hknown] at hrun
    cases hrun
    refine ⟨trivial, hsound, .refl _, fun final second log'' _ hfollows => ⟨second, ?_, hfollows⟩⟩
    rw [runOn_bind, runOn_get]
    dsimp only
    rw [hfollows.places, hknown]
    rfl
  | none =>
    rw [hknown] at hrun
    obtain ⟨hnew, hafter, hextends, hagain⟩ := h before log new after log' hsound hrun
    refine ⟨hnew, hafter, hextends, fun final second log'' hfinal hfollows => ?_⟩
    rw [runOn_bind, runOn_get]
    dsimp only
    rw [hfollows.places, hknown]
    exact hagain final second log'' hfinal hfollows

/-- Both transfers remember the same place. -/
theorem insert (index new : Index) :
    Retraces (do
      modify fun transfer : Transfer => { transfer with transferred := transfer.transferred.insert index new }
      return new) fun _ => True := by
  intro before log b after log' hsound hrun
  rw [runOn_bind, runOn_modify] at hrun
  cases hrun
  refine ⟨trivial, hsound, .refl _, fun final second log'' _ hfollows => ⟨_, rfl, hfollows.pool, hfollows.sound, ?_⟩⟩
  intro i
  rw [Std.HashMap.getElem?_insert, Std.HashMap.getElem?_insert, hfollows.places]

theorem resolved_bind {found : Except IndexError α} {f : α → TransferM β}
    (h : ∀ a, found = .ok a → Retraces (f a) result) : Retraces (resolved found >>= f) result := by
  cases found with
  | error error => exact .throw _
  | ok a => exact h a rfl

theorem discard_resolved_bind {found : Except IndexError α} {y : TransferM β} (h : Retraces y result) :
    Retraces (discard (resolved found) >>= fun _ => y) result := by
  rw [discard_resolved]
  exact resolved_bind fun _ _ => h

theorem mapM {f : α → TransferM β} (h : ∀ a, Retraces (f a) fun _ => True) (as : List α) :
    Retraces (as.mapM f) fun _ => True := by
  induction as with
  | nil => exact .pure trivial
  | cons a as ih =>
    rw [List.mapM_cons]
    exact (h a).bind fun _ _ => ih.bind fun _ _ => .pure trivial

theorem filterMapM {f : α → TransferM (Option β)} (h : ∀ a, Retraces (f a) fun _ => True) (as : List α) :
    Retraces (as.filterMapM f) fun _ => True := by
  induction as with
  | nil => exact .pure trivial
  | cons a as ih =>
    rw [List.filterMapM_cons]
    refine (h a).bind fun found _ => ?_
    cases found with
    | none => exact ih
    | some b => exact ih.bind fun _ _ => .pure trivial

end Retraces

/-! ### Constants -/

/-- A constant is found where it was put. -/
theorem retraces_intern {constant : Constant} (h : constant.Genuine) :
    Retraces (intern constant) fun _ => True := by
  intro before log index after log' hsound hrun
  rw [runOn_intern] at hrun
  rcases hintern : (Interner.intern constant).run.run before.target with ⟨_ | given, target⟩
  · rw [hintern] at hrun
    cases hrun
  · rw [hintern] at hrun
    cases hrun
    obtain ⟨htarget, hextends, -⟩ := hsound.intern h hintern
    refine ⟨trivial, htarget, hextends, fun final second log'' hfinal hfollows => ⟨second, ?_, ?_⟩⟩
    · -- the index is that of the first entry with these bytes, before which nothing can be added
      have hindex := htarget.firstIndex_of_extends hfollows.sound (hfollows.pool ▸ hfinal)
        (Interner.firstIndex_of_intern hintern)
      rw [runOn_intern, Interner.run_intern, hindex]
      rfl
    · exact ⟨hfollows.pool, hfollows.sound, hfollows.places⟩

theorem retraces_remember {index : Index} {build : TransferM Constant} (hbuild : Retraces build Constant.Genuine) :
    Retraces (remember index build) fun _ => True := by
  refine .remembered_or (hbuild.bind fun constant hgenuine => ?_)
  exact (retraces_intern hgenuine).bind fun new _ => .insert index new

variable {source : Pool} (hsource : source.WellFormed)

include hsource

theorem retraces_text (index : Index) : Retraces (text source index) fun _ => True := by
  rw [text]
  refine .resolved_bind fun constant hget => ?_
  cases constant with
  | utf8 stored => exact retraces_remember (.pure (hsource.genuine hget))
  | _ => exact .throw _

theorem retraces_named (index : Index) (kind : NamedKind) (name : Index) :
    Retraces (named source index kind name) fun _ => True :=
  retraces_remember ((retraces_text hsource name).bind fun _ _ => .pure trivial)

theorem retraces_nameAndType (index name descriptor : Index) :
    Retraces (nameAndType source index name descriptor) fun _ => True :=
  retraces_remember
    ((retraces_text hsource name).bind fun _ _ => (retraces_text hsource descriptor).bind fun _ _ => .pure trivial)

theorem retraces_owner (index : Index) : Retraces (owner source index) fun _ => True := by
  rw [owner]
  refine .discard_resolved_bind (.resolved_bind fun constant _ => ?_)
  cases constant with
  | named kind name => exact retraces_named hsource index kind name
  | _ => exact .throw _

theorem retraces_signature (index : Index) : Retraces (signature source index) fun _ => True := by
  rw [signature]
  refine .discard_resolved_bind (.resolved_bind fun constant _ => ?_)
  cases constant with
  | nameAndType name descriptor => exact retraces_nameAndType hsource index name descriptor
  | _ => exact .throw _

theorem retraces_member (index : Index) (kind : MemberKind) (ownerIndex signatureIndex : Index) :
    Retraces (member source index kind ownerIndex signatureIndex) fun _ => True :=
  retraces_remember ((retraces_owner hsource ownerIndex).bind fun _ _ =>
    (retraces_signature hsource signatureIndex).bind fun _ _ => .pure trivial)

theorem retraces_handleTarget (index : Index) : Retraces (handleTarget source index) fun _ => True := by
  rw [handleTarget]
  refine .resolved_bind fun constant _ => ?_
  cases constant with
  | member kind ownerIndex signatureIndex => exact retraces_member hsource index kind ownerIndex signatureIndex
  | _ => exact .throw _

theorem retraces_dynamic (index : Index) (kind : DynamicKind) (bootstrap : UInt16) (signatureIndex : Index) :
    Retraces (dynamic source index kind bootstrap signatureIndex) fun _ => True :=
  retraces_remember (.note_bind ((retraces_signature hsource signatureIndex).bind fun _ _ => .pure trivial))

/-- Every entry is found where it was put. -/
theorem retraces_constant (index : Index) : Retraces (constant source index) fun _ => True := by
  rw [constant]
  refine .resolved_bind fun found hget => ?_
  cases found with
  | named kind name => exact retraces_named hsource index kind name
  | member kind ownerIndex signatureIndex => exact retraces_member hsource index kind ownerIndex signatureIndex
  | nameAndType name descriptor => exact retraces_nameAndType hsource index name descriptor
  | methodHandle kind target =>
    exact retraces_remember ((retraces_handleTarget hsource target).bind fun _ _ => .pure trivial)
  | dynamic kind bootstrap signatureIndex => exact retraces_dynamic hsource index kind bootstrap signatureIndex
  | _ => exact retraces_remember (.pure (hsource.genuine hget))

theorem retraces_optional (index : Index) : Retraces (optional source index) fun _ => True := by
  rw [optional]
  by_cases hzero : index = 0
  · rw [if_pos hzero]
    exact .pure trivial
  · rw [if_neg hzero]
    exact retraces_constant hsource index

/-! ### Templates -/

theorem retraces_slot (place : Slot) : Retraces (slot source place) fun _ => True := by
  cases place with
  | narrow offset index =>
    refine (retraces_constant hsource index.toUInt16).bind fun new _ => ?_
    by_cases hlarge : 255 < new
    · rw [if_pos hlarge]
      exact .throw _
    · rw [if_neg hlarge]
      exact .pure trivial
  | wide index => exact (retraces_constant hsource index).map fun _ _ => trivial
  | optional index => exact (retraces_optional hsource index).map fun _ _ => trivial

theorem retraces_piece (piece : Piece) : Retraces (TransferM.piece source piece) fun _ => True := by
  cases piece with
  | fixed bytes => exact .pure trivial
  | slot place => exact retraces_slot hsource place

theorem retraces_template {ε : Type} (wrap : ε → TransferError) (template : Template ε) :
    Retraces (TransferM.template source wrap template) fun _ => True := by
  rw [TransferM.template]
  refine (Retraces.mapM (retraces_piece hsource) _).bind fun _ _ => ?_
  cases template.outcome with
  | error stop => exact .throw _
  | ok leftOver => exact .pure trivial

theorem retraces_instructions (code : Bytes) : Retraces (instructions source code) fun _ => True :=
  (retraces_template hsource _ _).map fun _ _ => trivial

theorem retraces_contents (name : String) (layout : Layout) (info : Bytes) :
    Retraces (contents source name layout info) fun _ => True := by
  rw [contents]
  refine (retraces_template hsource _ _).bind fun result _ => ?_
  obtain ⟨bytes, leftOver⟩ := result
  cases leftOver with
  | nil => exact .pure trivial
  | cons => exact .note_bind (.pure trivial)

/-! ### Methods -/

omit hsource in
theorem retraces_finish (name : String) (info : Bytes) : Retraces (finish name info) fun _ => True :=
  (retraces_intern (Constant.genuine_ofText name)).bind fun _ _ => .pure trivial

private theorem retraces_rewritten (name : String) (layout : Layout) (info : Bytes) :
    Retraces (do return some (← finish name (← contents source name layout info))) fun _ => True :=
  (retraces_contents hsource name layout info).bind fun _ _ => (retraces_finish name _).bind fun _ _ => .pure trivial

theorem retraces_handler (handler : ExceptionHandler) :
    Retraces (TransferM.handler source handler) fun _ => True :=
  (retraces_optional hsource handler.catchType).bind fun _ _ => .pure trivial

theorem retraces_codeAttribute (parsed : ParsedAttribute) :
    Retraces (codeAttribute source parsed) fun _ => True := by
  cases parsed with
  | code nameIndex declaredLength body attributes => exact .note_bind (.pure trivial)
  | raw nameIndex name info =>
    rw [codeAttribute]
    by_cases hlines : name = "LineNumberTable"
    · rw [if_pos hlines]
      exact (retraces_finish name info).bind fun _ _ => .pure trivial
    · rw [if_neg hlines]
      cases Layout.ofCodeAttribute? name with
      | none => exact .note_bind (.pure trivial)
      | some layout => exact retraces_rewritten hsource name layout info

theorem retraces_code (body : CodeBody) (attributes : List ParsedAttribute) :
    Retraces (TransferM.code source body attributes) fun _ => True := by
  rw [TransferM.code]
  refine (retraces_instructions hsource body.code).bind fun _ _ => ?_
  refine (Retraces.mapM (retraces_handler hsource) _).bind fun _ _ => ?_
  exact (Retraces.filterMapM (retraces_codeAttribute hsource) _).bind fun _ _ => .pure trivial

theorem retraces_methodAttribute (parsed : ParsedAttribute) :
    Retraces (methodAttribute source parsed) fun _ => True := by
  cases parsed with
  | code nameIndex declaredLength body attributes =>
    exact (retraces_code hsource body attributes).bind fun _ _ => (retraces_finish _ _).bind fun _ _ => .pure trivial
  | raw nameIndex name info =>
    rw [methodAttribute]
    by_cases hmark : (name = "Deprecated" || name = "Synthetic") = true
    · rw [if_pos hmark]
      exact (retraces_finish name info).bind fun _ _ => .pure trivial
    · rw [if_neg hmark]
      cases Layout.ofMethodAttribute? name with
      | none => exact .note_bind (.pure trivial)
      | some layout => exact retraces_rewritten hsource name layout info

/-- What a method needs is found where it was put. -/
theorem retraces_method (parsed : ParsedMethod) : Retraces (method source parsed) fun _ => True := by
  rw [method]
  refine (retraces_text hsource parsed.nameIndex).bind fun _ _ => ?_
  refine (retraces_text hsource parsed.descriptorIndex).bind fun _ _ => ?_
  refine (Retraces.filterMapM (retraces_methodAttribute hsource) _).bind fun _ _ => ?_
  exact .get_note_bind (.pure trivial)

/-- A method that has been carried over into a pool is carried over into the pool that came of it, with nothing to be
added. -/
theorem method_again {target : Pool} (htarget : target.WellFormed) {parsed : ParsedMethod} {copied : Method}
    {after : Transfer} {log log' : Log}
    (h : runOn (method source parsed) (.into target) log = ((.ok copied, after), log')) (log'' : Log) :
    (runOn (method source parsed) (.into after.target.pool) log'').1.1 = .ok copied ∧
      (runOn (method source parsed) (.into after.target.pool) log'').1.2.target.pool = after.target.pool := by
  obtain ⟨-, hafter, -, hagain⟩ :=
    retraces_method hsource parsed (.into target) log copied after log' (Interner.sound_ofPool htarget) h
  have hstart : Follows after.target.pool (.into target) (.into after.target.pool) :=
    ⟨rfl, Interner.sound_ofPool hafter.pool, fun _ => rfl⟩
  obtain ⟨second, hsecond, hfollows⟩ := hagain _ _ log'' (.refl _) hstart
  rw [hsecond]
  exact ⟨rfl, hfollows.pool⟩

end TransferM

end ClassGraft
