import ClassGraft.Proofs.Instruction
import ClassGraft.Proofs.Layout
import ClassGraft.Proofs.Method.Decoding
import ClassGraft.Proofs.Transfer.Method
import Mathlib.Data.List.Nodup

/-!
# Transfer of a pool into itself

When the target is the source and no two of its entries have the same bytes, every index is transferred to itself and
nothing is added (`TransferM.reproduces_constant`).  So instructions and the contents of attributes come out as they
were, and a method whose attributes are all copied whole is transferred to itself (`TransferM.reproduces_method`).
-/

namespace ClassGraft

/-- No two entries of a pool have the same bytes. -/
def Pool.Distinct (pool : Pool) : Prop :=
  ∀ i j c d, pool.get i = .ok c → pool.get j = .ok d → c.bytes = d.bytes → i = j

/-- It is enough that the encodings, listed in order, are different. -/
theorem Pool.WellFormed.distinct {pool : Pool} (h : pool.WellFormed)
    (hnodup : (pool.entries.map fun entry => entry.2.bytes).Nodup) : pool.Distinct := by
  intro i j c d hi hj hsame
  have hboth := List.inj_on_of_nodup_map hnodup ((mem_entries_iff h).2 hi) ((mem_entries_iff h).2 hj) hsame
  exact congrArg Prod.fst hboth

namespace ParsedAttribute

/-- The attributes nested in an attribute. -/
def nested : ParsedAttribute → List ParsedAttribute
  | .raw _ _ _ => []
  | .code _ _ _ attributes => attributes

/-- An attribute that a copy into the pool that names it does not change: it is kept, its name is stored in the shortest
form, and its layout, if it has one, leaves nothing of its contents over. -/
structure CopiedWhole (pool : Pool) (keeps : ParsedAttribute → Bool) (layoutOf? : String → Option Layout)
    (parsed : ParsedAttribute) : Prop where
  kept : keeps parsed = true
  plain : pool.get parsed.nameIndex = .ok (.utf8 (.ofText parsed.name))
  usedUp : ∀ layout leftOver, layoutOf? parsed.name = some layout →
    (layout.template parsed.info).outcome = .ok leftOver → leftOver = []

end ParsedAttribute

/-- A method all of whose attributes, at both levels, are copied whole. -/
def ParsedMethod.CopiedWhole (pool : Pool) (method : ParsedMethod) : Prop :=
  ∀ parsed ∈ method.attributes,
    parsed.CopiedWhole pool ParsedAttribute.keptInMethod Layout.ofMethodAttribute? ∧
      ∀ one ∈ parsed.nested, one.CopiedWhole pool ParsedAttribute.keptInCode Layout.ofCodeAttribute?

namespace Transfer

/-- The target is still the source, and every index transferred so far has itself as its place. -/
structure Itself (source : Pool) (transfer : Transfer) : Prop where
  target : transfer.target.pool = source
  sound : transfer.target.Sound
  places : ∀ index place : Index, transfer.transferred[index]? = some place → place = index

/-- An entry of the source is found where it is. -/
theorem Itself.firstIndex {source : Pool} {transfer : Transfer} (h : Itself source transfer)
    (hdistinct : source.Distinct) {index : Index} {constant : Constant} (hget : source.get index = .ok constant) :
    transfer.target.firstIndex[constant.bytes]? = some index := by
  have hhere : transfer.target.pool.get index = .ok constant := by rw [h.target, hget]
  obtain ⟨least, hleast, -⟩ := h.sound.first index constant hhere
  obtain ⟨found, hfound, hbytes⟩ := h.sound.named _ _ hleast
  rw [h.target] at hfound
  obtain rfl := hdistinct _ _ _ _ hfound hget hbytes
  exact hleast

theorem itself_into {source : Pool} (h : source.WellFormed) : (into source).Itself source where
  target := rfl
  sound := Interner.sound_ofPool h
  places index place hplace := by simp [into] at hplace

end Transfer

namespace TransferM

open Transfer

/-- As long as the target is the source, a computation that succeeds gives a certain result, and the target stays the
source. -/
def Reproduces {α : Type} (source : Pool) (x : TransferM α) (a : α) : Prop :=
  ∀ before, Itself source before → Leaves x before (fun _ => True) fun b after => b = a ∧ Itself source after

namespace Reproduces

variable {α β : Type} {source : Pool} {x : TransferM α} {a : α}

theorem pure (a : α) : Reproduces source (Pure.pure a) a :=
  fun _ h => .pure trivial ⟨rfl, h⟩

theorem throw (error : TransferError) (a : α) : Reproduces source (MonadExcept.throw error) a :=
  fun _ _ => .throw trivial

theorem bind {f : α → TransferM β} {b : β} (hx : Reproduces source x a) (hf : Reproduces source (f a) b) :
    Reproduces source (x >>= f) b := by
  intro before h
  refine (hx before h).bind fun found after _ hfound => ?_
  obtain ⟨rfl, hafter⟩ := hfound
  exact hf after hafter

theorem map {f : α → β} (hx : Reproduces source x a) : Reproduces source (f <$> x) (f a) := by
  rw [map_eq_pure_bind]
  exact hx.bind (.pure _)

theorem lift_bind {note : Logged α} {f : α → TransferM β} {b : β} (h : ∀ a, Reproduces source (f a) b) :
    Reproduces source ((liftM note : TransferM α) >>= f) b :=
  fun before hbefore => .lift_bind fun found => h found before hbefore

/-- Looking something up in the source changes nothing. -/
theorem resolved_bind {found : Except IndexError α} {f : α → TransferM β} {b : β}
    (h : ∀ a, found = .ok a → Reproduces source (f a) b) : Reproduces source (resolved found >>= f) b := by
  cases found with
  | error error => exact .throw _ _
  | ok a => exact h a rfl

theorem discard_resolved_bind {found : Except IndexError α} {f : Unit → TransferM β} {b : β}
    (h : ∀ a, found = .ok a → Reproduces source (f ()) b) : Reproduces source (discard (resolved found) >>= f) b := by
  rw [discard_resolved]
  exact resolved_bind h

theorem mapM {f : α → TransferM β} {g : α → β} {as : List α} (h : ∀ a ∈ as, Reproduces source (f a) (g a)) :
    Reproduces source (as.mapM f) (as.map g) := by
  induction as with
  | nil => exact .pure _
  | cons a as ih =>
    rw [List.mapM_cons]
    exact (h a List.mem_cons_self).bind ((ih fun b hb => h b (List.mem_cons_of_mem _ hb)).bind (.pure _))

theorem filterMapM {f : α → TransferM (Option β)} {g : α → β} {as : List α}
    (h : ∀ a ∈ as, Reproduces source (f a) (some (g a))) : Reproduces source (as.filterMapM f) (as.map g) := by
  induction as with
  | nil => exact .pure _
  | cons a as ih =>
    rw [List.filterMapM_cons]
    exact (h a List.mem_cons_self).bind ((ih fun b hb => h b (List.mem_cons_of_mem _ hb)).bind (.pure _))

end Reproduces

variable {source : Pool} (hdistinct : source.Distinct)

include hdistinct

/-! ### Constants -/

theorem reproduces_intern {index : Index} {constant : Constant} (hget : source.get index = .ok constant) :
    Reproduces source (intern constant) index := by
  intro before h log outcome after log' hrun
  rw [runOn_intern, Interner.run_intern, h.firstIndex hdistinct hget] at hrun
  cases hrun
  refine ⟨trivial, fun place hplace => ?_⟩
  cases hplace
  exact ⟨rfl, h⟩

/-- An index is remembered as itself when its entry is built up again. -/
theorem reproduces_remember {index : Index} {constant : Constant} {build : TransferM Constant}
    (hget : source.get index = .ok constant) (hbuild : Reproduces source build constant) :
    Reproduces source (remember index build) index := by
  intro before h
  rw [remember]
  refine .get_bind ?_
  cases hknown : before.transferred[index]? with
  | some known => exact .pure trivial ⟨h.places _ _ hknown, h⟩
  | none =>
    -- What is built up is the entry at the index, so it is found there again.
    refine (hbuild before h).bind fun built middle _ hbuilt => ?_
    obtain ⟨rfl, hmiddle⟩ := hbuilt
    refine (reproduces_intern hdistinct hget middle hmiddle).bind fun new after _ hnew => ?_
    obtain ⟨rfl, hafter⟩ := hnew
    refine .modify_bind (.pure trivial ⟨rfl, hafter.target, hafter.sound, fun i place hplace => ?_⟩)
    rw [Std.HashMap.getElem?_insert] at hplace
    split at hplace
    · rename_i hindex
      cases hplace
      exact beq_iff_eq.1 hindex
    · exact hafter.places i place hplace

theorem reproduces_text (index : Index) : Reproduces source (text source index) index := by
  rw [text]
  refine .resolved_bind fun constant hget => ?_
  cases constant with
  | utf8 stored => exact reproduces_remember hdistinct hget (.pure _)
  | _ => exact .throw _ _

theorem reproduces_named {index name : Index} {kind : NamedKind} (hget : source.get index = .ok (.named kind name)) :
    Reproduces source (named source index kind name) index :=
  reproduces_remember hdistinct hget ((reproduces_text hdistinct name).bind (.pure _))

theorem reproduces_nameAndType {index name descriptor : Index}
    (hget : source.get index = .ok (.nameAndType name descriptor)) :
    Reproduces source (nameAndType source index name descriptor) index :=
  reproduces_remember hdistinct hget
    ((reproduces_text hdistinct name).bind ((reproduces_text hdistinct descriptor).bind (.pure _)))

theorem reproduces_owner (index : Index) : Reproduces source (owner source index) index := by
  rw [owner]
  refine .discard_resolved_bind fun _ _ => .resolved_bind fun constant hget => ?_
  cases constant with
  | named kind name => exact reproduces_named hdistinct hget
  | _ => exact .throw _ _

theorem reproduces_signature (index : Index) : Reproduces source (signature source index) index := by
  rw [signature]
  refine .discard_resolved_bind fun _ _ => .resolved_bind fun constant hget => ?_
  cases constant with
  | nameAndType name descriptor => exact reproduces_nameAndType hdistinct hget
  | _ => exact .throw _ _

theorem reproduces_member {index ownerIndex signatureIndex : Index} {kind : MemberKind}
    (hget : source.get index = .ok (.member kind ownerIndex signatureIndex)) :
    Reproduces source (member source index kind ownerIndex signatureIndex) index :=
  reproduces_remember hdistinct hget
    ((reproduces_owner hdistinct ownerIndex).bind ((reproduces_signature hdistinct signatureIndex).bind (.pure _)))

theorem reproduces_handleTarget (index : Index) : Reproduces source (handleTarget source index) index := by
  rw [handleTarget]
  refine .resolved_bind fun constant hget => ?_
  cases constant with
  | member kind ownerIndex signatureIndex => exact reproduces_member hdistinct hget
  | _ => exact .throw _ _

theorem reproduces_dynamic {index signatureIndex : Index} {kind : DynamicKind} {bootstrap : UInt16}
    (hget : source.get index = .ok (.dynamic kind bootstrap signatureIndex)) :
    Reproduces source (dynamic source index kind bootstrap signatureIndex) index :=
  reproduces_remember hdistinct hget
    (.lift_bind fun _ => (reproduces_signature hdistinct signatureIndex).bind (.pure _))

/-- Every index is transferred to itself. -/
theorem reproduces_constant (index : Index) : Reproduces source (constant source index) index := by
  rw [constant]
  refine .resolved_bind fun found hget => ?_
  cases found with
  | named kind name => exact reproduces_named hdistinct hget
  | member kind ownerIndex signatureIndex => exact reproduces_member hdistinct hget
  | nameAndType name descriptor => exact reproduces_nameAndType hdistinct hget
  | methodHandle kind target =>
    exact reproduces_remember hdistinct hget ((reproduces_handleTarget hdistinct target).bind (.pure _))
  | dynamic kind bootstrap signatureIndex => exact reproduces_dynamic hdistinct hget
  | _ => exact reproduces_remember hdistinct hget (.pure _)

theorem reproduces_optional (index : Index) : Reproduces source (optional source index) index := by
  rw [optional]
  by_cases hzero : index = 0
  · rw [if_pos hzero, hzero]
    exact .pure _
  · rw [if_neg hzero]
    exact reproduces_constant hdistinct index

/-! ### Templates -/

theorem reproduces_slot (place : Slot) : Reproduces source (slot source place) place.bytes := by
  cases place with
  | narrow offset index =>
    refine (reproduces_constant hdistinct index.toUInt16).bind ?_
    by_cases hlarge : 255 < index.toUInt16
    · rw [if_pos hlarge]
      exact .throw _ _
    · rw [if_neg hlarge, Slot.bytes]
      have hback : index.toUInt16.toUInt8 = index := by simp
      rw [hback]
      exact .pure _
  | wide index => exact .map (reproduces_constant hdistinct index)
  | optional index => exact .map (reproduces_optional hdistinct index)

theorem reproduces_piece (piece : Piece) : Reproduces source (TransferM.piece source piece) piece.bytes := by
  cases piece with
  | fixed bytes => exact .pure _
  | slot place => exact reproduces_slot hdistinct place

/-- Transferring a template that was read to its end gives its bytes. -/
theorem reproduces_template {ε : Type} (wrap : ε → TransferError) {template : Template ε} {bytes leftOver : Bytes}
    (h : ∀ found, template.outcome = .ok found → template.bytes = bytes ∧ found = leftOver) :
    Reproduces source (TransferM.template source wrap template) (bytes, leftOver) := by
  rw [TransferM.template]
  refine (Reproduces.mapM fun piece _ => reproduces_piece hdistinct piece).bind ?_
  cases houtcome : template.outcome with
  | error stop => exact .throw _ _
  | ok found =>
    obtain ⟨rfl, rfl⟩ := h found houtcome
    rw [Template.bytes, List.flatMap_def]
    exact .pure _

theorem reproduces_instructions (code : Bytes) : Reproduces source (instructions source code) code := by
  have htemplate : Reproduces source (TransferM.template source .bytecode (Instruction.template code)) (code, []) := by
    refine reproduces_template hdistinct .bytecode fun leftOver houtcome => ⟨Instruction.bytes_template houtcome, ?_⟩
    dsimp only [Instruction.template] at houtcome
    split at houtcome
    · cases houtcome
    · cases houtcome
      rfl
  exact htemplate.map

/-- Contents that their layout uses up are transferred to themselves. -/
theorem reproduces_contents (name : String) {layout : Layout} {info : Bytes}
    (h : ∀ leftOver, (layout.template info).outcome = .ok leftOver → leftOver = []) :
    Reproduces source (contents source name layout info) info := by
  have htemplate :
      Reproduces source (TransferM.template source (.malformed name) (layout.template info)) (info, []) := by
    refine reproduces_template hdistinct (.malformed name) fun leftOver houtcome => ?_
    obtain rfl := h leftOver houtcome
    have hbytes := Layout.template_bytes houtcome
    rw [List.append_nil] at hbytes
    exact ⟨hbytes, rfl⟩
  exact htemplate.bind (.pure _)

/-! ### Methods -/

theorem reproduces_finish {index : Index} {name : String} (hname : source.get index = .ok (.utf8 (.ofText name)))
    (info : Bytes) : Reproduces source (finish name info) ⟨index, info⟩ :=
  (reproduces_intern hdistinct hname).bind (.pure _)

/-- An attribute with a layout is transferred to itself. -/
private theorem reproduces_rewritten {index : Index} {name : String}
    (hname : source.get index = .ok (.utf8 (.ofText name))) {layout : Layout} {info : Bytes}
    (h : ∀ leftOver, (layout.template info).outcome = .ok leftOver → leftOver = []) :
    Reproduces source (do return some (← finish name (← contents source name layout info))) (some ⟨index, info⟩) :=
  (reproduces_contents hdistinct name h).bind ((reproduces_finish hdistinct hname info).bind (.pure _))

theorem reproduces_handler (handler : ExceptionHandler) :
    Reproduces source (TransferM.handler source handler) handler :=
  (reproduces_optional hdistinct handler.catchType).bind (.pure _)

theorem reproduces_codeAttribute {parsed : ParsedAttribute}
    (h : parsed.CopiedWhole source ParsedAttribute.keptInCode Layout.ofCodeAttribute?) :
    Reproduces source (codeAttribute source parsed) (some parsed.toAttribute) := by
  cases parsed with
  | code nameIndex declaredLength body attributes => cases h.kept
  | raw nameIndex name info =>
    rw [codeAttribute]
    by_cases hlines : name = "LineNumberTable"
    · rw [if_pos hlines]
      exact (reproduces_finish hdistinct h.plain info).bind (.pure _)
    · rw [if_neg hlines]
      cases hlayout : Layout.ofCodeAttribute? name with
      | none =>
        have hkept := h.kept
        simp [ParsedAttribute.keptInCode, hlines, hlayout] at hkept
      | some layout => exact reproduces_rewritten hdistinct h.plain fun leftOver => h.usedUp layout leftOver hlayout

theorem reproduces_code (body : CodeBody) {attributes : List ParsedAttribute}
    (h : ∀ one ∈ attributes, one.CopiedWhole source ParsedAttribute.keptInCode Layout.ofCodeAttribute?) :
    Reproduces source (TransferM.code source body attributes)
      ⟨body, attributes.map ParsedAttribute.toAttribute⟩ := by
  rw [TransferM.code]
  refine (reproduces_instructions hdistinct body.code).bind ?_
  have hhandlers : Reproduces source (body.handlers.mapM (handler source)) (body.handlers.map id) :=
    Reproduces.mapM fun one _ => reproduces_handler hdistinct one
  rw [List.map_id] at hhandlers
  refine hhandlers.bind ?_
  exact (Reproduces.filterMapM fun one hmem => reproduces_codeAttribute hdistinct (h one hmem)).bind (.pure _)

theorem reproduces_methodAttribute {parsed : ParsedAttribute}
    (h : parsed.CopiedWhole source ParsedAttribute.keptInMethod Layout.ofMethodAttribute?)
    (hnested : ∀ one ∈ parsed.nested, one.CopiedWhole source ParsedAttribute.keptInCode Layout.ofCodeAttribute?) :
    Reproduces source (methodAttribute source parsed) (some parsed.toAttribute) := by
  cases parsed with
  | code nameIndex declaredLength body attributes =>
    rw [ParsedAttribute.nested] at hnested
    have hinfo := @ParsedAttribute.info_code ⟨body, attributes.map ParsedAttribute.toAttribute⟩ attributes rfl nameIndex
      declaredLength
    rw [ParsedAttribute.toAttribute, hinfo]
    exact (reproduces_code hdistinct body hnested).bind ((reproduces_finish hdistinct h.plain _).bind (.pure _))
  | raw nameIndex name info =>
    rw [methodAttribute]
    by_cases hmark : (name = "Deprecated" || name = "Synthetic") = true
    · rw [if_pos hmark]
      exact (reproduces_finish hdistinct h.plain info).bind (.pure _)
    · rw [if_neg hmark]
      cases hlayout : Layout.ofMethodAttribute? name with
      | none =>
        have hkept := h.kept
        rw [Bool.not_eq_true] at hmark
        rw [ParsedAttribute.keptInMethod, hmark, hlayout] at hkept
        cases hkept
      | some layout => exact reproduces_rewritten hdistinct h.plain fun leftOver => h.usedUp layout leftOver hlayout

/-- A method whose attributes are copied whole is transferred to itself. -/
theorem reproduces_method {parsed : ParsedMethod} (h : parsed.CopiedWhole source) :
    Reproduces source (method source parsed) parsed.toMethod := by
  rw [method]
  refine (reproduces_text hdistinct parsed.nameIndex).bind ((reproduces_text hdistinct parsed.descriptorIndex).bind ?_)
  refine (Reproduces.filterMapM fun one hmem =>
    reproduces_methodAttribute hdistinct (h one hmem).1 (h one hmem).2).bind ?_
  exact fun before hbefore => .get_bind (.lift_bind fun _ => .pure trivial ⟨rfl, hbefore⟩)

end TransferM

end ClassGraft
