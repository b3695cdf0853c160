import ClassGraft.Proofs.Transfer.Constant
import ClassGraft.Transfer.Method
import Mathlib.Data.List.Forall2

/-!
# Transfer of methods

What a transferred method keeps and where its indices lead (`TransferM.ensures_method`): attributes are kept in order
when they can be carried over at their level, under their names, and the indices in them have been carried over.
-/

namespace ClassGraft

namespace ParsedAttribute

/-- Whether an attribute of a code attribute can be carried over. -/
def keptInCode : ParsedAttribute → Bool
  | .code _ _ _ _ => false
  | .raw _ name _ => name = "LineNumberTable" || (Layout.ofCodeAttribute? name).isSome

/-- Whether an attribute of a method can be carried over. -/
def keptInMethod : ParsedAttribute → Bool
  | .code _ _ _ _ => true
  | .raw _ name _ => name = "Deprecated" || name = "Synthetic" || (Layout.ofMethodAttribute? name).isSome

end ParsedAttribute

namespace TransferM

open Transfer

variable {source : Pool} {limit : Nat} {before after : Transfer}

/-! ### What is carried over -/

/-- The slots of a template have been carried over, giving some bytes. -/
def TemplateCarried {ε : Type} (transfer : Transfer) (template : Template ε) (bytes : Bytes) : Prop :=
  (∃ leftOver, template.outcome = .ok leftOver) ∧
    ∃ parts, template.pieces.Forall₂ (PieceCarried transfer) parts ∧ bytes = parts.flatten

/-- Contents have been carried over: by a layout if there is one, and as they are otherwise. -/
def InfoCarried (transfer : Transfer) (layout : Option Layout) (info info' : Bytes) : Prop :=
  match layout with
  | none => info' = info
  | some layout => TemplateCarried transfer (layout.template info) info'

/-- An index of the target leads to a text. -/
def Leads (transfer : Transfer) (text : String) (index : Index) : Prop :=
  transfer.target.pool.get index = .ok (.utf8 (.ofText text))

/-- An attribute that is kept as bytes has been carried over. -/
structure RawCarried (transfer : Transfer) (layout : Option Layout) (name : String) (info : Bytes)
    (entry : Attribute) : Prop where
  name : Leads transfer name entry.nameIndex
  info : InfoCarried transfer layout info entry.info

/-- An exception handler has been carried over. -/
structure HandlerCarried (transfer : Transfer) (handler handler' : ExceptionHandler) : Prop where
  startPc : handler'.startPc = handler.startPc
  endPc : handler'.endPc = handler.endPc
  handlerPc : handler'.handlerPc = handler.handlerPc
  catchType : handler.catchType = 0 ∧ handler'.catchType = 0 ∨
    handler.catchType ≠ 0 ∧ transfer.transferred[handler.catchType]? = some handler'.catchType

/-- An attribute of a code attribute has been carried over. -/
inductive CodeAttributeCarried (transfer : Transfer) : ParsedAttribute → Attribute → Prop
  | raw {nameIndex : Index} {name : String} {info : Bytes} {entry : Attribute}
      (h : RawCarried transfer (Layout.ofCodeAttribute? name) name info entry) :
      CodeAttributeCarried transfer (.raw nameIndex name info) entry

/-- The contents of a code attribute have been carried over. -/
structure CodeCarried (transfer : Transfer) (body : CodeBody) (attributes : List ParsedAttribute) (code : Code) :
    Prop where
  maxStack : code.maxStack = body.maxStack
  maxLocals : code.maxLocals = body.maxLocals
  instructions : TemplateCarried transfer (Instruction.template body.code) code.code
  handlers : body.handlers.Forall₂ (HandlerCarried transfer) code.handlers
  attributes : (attributes.filter ParsedAttribute.keptInCode).Forall₂ (CodeAttributeCarried transfer) code.attributes

/-- An attribute of a method has been carried over. -/
inductive MethodAttributeCarried (transfer : Transfer) : ParsedAttribute → Attribute → Prop
  | raw {nameIndex : Index} {name : String} {info : Bytes} {entry : Attribute}
      (h : RawCarried transfer (Layout.ofMethodAttribute? name) name info entry) :
      MethodAttributeCarried transfer (.raw nameIndex name info) entry
  | code {nameIndex : Index} {declaredLength : Nat} {body : CodeBody} {attributes : List ParsedAttribute} {code : Code}
      {entry : Attribute} (hname : Leads transfer codeName entry.nameIndex) (hinfo : entry.info = code.bytes)
      (hcode : CodeCarried transfer body attributes code) :
      MethodAttributeCarried transfer (.code nameIndex declaredLength body attributes) entry

/-- A method has been carried over, with those of its attributes that can be. -/
structure MethodCarried (source : Pool) (transfer : Transfer) (method : ParsedMethod) (member : Method) : Prop where
  accessFlags : member.accessFlags = method.accessFlags
  name : transfer.Carried source (.entry .utf8) method.nameIndex member.nameIndex
  descriptor : transfer.Carried source (.entry .utf8) method.descriptorIndex member.descriptorIndex
  attributes :
    (method.attributes.filter ParsedAttribute.keptInMethod).Forall₂ (MethodAttributeCarried transfer) member.attributes

/-! ### Further steps keep it -/

theorem TemplateCarried.mono {ε : Type} {template : Template ε} {bytes : Bytes}
    (h : TemplateCarried before template bytes) (hsteps : Steps source limit before after) :
    TemplateCarried after template bytes := by
  obtain ⟨houtcome, parts, hparts, hbytes⟩ := h
  exact ⟨houtcome, parts, hparts.imp fun _ _ hpiece => hpiece.mono hsteps, hbytes⟩

theorem InfoCarried.mono {layout : Option Layout} {info info' : Bytes} (h : InfoCarried before layout info info')
    (hsteps : Steps source limit before after) : InfoCarried after layout info info' := by
  cases layout with
  | none => exact h
  | some layout => exact TemplateCarried.mono h hsteps

theorem RawCarried.mono {layout : Option Layout} {name : String} {info : Bytes} {entry : Attribute}
    (h : RawCarried before layout name info entry) (hvalid : before.Valid source)
    (hsteps : Steps source limit before after) : RawCarried after layout name info entry where
  name := Steps.get hsteps hvalid h.name
  info := h.info.mono hsteps

theorem HandlerCarried.mono {handler handler' : ExceptionHandler} (h : HandlerCarried before handler handler')
    (hsteps : Steps source limit before after) : HandlerCarried after handler handler' where
  startPc := h.startPc
  endPc := h.endPc
  handlerPc := h.handlerPc
  catchType := h.catchType.imp_right fun ⟨hnonzero, hplace⟩ => ⟨hnonzero, Steps.place hsteps hplace⟩

theorem CodeAttributeCarried.mono {parsed : ParsedAttribute} {entry : Attribute}
    (h : CodeAttributeCarried before parsed entry) (hvalid : before.Valid source)
    (hsteps : Steps source limit before after) : CodeAttributeCarried after parsed entry := by
  cases h with
  | raw h => exact .raw (h.mono hvalid hsteps)

theorem CodeCarried.mono {body : CodeBody} {attributes : List ParsedAttribute} {code : Code}
    (h : CodeCarried before body attributes code) (hvalid : before.Valid source)
    (hsteps : Steps source limit before after) : CodeCarried after body attributes code where
  maxStack := h.maxStack
  maxLocals := h.maxLocals
  instructions := h.instructions.mono hsteps
  handlers := h.handlers.imp fun _ _ hhandler => hhandler.mono hsteps
  attributes := h.attributes.imp fun _ _ hattribute => hattribute.mono hvalid hsteps

theorem MethodAttributeCarried.mono {parsed : ParsedAttribute} {entry : Attribute}
    (h : MethodAttributeCarried before parsed entry) (hvalid : before.Valid source)
    (hsteps : Steps source limit before after) : MethodAttributeCarried after parsed entry := by
  cases h with
  | raw h => exact .raw (h.mono hvalid hsteps)
  | code hname hinfo hcode => exact .code (Steps.get hsteps hvalid hname) hinfo (hcode.mono hvalid hsteps)

/-! ### Postconditions -/

theorem ensures_instructions (code : Bytes) :
    Ensures source 4 before (instructions source code) fun bytes after =>
      TemplateCarried after (Instruction.template code) bytes :=
  .map ((ensures_template _ _).imp fun _ _ _ ⟨houtcome, hparts⟩ => ⟨⟨_, houtcome⟩, hparts⟩)

theorem ensures_contents (name : String) (layout : Layout) (info : Bytes) :
    Ensures source 4 before (contents source name layout info) fun bytes after =>
      TemplateCarried after (layout.template info) bytes := by
  rw [contents]
  refine (ensures_template _ _).bind fun result after _ hresult => ?_
  obtain ⟨bytes, leftOver⟩ := result
  have hcarried : TemplateCarried after (layout.template info) bytes := ⟨⟨leftOver, hresult.1⟩, hresult.2⟩
  cases leftOver with
  | nil => exact .pure hcarried
  | cons => exact .lift_bind fun _ => .pure hcarried

/-- The names of attributes that can be carried over are short enough to be stored. -/
theorem storable_of_kept {name : String}
    (h : name ∈ ["Code", "Deprecated", "Synthetic", "LineNumberTable"] ∨ (Layout.ofMethodAttribute? name).isSome ∨
      (Layout.ofCodeAttribute? name).isSome) : (Constant.utf8 (.ofText name)).Storable := by
  refine ⟨Constant.genuine_ofText name, ?_⟩
  rcases h with hmem | hmethod | hcode
  · simp only [List.mem_cons, List.not_mem_nil, or_false] at hmem
    rcases hmem with rfl | rfl | rfl | rfl <;> decide +kernel
  · unfold Layout.ofMethodAttribute? at hmethod
    split at hmethod
    all_goals first
      | decide +kernel
      | cases hmethod
  · unfold Layout.ofCodeAttribute? at hcode
    split at hcode
    all_goals first
      | decide +kernel
      | cases hcode

theorem ensures_finish (hvalid : before.Valid source) {name : String}
    (hstorable : (Constant.utf8 (.ofText name)).Storable) (info : Bytes) :
    Ensures source limit before (finish name info) fun entry after =>
      Leads after name entry.nameIndex ∧ entry.info = info :=
  (Ensures.intern_name hvalid hstorable).bind fun _ _ _ hname => .pure ⟨hname, rfl⟩

/-- Contents of a known layout are carried over and put under their name. -/
theorem ensures_rewritten (hvalid : before.Valid source) {name : String}
    (hstorable : (Constant.utf8 (.ofText name)).Storable) (layout : Layout) (info : Bytes) :
    Ensures source 4 before (do return some (← finish name (← contents source name layout info))) fun found after =>
      ∃ entry, found = some entry ∧ RawCarried after (some layout) name info entry := by
  refine (ensures_contents name layout info).bind fun bytes middle hfirst hbytes => ?_
  refine (ensures_finish (Steps.valid hfirst hvalid) hstorable bytes).bind fun entry after hsteps hentry => ?_
  obtain ⟨hname, rfl⟩ := hentry
  exact .pure ⟨entry, rfl, hname, hbytes.mono hsteps⟩

theorem ensures_handler (handler : ExceptionHandler) :
    Ensures source 4 before (TransferM.handler source handler) fun handler' after =>
      HandlerCarried after handler handler' :=
  (ensures_optional handler.catchType).bind fun _ _ _ hcatch => .pure ⟨rfl, rfl, rfl, hcatch⟩

theorem ensures_codeAttribute (hvalid : before.Valid source) (parsed : ParsedAttribute) :
    Ensures source 4 before (codeAttribute source parsed) fun found after =>
      found.isSome = parsed.keptInCode ∧ ∀ entry, found = some entry → CodeAttributeCarried after parsed entry := by
  cases parsed with
  | code nameIndex declaredLength body attributes =>
    exact .lift_bind fun _ => .pure ⟨rfl, fun _ hentry => by cases hentry⟩
  | raw nameIndex name info =>
    rw [codeAttribute]
    by_cases hlines : name = "LineNumberTable"
    · subst hlines
      rw [if_pos rfl]
      have hstorable : (Constant.utf8 (.ofText "LineNumberTable")).Storable := storable_of_kept (by simp)
      refine (ensures_finish hvalid hstorable info).bind fun entry after _ hentry => .pure ⟨rfl, fun _ heq => ?_⟩
      cases heq
      exact .raw ⟨hentry.1, hentry.2⟩
    · rw [if_neg hlines]
      cases hlayout : Layout.ofCodeAttribute? name with
      | none =>
        refine .lift_bind fun _ => .pure ⟨?_, fun _ heq => by cases heq⟩
        simp [ParsedAttribute.keptInCode, hlines, hlayout]
      | some layout =>
        have hstorable : (Constant.utf8 (.ofText name)).Storable := storable_of_kept (.inr (.inr (hlayout ▸ rfl)))
        refine (ensures_rewritten hvalid hstorable layout info).imp fun found after _ hfound => ?_
        obtain ⟨entry, rfl, hentry⟩ := hfound
        refine ⟨by simp [ParsedAttribute.keptInCode, hlayout], fun _ heq => ?_⟩
        cases heq
        exact .raw (hlayout ▸ hentry)

theorem ensures_code (hvalid : before.Valid source) (body : CodeBody) (attributes : List ParsedAttribute) :
    Ensures source 4 before (TransferM.code source body attributes) fun code after =>
      CodeCarried after body attributes code := by
  rw [TransferM.code]
  refine (ensures_instructions body.code).bind fun instructions first hfirst hinstructions => ?_
  refine (Ensures.mapM (fun _ _ _ _ _ hsteps h => h.mono hsteps) fun handler _ after _ =>
    ensures_handler handler).bind fun handlers second hsecond hhandlers => ?_
  have hvalid := Steps.valid hsecond (Steps.valid hfirst hvalid)
  refine (Ensures.filterMapM (fun _ _ _ _ hbefore hsteps h => h.mono (Steps.valid hbefore hvalid) hsteps)
    fun one _ after hsteps => ensures_codeAttribute (Steps.valid hsteps hvalid) one).bind
    fun entries after hthird hentries => .pure ?_
  exact {
    maxStack := rfl
    maxLocals := rfl
    instructions := hinstructions.mono (hsecond.trans hthird)
    handlers := hhandlers.imp fun _ _ hhandler => hhandler.mono hthird
    attributes := hentries }

theorem ensures_methodAttribute (hvalid : before.Valid source) (parsed : ParsedAttribute) :
    Ensures source 4 before (methodAttribute source parsed) fun found after =>
      found.isSome = parsed.keptInMethod ∧
        ∀ entry, found = some entry → MethodAttributeCarried after parsed entry := by
  cases parsed with
  | code nameIndex declaredLength body attributes =>
    refine (ensures_code hvalid body attributes).bind fun code middle hfirst hcode => ?_
    have hvalid := Steps.valid hfirst hvalid
    have hstorable : (Constant.utf8 (.ofText codeName)).Storable := storable_of_kept (by simp [codeName])
    refine (ensures_finish hvalid hstorable code.bytes).bind fun entry after hsteps hentry =>
      .pure ⟨rfl, fun _ heq => ?_⟩
    cases heq
    exact .code hentry.1 hentry.2 (hcode.mono hvalid hsteps)
  | raw nameIndex name info =>
    rw [methodAttribute]
    by_cases hmark : (name = "Deprecated" || name = "Synthetic") = true
    · rw [if_pos hmark]
      have hstorable : (Constant.utf8 (.ofText name)).Storable := by
        rw [Bool.or_eq_true, decide_eq_true_eq, decide_eq_true_eq] at hmark
        rcases hmark with rfl | rfl <;> exact storable_of_kept (by simp)
      refine (ensures_finish hvalid hstorable info).bind fun entry after _ hentry => .pure ⟨?_, fun _ heq => ?_⟩
      · rw [ParsedAttribute.keptInMethod, hmark]
        rfl
      · cases heq
        refine .raw ⟨hentry.1, ?_⟩
        rw [Bool.or_eq_true, decide_eq_true_eq, decide_eq_true_eq] at hmark
        rcases hmark with rfl | rfl <;> exact hentry.2
    · rw [if_neg hmark]
      rw [Bool.not_eq_true] at hmark
      cases hlayout : Layout.ofMethodAttribute? name with
      | none =>
        refine .lift_bind fun _ => .pure ⟨?_, fun _ heq => by cases heq⟩
        rw [ParsedAttribute.keptInMethod, hmark, hlayout]
        rfl
      | some layout =>
        have hstorable : (Constant.utf8 (.ofText name)).Storable := storable_of_kept (.inr (.inl (hlayout ▸ rfl)))
        refine (ensures_rewritten hvalid hstorable layout info).imp fun found after _ hfound => ?_
        obtain ⟨entry, rfl, hentry⟩ := hfound
        refine ⟨?_, fun _ heq => ?_⟩
        · rw [ParsedAttribute.keptInMethod, hmark, hlayout]
          rfl
        · cases heq
          exact .raw (hlayout ▸ hentry)

/-- Transferring a method keeps its header and, in order, those of its attributes that can be carried over. -/
theorem ensures_method (hvalid : before.Valid source) (parsed : ParsedMethod) :
    Ensures source 4 before (method source parsed) fun member after => MethodCarried source after parsed member := by
  rw [method]
  refine (ensures_text (by decide) parsed.nameIndex).bind fun nameIndex first hfirst hname => ?_
  refine (ensures_text (by decide) parsed.descriptorIndex).bind fun descriptorIndex second hsecond hdescriptor => ?_
  have hvalid := Steps.valid hsecond (Steps.valid hfirst hvalid)
  refine (Ensures.filterMapM (fun _ _ _ _ hbefore hsteps h => h.mono (Steps.valid hbefore hvalid) hsteps)
    fun one _ after hsteps => ensures_methodAttribute (Steps.valid hsteps hvalid) one).bind
    fun entries after hthird hentries => ?_
  refine .get_bind (.lift_bind fun _ => .pure ?_)
  exact ⟨rfl, hname.mono (hsecond.trans hthird), hdescriptor.mono hthird, hentries⟩

end TransferM

end ClassGraft
