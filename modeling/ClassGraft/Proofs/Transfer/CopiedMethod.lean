import ClassGraft.Proofs.Instruction
import ClassGraft.Proofs.Method.Parsing
import ClassGraft.Proofs.Transfer.Calls

/-!
# Transferred methods are parsed back

A method that was parsed against the source and transferred is parsed strictly against the target, without a warning,
and what is parsed is the method that was given: it keeps the header, the attributes that can be carried over with their
names, the sizes, ranges and lengths of code attributes, and the contents of attributes without indices.
-/

namespace ClassGraft

/-- The names of attributes whose contents are transferred as they are. -/
def verbatimNames : List String := ["Deprecated", "Synthetic", "LineNumberTable"]

section

variable (source target : Pool)

/-- An exception handler has its range, and a catch type that is zero or leads to an equal entry. -/
structure HandlerKept (handler handler' : ExceptionHandler) : Prop where
  startPc : handler'.startPc = handler.startPc
  endPc : handler'.endPc = handler.endPc
  handlerPc : handler'.handlerPc = handler.handlerPc
  catchZero : handler'.catchType = 0 ↔ handler.catchType = 0
  catchAlike : handler.catchType ≠ 0 → source.Alike target handler.catchType handler'.catchType

/-- An attribute that is kept as bytes has its name, and its contents where they hold no index. -/
inductive RawKept : ParsedAttribute → ParsedAttribute → Prop
  | intro {nameIndex nameIndex' : Index} {name : String} {info info' : Bytes}
      (hinfo : name ∈ verbatimNames → info' = info) : RawKept (.raw nameIndex name info) (.raw nameIndex' name info')

/-- A code attribute has its sizes, its length, its handlers and those of its attributes that can be carried over. -/
structure CodeKept (body body' : CodeBody) (attributes attributes' : List ParsedAttribute) : Prop where
  maxStack : body'.maxStack = body.maxStack
  maxLocals : body'.maxLocals = body.maxLocals
  length : body'.code.length = body.code.length
  handlers : body.handlers.Forall₂ (HandlerKept source target) body'.handlers
  attributes : (attributes.filter ParsedAttribute.keptInCode).Forall₂ RawKept attributes'

/-- An attribute of a method is kept as bytes or as a code attribute. -/
inductive AttributeKept : ParsedAttribute → ParsedAttribute → Prop
  | raw {parsed parsed' : ParsedAttribute} (h : RawKept parsed parsed') : AttributeKept parsed parsed'
  | code {nameIndex nameIndex' : Index} {declaredLength declaredLength' : Nat} {body body' : CodeBody}
      {attributes attributes' : List ParsedAttribute} (h : CodeKept source target body body' attributes attributes') :
      AttributeKept (.code nameIndex declaredLength body attributes)
        (.code nameIndex' declaredLength' body' attributes')

/-- A method has its header, and those of its attributes that can be carried over. -/
structure MethodKept (method method' : ParsedMethod) : Prop where
  accessFlags : method'.accessFlags = method.accessFlags
  name : method'.name = method.name
  descriptor : method'.descriptor = method.descriptor
  attributes : (method.attributes.filter ParsedAttribute.keptInMethod).Forall₂ (AttributeKept source target)
    method'.attributes

end

namespace TransferM

open Transfer ParsedAttribute

variable {source : Pool} {after : Transfer}

/-! ### Parts of a method -/

theorem HandlerCarried.kept {handler handler' : ExceptionHandler} (h : HandlerCarried after handler handler')
    (hvalid : after.Valid source) : HandlerKept source after.target.pool handler handler' := by
  rcases h.catchType with ⟨hzero, hzero'⟩ | ⟨hnonzero, hplace⟩
  · exact ⟨h.startPc, h.endPc, h.handlerPc, by rw [hzero, hzero'], fun hne => absurd hzero hne⟩
  · exact ⟨h.startPc, h.endPc, h.handlerPc, iff_of_false (hvalid.place_ne_zero hplace) hnonzero,
      fun _ => hvalid.alike _ _ hplace⟩

/-- Transferring a code array keeps its length. -/
theorem length_of_instructions {code bytes : Bytes} (h : TemplateCarried after (Instruction.template code) bytes) :
    bytes.length = code.length := by
  obtain ⟨⟨leftOver, houtcome⟩, parts, hparts, rfl⟩ := h
  rw [length_of_pieces hparts]
  exact congrArg List.length (Instruction.bytes_template houtcome)

theorem Leads.text {text : String} {index : Index} (h : Leads after text index) :
    after.target.pool.text index = .ok text :=
  Pool.text_eq_ok_iff.2 ⟨_, h, rfl⟩

/-- An attribute that is kept as bytes is parsed back as it was put together. -/
theorem RawCarried.kept {layout : Option Layout} {name : String} {info : Bytes} {entry : Attribute}
    (h : RawCarried after layout name info entry) (hlayout : name ∈ verbatimNames → layout = none)
    (hne : name ≠ codeName) (hfits : entry.Fits) (nameIndex : Index) :
    ∃ result : ParsedAttribute, result.toAttribute = entry ∧ result.Canonical after.target.pool ∧
      RawKept (.raw nameIndex name info) result := by
  refine ⟨.raw entry.nameIndex name entry.info, rfl, ⟨.raw h.name.text hne hfits, rfl⟩, .intro fun hmem => ?_⟩
  have hinfo := h.info
  rw [hlayout hmem] at hinfo
  exact hinfo

/-- What holds of each element of related lists is found for all of them in order. -/
private theorem exists_forall₂ {α β γ : Type} {related : α → β → Prop} {as : List α} {bs : List β}
    (h : as.Forall₂ related bs) {toElement : γ → β} {valid : γ → Prop} {kept : α → γ → Prop}
    (hstep : ∀ a ∈ as, ∀ b ∈ bs, related a b → ∃ c, toElement c = b ∧ valid c ∧ kept a c) :
    ∃ cs, cs.map toElement = bs ∧ (∀ c ∈ cs, valid c) ∧ as.Forall₂ kept cs := by
  induction h with
  | nil => exact ⟨[], rfl, fun _ hmem => (by cases hmem), .nil⟩
  | @cons a b as bs hrelated _ ih =>
    obtain ⟨c, hc, hvalid, hkept⟩ := hstep a List.mem_cons_self b List.mem_cons_self hrelated
    obtain ⟨cs, hcs, hvalids, hkepts⟩ := ih fun a' ha' b' hb' =>
      hstep a' (List.mem_cons_of_mem a ha') b' (List.mem_cons_of_mem b hb')
    refine ⟨c :: cs, by rw [List.map_cons, hc, hcs], ?_, .cons hkept hkepts⟩
    intro d hmem
    rcases List.mem_cons.1 hmem with rfl | hmem
    · exact hvalid
    · exact hvalids d hmem

/-! ### Code attributes and methods -/

private theorem length_le_of_mem {entry : Attribute} {entries : List Attribute} (h : entry ∈ entries) :
    entry.info.length ≤ (countedBytes Attribute.bytes entries).length := by
  have hbytes : entry.bytes.length ≤ (entries.flatMap Attribute.bytes).length := by
    rw [List.flatMap_def]
    exact (List.sublist_flatten_of_mem (List.mem_map_of_mem h)).length_le
  rw [Attribute.length_bytes] at hbytes
  rw [countedBytes, List.length_append]
  omega

private theorem Encodable.raw_ne {pool : Pool} {nameIndex : Index} {name : String} {info : Bytes}
    (h : Encodable pool (.raw nameIndex name info)) : name ≠ codeName := by
  cases h with
  | raw _ hne _ => exact hne

private theorem layout_of_verbatim {name : String} (h : name ∈ verbatimNames) :
    Layout.ofMethodAttribute? name = none ∧ Layout.ofCodeAttribute? name = none := by
  simp only [verbatimNames, List.mem_cons, List.not_mem_nil, or_false] at h
  rcases h with rfl | rfl | rfl <;> exact ⟨rfl, rfl⟩

/-- A code attribute is parsed back as it was put together. -/
theorem CodeCarried.kept {body : CodeBody} {attributes : List ParsedAttribute} {code : Code}
    (h : CodeCarried after body attributes code) (hvalid : after.Valid source) (hbody : body.Fits)
    (hcount : attributes.length < 65536) (hattributes : ∀ parsed ∈ attributes, parsed.Encodable source)
    (hfits : code.bytes.length < 4294967296) :
    ∃ nested : List ParsedAttribute, nested.map toAttribute = code.attributes ∧
      (∀ parsed ∈ nested, parsed.Canonical after.target.pool) ∧ nested.length < 65536 ∧ code.toCodeBody.Fits ∧
      CodeKept source after.target.pool body code.toCodeBody attributes nested := by
  have hentry : ∀ entry ∈ code.attributes, entry.Fits := by
    intro entry hmem
    have := length_le_of_mem hmem
    rw [Code.bytes, List.length_append] at hfits
    exact Nat.lt_of_le_of_lt (by omega) hfits
  have hstep : ∀ parsed ∈ attributes.filter keptInCode, ∀ entry ∈ code.attributes,
      CodeAttributeCarried after parsed entry → ∃ result : ParsedAttribute, result.toAttribute = entry ∧
        result.Canonical after.target.pool ∧ RawKept parsed result := by
    intro parsed hparsed entry hmem hcarried
    cases hcarried with
    | raw hraw =>
      have hsource := hattributes _ (List.mem_of_mem_filter hparsed)
      exact hraw.kept (fun hmem => (layout_of_verbatim hmem).2) (Encodable.raw_ne hsource) (hentry _ hmem) _
  obtain ⟨nested, hmap, hcanonical, hkept⟩ := exists_forall₂ h.attributes hstep
  have hlength := length_of_instructions h.instructions
  refine ⟨nested, hmap, hcanonical, ?_, ⟨?_, ?_⟩, ?_⟩
  · rw [← hkept.length_eq]
    exact Nat.lt_of_le_of_lt (List.length_filter_le _ _) hcount
  · rw [hlength]
    exact hbody.1
  · rw [← h.handlers.length_eq]
    exact hbody.2
  · exact {
      maxStack := h.maxStack
      maxLocals := h.maxLocals
      length := hlength
      handlers := h.handlers.imp fun _ _ hhandler => hhandler.kept hvalid
      attributes := hkept }

/-- An attribute of a method is parsed back as it was put together. -/
theorem MethodAttributeCarried.kept {parsed : ParsedAttribute} {entry : Attribute}
    (h : MethodAttributeCarried after parsed entry) (hvalid : after.Valid source) (hparsed : parsed.Encodable source)
    (hfits : entry.Fits) :
    ∃ result : ParsedAttribute, result.toAttribute = entry ∧ result.Canonical after.target.pool ∧
      AttributeKept source after.target.pool parsed result := by
  cases h with
  | raw hraw =>
    obtain ⟨result, hresult, hcanonical, hkept⟩ :=
      hraw.kept (fun hmem => (layout_of_verbatim hmem).1) (Encodable.raw_ne hparsed) hfits _
    exact ⟨result, hresult, hcanonical, .raw hkept⟩
  | @code nameIndex declaredLength body attributes code _ hname hinfo hcode =>
    cases hparsed with
    | code _ hbody hcount hattributes _ =>
      rw [Attribute.Fits, hinfo] at hfits
      obtain ⟨nested, hmap, hcanonical, hnestedCount, hbodyFits, hkept⟩ :=
        hcode.kept hvalid hbody hcount hattributes hfits
      refine ⟨.code entry.nameIndex code.bytes.length code.toCodeBody nested, ?_,
        canonical_code hname.text hbodyFits hmap hnestedCount hcanonical hfits, .code hkept⟩
      rw [toAttribute, info_code hmap, ← hinfo]
      rfl

/-- The text at an index that has been carried over is the text at its place. -/
theorem text_of_carried {index place : Index} (h : after.Carried source (.entry .utf8) index place)
    (hvalid : after.Valid source) :
    ∃ text, source.text index = .ok text ∧ after.target.pool.text place = .ok text := by
  obtain ⟨⟨constant, hget, htag⟩, hplace⟩ := h
  obtain ⟨stored, rfl⟩ := Constant.eq_utf8_of_tag htag
  have hfound := (hvalid.alike _ _ hplace).utf8 hget
  exact ⟨stored.text, Pool.text_eq_ok_iff.2 ⟨_, hget, rfl⟩, Pool.text_eq_ok_iff.2 ⟨_, hfound, rfl⟩⟩

end TransferM

open TransferM Transfer

/-- A method that has been parsed against the source and carried over, after any calls, is parsed strictly against the
target as it then is, without a warning, and nothing is skipped or left over: what is parsed is the transferred method,
and keeps what can be carried over. -/
theorem Transfer.parse_transferred_method {source target : Pool} (hsource : source.Made) (htarget : target.Made)
    (earlier : List Call) {log parseLog parseLog' : Log} {strictness : Strictness} {bytes : Bytes}
    {parsed : ParsedMethod}
    (hparsed : (ParsedMethod.parse source strictness bytes).run.run parseLog = (.ok parsed, parseLog'))
    {state : State} (hstate : state = afterCalls source earlier (into target, log)) {copied : Method}
    (hcopied : outcome (TransferM.method source parsed) state = .ok copied)
    (hfits : ∀ entry ∈ copied.attributes, entry.info.length < 4294967296) :
    ∃ result : ParsedMethod, result.toMethod = copied ∧
      MethodKept source (following (TransferM.method source parsed) state).1.target.pool parsed result ∧
      ∀ log, ∃ log', log.Quiet log' ∧
        (ParsedMethod.parse (following (TransferM.method source parsed) state).1.target.pool .strict
          copied.bytes).run.run log = (.ok result, log') := by
  have hinto := valid_into hsource.wellFormed htarget.wellFormed
  have hbefore : state.1.Valid source := by
    rw [hstate]
    exact Steps.valid (@steps_afterCalls source earlier (into target, log) hinto) hinto
  obtain ⟨hsteps, hcarried⟩ := Ensures.following (ensures_method hbefore parsed)
  have hvalid := Steps.valid hsteps hbefore
  have hcarried := hcarried copied hcopied
  -- From here on, all that matters of the transfer is the state that it left.
  generalize (following (TransferM.method source parsed) state).1 = after at hvalid hcarried ⊢
  obtain ⟨hname, hdescriptor, hcount, hencodable⟩ := ParsedMethod.parse_encodable hparsed
  have hstep : ∀ one ∈ parsed.attributes.filter ParsedAttribute.keptInMethod, ∀ entry ∈ copied.attributes,
      MethodAttributeCarried after one entry → ∃ result : ParsedAttribute, result.toAttribute = entry ∧
        result.Canonical after.target.pool ∧ AttributeKept source after.target.pool one result :=
    fun one hone entry hentry h => h.kept hvalid (hencodable one (List.mem_of_mem_filter hone)) (hfits entry hentry)
  obtain ⟨attributes, hmap, hcanonical, hkept⟩ := exists_forall₂ hcarried.attributes hstep
  obtain ⟨name, hsourceName, htargetName⟩ := text_of_carried hcarried.name hvalid
  obtain ⟨descriptor, hsourceDescriptor, htargetDescriptor⟩ := text_of_carried hcarried.descriptor hvalid
  have hmethod : ParsedMethod.toMethod
      ⟨copied.accessFlags, copied.nameIndex, copied.descriptorIndex, name, descriptor, attributes⟩ = copied := by
    rw [ParsedMethod.toMethod, hmap]
  refine ⟨_, hmethod, ?_, fun log => ?_⟩
  · exact ⟨hcarried.accessFlags, (hname name hsourceName).symm, (hdescriptor descriptor hsourceDescriptor).symm, hkept⟩
  · rw [← hmethod]
    refine ParsedMethod.parse_bytes_canonical htargetName htargetDescriptor ?_ hcanonical log
    have := List.length_filter_le ParsedAttribute.keptInMethod parsed.attributes
    rw [← hkept.length_eq]
    omega

namespace Transfer

/-- A pool with the names that a method needs. -/
def methodPool : Pool :=
  (((Pool.empty.push (.utf8 (.ofText "m"))).push (.utf8 (.ofText "()V"))).push (.utf8 (.ofText "Code"))).push
    (.utf8 (.ofText "Synthetic"))

/-- Code that returns, with a handler for all exceptions. -/
def returnBody : CodeBody := ⟨0, 1, [0xB1], [⟨0, 1, 0, 0⟩]⟩

/-- A method with an attribute that cannot be carried over in front of two that can. -/
def returnMethod : ParsedMethod :=
  ⟨1, 1, 2, "m", "()V", [.raw 1 "m" [7], .code 3 21 returnBody [], .raw 4 "Synthetic" []]⟩

/-- That method in a pool with a wide entry. -/
def movedMethod : Method := ⟨1, 3, 4, [⟨5, Code.bytes ⟨returnBody, []⟩⟩, ⟨6, []⟩]⟩

theorem methodPool_made : methodPool.Made := by
  have hpush : ∀ {pool : Pool} {text : String}, pool.WellFormed → pool.hasRoom (.utf8 (.ofText text)) = true →
      (pool.push (.utf8 (.ofText text))).WellFormed := fun hpool hroom => hpool.push (Constant.genuine_ofText _) hroom
  have hwellFormed : methodPool.WellFormed := by
    refine hpush (hpush (hpush (hpush .empty ?_) ?_) ?_) ?_ <;> decide +kernel
  refine hwellFormed.made ?_
  simp only [methodPool, Pool.storable_push_iff]
  refine ⟨⟨⟨⟨fun entry hmem => (by cases hmem), ?_⟩, ?_⟩, ?_⟩, ?_⟩ <;>
    exact ⟨Constant.genuine_ofText _, by decide +kernel⟩

private theorem parse_returnMethod :
    ∃ log', (ParsedMethod.parse methodPool .strict returnMethod.toMethod.bytes).run.run #[] =
      (.ok returnMethod, log') := by
  have hcanonical : ∀ parsed ∈ returnMethod.attributes, parsed.Canonical methodPool := by
    intro parsed hmem
    simp only [returnMethod, List.mem_cons, List.not_mem_nil, or_false] at hmem
    rcases hmem with rfl | rfl | rfl
    · exact ⟨.raw (by decide +kernel) (by decide) (by decide), rfl⟩
    · refine ⟨.code (by decide +kernel) ⟨by decide, by decide⟩ (by decide) ?_ (by decide), rfl⟩
      intro nested hnested
      cases hnested
    · exact ⟨.raw (by decide +kernel) (by decide) (by decide), rfl⟩
  obtain ⟨log', -, hparse⟩ := @ParsedMethod.parse_bytes_canonical methodPool .strict returnMethod (by decide +kernel)
    (by decide +kernel) (by decide) hcanonical #[]
  exact ⟨log', hparse⟩

theorem outcome_returnMethod :
    outcome (TransferM.method methodPool returnMethod) (into wordPool, #[]) = .ok movedMethod := by
  have hone : methodPool.get 1 = .ok (.utf8 (.ofText "m")) := by decide +kernel
  have htwo : methodPool.get 2 = .ok (.utf8 (.ofText "()V")) := by decide +kernel
  have hknown : (Interner.ofPool wordPool).firstIndex =
      (∅ : Std.HashMap _ _).insertIfNew (Constant.long 7).bytes 1 := rfl
  have hcount : (Interner.ofPool wordPool).pool.count = 3 := by decide +kernel
  have hword : ∀ text, (Constant.long 7).bytes ≠ (Constant.utf8 (.ofText text)).bytes := by
    intro text h
    cases h
  have hwalk : Instruction.walk [0xB1] = ⟨[⟨0, 0xB1, 1⟩], none⟩ := by decide +kernel
  have htemplate : Instruction.template [0xB1] = ⟨[.fixed [0xB1]], .ok []⟩ := by
    rw [Instruction.template, hwalk]
    rfl
  simp [outcome, TransferM.method, TransferM.methodAttribute, TransferM.text, TransferM.code, TransferM.instructions,
    TransferM.handler, TransferM.finish, TransferM.optional, TransferM.template, piece, remember, resolved,
    returnMethod, returnBody, movedMethod, htemplate, hone, htwo, runOn_bind, runOn_intern, -bind_pure_comp, into,
    Interner.run_intern, Interner.add, Except.mapError, hknown, hcount, hword, Constant.bytes_ofText_inj,
    Pool.hasRoom_iff, Pool.count_push, Constant.width, codeName, Layout.ofMethodAttribute?]

/-- A method with code moves to another pool without the attribute that cannot be carried over. -/
theorem parse_transferred_method_returning :
    outcome (TransferM.method methodPool returnMethod) (into wordPool, #[]) = .ok movedMethod ∧
      ∃ result : ParsedMethod, result.toMethod = movedMethod ∧
        MethodKept methodPool (following (TransferM.method methodPool returnMethod) (into wordPool, #[])).1.target.pool
          returnMethod result := by
  obtain ⟨log', hparse⟩ := parse_returnMethod
  obtain ⟨result, hresult, hkept, -⟩ := parse_transferred_method methodPool_made wordPool_made [] hparse rfl
    outcome_returnMethod (by decide)
  exact ⟨outcome_returnMethod, result, hresult, hkept⟩

end Transfer

end ClassGraft
