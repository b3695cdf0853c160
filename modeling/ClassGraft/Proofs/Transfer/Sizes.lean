import ClassGraft.Proofs.Layout
import ClassGraft.Proofs.Transfer.CopiedMethod

/-!
# Sizes of transferred methods

Carrying an attribute over never makes it longer: indices keep their width, what is left over after the contents of a
known layout is dropped, and so are attributes that cannot be carried over.  So a method that was decoded is carried
over to one whose lengths and counts fit into their fields (`TransferM.MethodCarried.allFit`).
-/

namespace ClassGraft

namespace TransferM

open Transfer ParsedAttribute

variable {source : Pool} {after : Transfer}

theorem InfoCarried.length_le {layout : Option Layout} {info info' : Bytes} (h : InfoCarried after layout info info') :
    info'.length ≤ info.length := by
  cases layout with
  | none =>
    have hsame : info' = info := h
    exact Nat.le_of_eq (congrArg List.length hsame)
  | some layout =>
    obtain ⟨⟨leftOver, houtcome⟩, parts, hparts, rfl⟩ := h
    have hinfo := congrArg List.length (Layout.template_bytes houtcome)
    have hlength : parts.flatten.length = (layout.template info).bytes.length := length_of_pieces hparts
    rw [List.length_append] at hinfo
    omega

private theorem length_bytes_handlers {handlers handlers' : List ExceptionHandler}
    (h : handlers.Forall₂ (HandlerCarried after) handlers') :
    (handlers'.flatMap ExceptionHandler.bytes).length = (handlers.flatMap ExceptionHandler.bytes).length := by
  have hbytes : ∀ handler : ExceptionHandler, handler.bytes.length = 8 := by
    intro handler
    simp [ExceptionHandler.bytes, length_u16Bytes]
  induction h with
  | nil => rfl
  | cons _ _ ih => simp only [List.flatMap_cons, List.length_append, hbytes, ih]

private theorem length_bytes_body {body body' : CodeBody} (hcode : body'.code.length = body.code.length)
    (hhandlers : body.handlers.Forall₂ (HandlerCarried after) body'.handlers) :
    body'.bytes.length = body.bytes.length := by
  have hbytes := length_bytes_handlers hhandlers
  simp only [CodeBody.bytes, countedBytes, countBytes, List.length_append, length_u16Bytes, length_bigEndian, hcode,
    hbytes]

/-- Entries carried over from attributes that are kept take no more bytes than all attributes do. -/
private theorem length_bytes_kept {related : ParsedAttribute → Attribute → Prop}
    (hrelated : ∀ parsed entry, related parsed entry → entry.info.length ≤ parsed.info.length)
    {keep : ParsedAttribute → Bool} {attributes : List ParsedAttribute} {entries : List Attribute}
    (h : (attributes.filter keep).Forall₂ related entries) :
    (entries.flatMap Attribute.bytes).length ≤ (bytesOfAll attributes).length := by
  induction attributes generalizing entries with
  | nil =>
    cases h
    simp
  | cons first rest ih =>
    have hfirst : (bytesOfAll (first :: rest)).length = 6 + first.info.length + (bytesOfAll rest).length := by
      rw [bytesOfAll, List.length_append, Attribute.length_bytes]
    by_cases hkeep : keep first = true
    · rw [List.filter_cons_of_pos hkeep] at h
      cases h with
      | cons hhead htail =>
        have hlength := hrelated _ _ hhead
        have hrest := ih htail
        rw [List.flatMap_cons, List.length_append, Attribute.length_bytes]
        omega
    · rw [List.filter_cons_of_neg hkeep] at h
      have hrest := ih h
      omega

theorem CodeCarried.length_le {body : CodeBody} {attributes : List ParsedAttribute} {code : Code}
    (h : CodeCarried after body attributes code) (nameIndex : Index) (declaredLength : Nat) :
    code.bytes.length ≤ (info (.code nameIndex declaredLength body attributes)).length := by
  have hbody := length_bytes_body (length_of_instructions h.instructions) h.handlers
  have hnested : (code.attributes.flatMap Attribute.bytes).length ≤ (bytesOfAll attributes).length := by
    refine length_bytes_kept (fun parsed entry hcarried => ?_) h.attributes
    cases hcarried with
    | raw hraw => exact hraw.info.length_le
  simp only [Code.bytes, countedBytes, countBytes, info, List.length_append, length_bigEndian]
  omega

theorem MethodAttributeCarried.length_le {parsed : ParsedAttribute} {entry : Attribute}
    (h : MethodAttributeCarried after parsed entry) : entry.info.length ≤ parsed.info.length := by
  cases h with
  | raw hraw => exact hraw.info.length_le
  | code _ hinfo hcode =>
    rw [hinfo]
    exact hcode.length_le _ _

/-- A method that can be written is carried over to one that fits into its fields. -/
theorem MethodCarried.allFit {parsed : ParsedMethod} {member : Method} (h : MethodCarried source after parsed member)
    (hcount : parsed.attributes.length < 65536) (hattributes : ∀ one ∈ parsed.attributes, one.Encodable source) :
    Attribute.AllFit member.attributes := by
  constructor
  · have hkept := h.attributes.length_eq
    have hfilter := List.length_filter_le ParsedAttribute.keptInMethod parsed.attributes
    omega
  · intro entry hentry
    obtain ⟨position, hposition, rfl⟩ := List.mem_iff_getElem.1 hentry
    have hbound := h.attributes.length_eq ▸ hposition
    have hcarried := h.attributes.get hbound hposition
    have hone := List.mem_of_mem_filter (List.get_mem _ ⟨position, hbound⟩)
    have hfits : (List.get _ ⟨position, hbound⟩).info.length < 4294967296 := (hattributes _ hone).fits
    exact Nat.lt_of_le_of_lt hcarried.length_le hfits

end TransferM

end ClassGraft
