import ClassGraft.Proofs.Patch.Frame
import ClassGraft.Proofs.Patch.Succeeding
import ClassGraft.Proofs.Text.Shown

/-!
# The method that a patch identifies

A request identifies a method by the header of the patched method, or of the base of a differential patch
(`IdentifiedBy`).  A method of the target that can be told by its own constants (`Pool.Tells`) is only ever removed or
edited when they show the texts that this header leads to (`applyPatch_touches_identified`).  Methods are compared by
these texts, so constants whose code units differ in unpaired surrogates alone are not told apart, and a header that
leads nowhere, which only a direct patch may have, identifies by the placeholders that are put in for it
(`applyPatch_replaces_unlike`).
-/

namespace ClassGraft

/-- The text constant at an index is made of these code units. -/
def Pool.HasUnits (pool : Pool) (index : Index) (units : List UInt16) : Prop :=
  ∃ stored, pool.get index = .ok (.utf8 stored) ∧ ModifiedUtf8.decode stored.encoded = some units

/-- Two indices lead to text constants that show the same text.  Their code units are the same too, unless this text has
`U+FFFD`, which unpaired surrogates are shown as. -/
def Pool.SameShown (pool : Pool) (index : Index) (other : Pool) (place : Index) : Prop :=
  ∃ units units', pool.HasUnits index units ∧ other.HasUnits place units' ∧
    Utf16.textOfUnits units = Utf16.textOfUnits units' ∧
    ('\uFFFD' ∉ (Utf16.textOfUnits units).toList → units = units')

namespace Pool

/-- A text that an index leads to is shown by the code units of the constant there. -/
theorem exists_hasUnits {pool : Pool} (h : pool.WellFormed) {index : Index} {text : String}
    (htext : pool.text index = .ok text) : ∃ units, pool.HasUnits index units ∧ Utf16.textOfUnits units = text := by
  obtain ⟨stored, hget, rfl⟩ := text_eq_ok_iff.1 htext
  have hgenuine : stored.Genuine := h.genuine hget
  obtain ⟨units, hunits, hstored⟩ := Option.map_eq_some_iff.1 hgenuine
  exact ⟨units, ⟨stored, hget, hunits⟩, congrArg StoredText.text hstored⟩

theorem sameShown_of_text {pool other : Pool} (hpool : pool.WellFormed) (hother : other.WellFormed)
    {index place : Index} {text : String} (htext : pool.text index = .ok text) (htext' : other.text place = .ok text) :
    pool.SameShown index other place := by
  obtain ⟨units, hunits, hshown⟩ := exists_hasUnits hpool htext
  obtain ⟨units', hunits', hshown'⟩ := exists_hasUnits hother htext'
  have hsame := hshown.trans hshown'.symm
  exact ⟨units, units', hunits, hunits', hsame, Utf16.eq_of_textOfUnits_eq hsame⟩

end Pool

/-- The pool and the bytes of the method whose header says which method of the target a request is about. -/
inductive IdentifiedBy (request : PatchRequest) (target : ClassFile) : Pool → Bytes → Prop
  | direct {patched : Bytes} (hmode : request.mode = .direct)
      (hpatched : Returns (Hex.decode request.reading request.patchedHex) patched) :
      IdentifiedBy request target target.pool patched
  | reference {patched file : Bytes} {reference : ClassFile} (hmode : request.mode = .reference file)
      (hpatched : Returns (Hex.decode request.reading request.patchedHex) patched)
      (hreference : Returns (ClassFile.parse file) reference) : IdentifiedBy request target reference.pool patched
  | differential {base : Bytes} {baseHex : String} (hmode : request.mode = .differential baseHex)
      (hbase : Returns (Hex.decode request.reading baseHex) base) : IdentifiedBy request target target.pool base

/-- What the field of a header identifies in the pool of the patched class: a constant with the text that the field
leads to, or, when it leads nowhere and the patch is direct, one with the text of the placeholder. -/
inductive Identifies (mode : PatchMode) (source : Pool) (placeholder : String) (field : Index) (pool : Pool)
    (index : Index) : Prop
  | same (h : source.SameShown field pool index)
  | placeholder {error : IndexError} (hmode : mode = .direct) (hnone : source.text field = .error error)
      (h : pool.text index = .ok placeholder)

/-- An index of a pool leads to a text. -/
def Pool.LeadsToText (pool : Pool) (index : Index) : Prop := ∃ text, pool.text index = .ok text

/-- The constants that a pool has for a method tell which one it is: its name, and, unless it is a class initializer,
its descriptor. -/
def Pool.Tells (pool : Pool) (method : Method) : Prop :=
  pool.LeadsToText method.nameIndex ∧
    (pool.text method.nameIndex = .ok "<clinit>" ∨ pool.LeadsToText method.descriptorIndex)

/-- What an index leads to in an extension, it leads to already in the pool if it leads to a text there. -/
theorem Pool.Extends.text_of_leadsToText {larger pool : Pool} (h : larger.Extends pool) (hlarger : larger.WellFormed)
    (hpool : pool.WellFormed) {index : Index} {text : String} (hleads : pool.LeadsToText index)
    (htext : larger.text index = .ok text) : pool.text index = .ok text := by
  obtain ⟨own, hown⟩ := hleads
  rw [hown, ← htext, h.text hlarger hpool hown]

namespace Pool.Tells

variable {pool : Pool} {method : Method} {name descriptor : String}

/-- A method that is found can be told by the constants of the pool in which it is found. -/
theorem of_isMethod (h : method.isMethod pool name descriptor = true) : pool.Tells method := by
  obtain ⟨hname, hdescriptor⟩ := Member.isMethod_iff.1 h
  refine ⟨⟨_, hname⟩, hdescriptor.imp (fun hclinit => ?_) fun htext => ⟨_, htext⟩⟩
  rw [hname, hclinit]

/-- A method that can be told by the constants of a pool is found there when it is found in an extension of the pool. -/
theorem isMethod_of_extends (h : pool.Tells method) {larger : Pool} (hextends : larger.Extends pool)
    (hlarger : larger.WellFormed) (hpool : pool.WellFormed) (hfound : method.isMethod larger name descriptor = true) :
    method.isMethod pool name descriptor = true := by
  obtain ⟨htext, hkind⟩ := Member.isMethod_iff.1 hfound
  have hname := hextends.text_of_leadsToText hlarger hpool h.1 htext
  refine Member.isMethod_iff.2 ⟨hname, ?_⟩
  rcases h.2 with hclinit | hleads
  · rw [hname] at hclinit
    exact .inl (Except.ok.inj hclinit)
  · exact hkind.imp_right (hextends.text_of_leadsToText hlarger hpool hleads)

end Pool.Tells

private theorem identifies_of_shown {mode : PatchMode} {source pool : Pool} {strictness : Strictness}
    {placeholder shown : String} {field index : Index} (hsource : source.WellFormed) (hpool : pool.WellFormed)
    (hshown : ParsedMethod.Shown source strictness placeholder field shown)
    (hmode : mode ≠ .direct → source.LeadsToText field) (htext : pool.text index = .ok shown) :
    Identifies mode source placeholder field pool index := by
  cases hshown with
  | text hfield => exact .same (Pool.sameShown_of_text hsource hpool hfield htext)
  | placeholder _ hnone =>
    refine .placeholder ?_ hnone htext
    by_contra hother
    obtain ⟨text, hfield⟩ := hmode hother
    rw [hnone] at hfield
    cases hfield

namespace Patched

open TransferM

variable {request : PatchRequest} {target : ClassFile} {reported : PatchedMethod} {pool : Pool} {change : MethodChange}

/-- What a patch reports is what stands for the fields of the identifying header, which lead to texts unless the patch
is direct. -/
theorem exists_header (h : Patched request target reported pool change) (htarget : target.Representable) :
    ∃ source bytes header rest strictness, IdentifiedBy request target source bytes ∧ source.WellFormed ∧
      ParsedMethod.readHeader bytes = .ok (header, rest) ∧
      ParsedMethod.Shown source strictness ParsedMethod.unknownName header.nameIndex reported.name ∧
      ParsedMethod.Shown source strictness ParsedMethod.unknownDescriptor header.descriptorIndex reported.descriptor ∧
      (request.mode ≠ .direct →
        source.LeadsToText header.nameIndex ∧ source.LeadsToText header.descriptorIndex) := by
  cases h with
  | direct hmode hpatched hpatch _ =>
    obtain ⟨_, hrun⟩ := hpatch.exists_run #[]
    obtain ⟨header, rest, hheader, -, hname, hdescriptor, -⟩ := ParsedMethod.exists_header_of_parse hrun
    exact ⟨_, _, header, rest, _, .direct hmode hpatched, htarget.pool, hheader, hname, hdescriptor,
      fun hother => absurd hmode hother⟩
  | reference hmode hpatched hreference hpatch hcopied _ =>
    obtain ⟨_, hrun⟩ := hpatch.exists_run #[]
    obtain ⟨header, rest, hheader, ⟨-, hnameIndex, hdescriptorIndex⟩, hname, hdescriptor, -⟩ :=
      ParsedMethod.exists_header_of_parse hrun
    have hafter := copiedInto hreference htarget hcopied
    -- A field that led nowhere could not have been carried over.
    obtain ⟨name, hfield, -⟩ := text_of_carried hafter.carried.name hafter.valid
    obtain ⟨descriptor, hfield', -⟩ := text_of_carried hafter.carried.descriptor hafter.valid
    rw [hnameIndex] at hfield
    rw [hdescriptorIndex] at hfield'
    exact ⟨_, _, header, rest, _, .reference hmode hpatched hreference,
      (ClassFile.representable_of_parse hreference).pool, hheader, hname, hdescriptor,
      fun _ => ⟨⟨name, hfield⟩, ⟨descriptor, hfield'⟩⟩⟩
  | differential hmode _ hbase _ hdescribed _ _ _ _ =>
    obtain ⟨_, hrun⟩ := hdescribed.exists_run #[]
    obtain ⟨header, rest, hheader, -, hname, hdescriptor, -⟩ := ParsedMethod.exists_header_of_parse hrun
    exact ⟨_, _, header, rest, _, .differential hmode hbase, htarget.pool, hheader, hname, hdescriptor,
      fun _ => ⟨⟨_, hname.text_of_strict⟩, ⟨_, hdescriptor.text_of_strict⟩⟩⟩

/-- Only a reference class adds to the pool. -/
theorem pool_eq (h : Patched request target reported pool change) :
    pool = target.pool ∨ ∃ file, request.mode = .reference file := by
  cases h with
  | direct => exact .inl rfl
  | reference hmode => exact .inr ⟨_, hmode⟩
  | differential => exact .inl rfl

end Patched

variable {recompute : FrameRecomputer} {request : PatchRequest} {outcome : PatchOutcome} {log : Log}

/-- A patch that succeeds edits or removes a method of the target that can be told by the target's own constants only
when these show the texts that the header by which the request identifies a method leads to, the descriptor of a class
initializer apart.  Without a reference class every method that is edited or removed can be told by them.  Where a field
of the header leads nowhere, a direct patch takes a placeholder for its text, and the others do not succeed. -/
theorem applyPatch_touches_identified (h : ((applyPatch recompute request).run.run log).1 = .ok outcome) :
    ∃ (target : ClassFile) (source pool : Pool) (bytes rest : Bytes) (header : ParsedMethod.Header)
      (change : MethodChange) (log' : Log),
      Returns (ClassFile.parse request.target) target ∧ IdentifiedBy request target source bytes ∧
      ParsedMethod.readHeader bytes = .ok (header, rest) ∧
      (request.mode ≠ .direct →
        source.LeadsToText header.nameIndex ∧ source.LeadsToText header.descriptorIndex) ∧
      ((recompute { target with pool := pool, methods := change.apply target.methods : ClassFile }.bytes).run.run
        log').1 = .ok outcome.bytes ∧
      outcome.method.replaced = change.touched?.isSome ∧
      (pool = target.pool ∨ ∃ file, request.mode = .reference file) ∧
      (∀ index constant, target.pool.get index = .ok constant → pool.get index = .ok constant) ∧
      ∀ position, change.touched? = some position → ∃ method : Method, target.methods[position]? = some method ∧
        ((∀ file, request.mode ≠ .reference file) → target.pool.Tells method) ∧
        (target.pool.Tells method →
          Identifies request.mode source ParsedMethod.unknownName header.nameIndex target.pool method.nameIndex ∧
          (target.pool.text method.nameIndex = .ok "<clinit>" ∨ Identifies request.mode source
            ParsedMethod.unknownDescriptor header.descriptorIndex target.pool method.descriptorIndex)) := by
  obtain ⟨target, pool, change, log', htarget, hpatched, hbytes⟩ := patched_of_applyPatch h
  have hfile := ClassFile.representable_of_parse htarget
  obtain ⟨hpool, -, hextends⟩ := hpatched.pool_extends hfile
  obtain ⟨source, bytes, header, rest, strictness, hidentified, hsource, hheader, hname, hdescriptor, hleads⟩ :=
    hpatched.exists_header hfile
  refine ⟨target, source, pool, bytes, rest, header, change, log', htarget, hidentified, hheader, hleads, hbytes,
    hpatched.replaced_eq, hpatched.pool_eq, fun _ _ hget => hpatched.get hfile hget, fun position htouched => ?_⟩
  have hfound := hpatched.findMethod?_eq.trans htouched
  obtain ⟨hlt, hmethod, -⟩ := List.findIdx?_eq_some_iff_getElem.1 hfound
  refine ⟨target.methods[position], List.getElem?_eq_getElem hlt, fun hmode => ?_, fun htells => ?_⟩
  · obtain rfl : pool = target.pool := hpatched.pool_eq.resolve_right fun ⟨file, hreference⟩ => hmode file hreference
    exact .of_isMethod hmethod
  · -- What identifies is looked up in the pool after the patch, but such a method is found by the target's own as well.
    obtain ⟨hname', hkind⟩ := Member.isMethod_iff.1 (htells.isMethod_of_extends hextends hpool hfile.pool hmethod)
    refine ⟨identifies_of_shown hsource hfile.pool hname (fun hmode => (hleads hmode).1) hname', ?_⟩
    refine hkind.imp (fun hclinit => ?_)
      (identifies_of_shown hsource hfile.pool hdescriptor fun hmode => (hleads hmode).2)
    rw [hname', hclinit]

/-- A class with an abstract method whose name is an unpaired surrogate, and with another surrogate. -/
def surrogateClass : ClassFile :=
  smallClass [⟨"\uFFFD", [0xED, 0xA0, 0x80]⟩, ⟨"\uFFFD", [0xED, 0xA0, 0x81]⟩, .ofText "()V"] [⟨0x400, 1, 3, []⟩]

/-- A class with an abstract method that is named like the placeholder for a name. -/
def placeholderClass : ClassFile := smallClass [.ofText "UnknownName", .ofText "()V"] [⟨0x400, 1, 2, []⟩]

/-- A class with an abstract class initializer. -/
def initializerClass : ClassFile := smallClass [.ofText "<clinit>", .ofText "()V"] [⟨0x400, 1, 2, []⟩]

/-- The request to put a method without attributes directly into a class. -/
def directRequest (file : ClassFile) (patchedHex : String) : PatchRequest := ⟨file.bytes, patchedHex, .direct, .strict⟩

/-- A method whose name leads nowhere goes by the placeholder, and is added to a class without a method of that name. -/
example : ((applyPatch (.unchanged false) (directRequest returningClass "0400000900020000")).run.run #[]).1.toOption.map
    PatchOutcome.method = some ⟨"UnknownName", "()V", false⟩ := by
  decide +kernel

theorem patchesTo_surrogateClass :
    PatchesTo (directRequest surrogateClass "0401000200030000") surrogateClass
      { surrogateClass with methods := [⟨0x401, 2, 3, []⟩] } ⟨"\uFFFD", "()V", true⟩ :=
  patchesTo_of_run (by decide +kernel) (by decide +kernel) (by decide +kernel)

private theorem not_leadsToText {pool : Pool} {index : Index} (error : IndexError)
    (h : pool.text index = .error error) : ¬pool.LeadsToText index := by
  rintro ⟨text, htext⟩
  rw [h] at htext
  cases htext

/-- The name of the method that is removed shows the text that the header leads to, although their code units differ. -/
theorem applyPatch_touches_identified_surrogate :
    ((applyPatch (.unchanged false) (directRequest surrogateClass "0401000200030000")).run.run #[]).1 =
        .ok ⟨{ surrogateClass with methods := [⟨0x401, 2, 3, []⟩] : ClassFile }.bytes, ⟨"\uFFFD", "()V", true⟩⟩ ∧
      Identifies .direct surrogateClass.pool ParsedMethod.unknownName 2 surrogateClass.pool 1 := by
  obtain ⟨hparse, hrun, -⟩ := patchesTo_surrogateClass
  refine ⟨hrun, ?_⟩
  obtain ⟨target, source, pool, bytes, rest, header, change, log', htarget, hidentified, hheader, -, -, hreplaced, -, -,
    htouched⟩ := applyPatch_touches_identified hrun
  obtain rfl := htarget.unique hparse
  obtain ⟨position, hposition⟩ := Option.isSome_iff_exists.1 hreplaced.symm
  obtain ⟨method, hmethod, htells, hidentifies⟩ := htouched position hposition
  have honly : method = ⟨0x400, 1, 3, []⟩ := by
    simpa [surrogateClass, smallClass] using List.mem_of_getElem? hmethod
  have hname := (hidentifies (htells fun _ => nofun)).1
  cases hidentified with
  | direct _ hpatched =>
    obtain rfl : bytes = [4, 1, 0, 2, 0, 3, 0, 0] :=
      hpatched.unique ((Hex.steady_decode _ _).returns (by decide +kernel))
    have hindex : header.nameIndex = 2 := by
      have hread : (ParsedMethod.readHeader [4, 1, 0, 2, 0, 3, 0, 0]).toOption.map (·.1.nameIndex) = some 2 := by decide
      rw [hheader] at hread
      exact Option.some.inj hread
    rwa [honly, hindex] at hname
  | reference hmode => cases hmode
  | differential hmode => cases hmode

/-- Methods are removed whose constants are not those of the header: one whose name is another surrogate, one that is
named like the placeholder for a name that leads nowhere, and a class initializer although the descriptor does. -/
theorem applyPatch_replaces_unlike :
    (PatchesTo (directRequest surrogateClass "0401000200030000") surrogateClass
        { surrogateClass with methods := [⟨0x401, 2, 3, []⟩] } ⟨"\uFFFD", "()V", true⟩ ∧
      surrogateClass.pool.HasUnits 1 [0xD800] ∧ surrogateClass.pool.HasUnits 2 [0xD801]) ∧
    (PatchesTo (directRequest placeholderClass "0401000900020000") placeholderClass
        { placeholderClass with methods := [⟨0x401, 9, 2, []⟩] } ⟨"UnknownName", "()V", true⟩ ∧
      ¬placeholderClass.pool.LeadsToText 9) ∧
    (PatchesTo (directRequest initializerClass "0400000100090000") initializerClass
        { initializerClass with methods := [⟨0x400, 1, 9, []⟩] } ⟨"<clinit>", "UnknownDesc", true⟩ ∧
      ¬initializerClass.pool.LeadsToText 9) := by
  refine ⟨⟨patchesTo_surrogateClass, ?_, ?_⟩, ⟨?_, ?_⟩, ⟨?_, ?_⟩⟩
  · exact ⟨⟨"\uFFFD", [0xED, 0xA0, 0x80]⟩, by decide +kernel, by decide +kernel⟩
  · exact ⟨⟨"\uFFFD", [0xED, 0xA0, 0x81]⟩, by decide +kernel, by decide +kernel⟩
  · exact patchesTo_of_run (by decide +kernel) (by decide +kernel) (by decide +kernel)
  · exact not_leadsToText (.outOfRange 9) (by decide +kernel)
  · exact patchesTo_of_run (by decide +kernel) (by decide +kernel) (by decide +kernel)
  · exact not_leadsToText (.outOfRange 9) (by decide +kernel)

end ClassGraft
