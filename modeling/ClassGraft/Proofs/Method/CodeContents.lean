import ClassGraft.Proofs.Method.Records

/-!
# Two readings of code

The contents of a code attribute are read in two ways.  `Code.parse` keeps the nested attributes as they are and fails
when one of them is not all there.  Decoding looks them up by name and skips those that make no sense
(`ParsedAttribute.decodeCode`).  Where the first succeeds, the second finds the same code with those of the nested
attributes that can be decoded; and what the second finds, written again, is what the first reads, with nothing left
over (`ParsedAttribute.code_readings_agree`).
-/

namespace ClassGraft.ParsedAttribute

open ParsedMethod (namesPool nestedRecords returning)

/-- Decodes the contents of a code attribute. -/
def decodeCode (pool : Pool) (contents : Bytes) : LoggedExcept FormatError (CodeBody × List ParsedAttribute) := do
  match readCodeStart contents with
  | .error error => throw error
  | .ok ((body, count), inner) =>
    let (nested, leftOver) ← decodeAll pool count.toNat (contents.length - inner.length) inner
    Code.noteLeftOver leftOver
    return (body, nested)

/-- What an attribute is decoded to, if it can be: its name has to resolve, and with the name of code it has to have
some code in it. -/
def decoded? (pool : Pool) (entry : Attribute) : Option ParsedAttribute :=
  match pool.text entry.nameIndex with
  | .error _ => none
  | .ok name =>
    if name = codeName then
      match ((decodeCode pool entry.info).run.run #[]).1 with
      | .error _ => none
      | .ok (body, nested) => some (.code entry.nameIndex entry.info.length body nested)
    else some (.raw entry.nameIndex name entry.info)

section

variable {pool : Pool} {count offset : Nat} {contents bytes rest inner leftOver : Bytes} {entry : Attribute}
  {body : CodeBody} {innerCount : UInt16} {found nested : List ParsedAttribute}

theorem run_decodeCode_error {error : FormatError} (hcode : readCodeStart contents = .error error) (log : Log) :
    (decodeCode pool contents).run.run log = (.error error, log) := by
  rw [decodeCode, hcode]
  rfl

theorem run_decodeCode (hcode : readCodeStart contents = .ok ((body, innerCount), inner)) (log : Log) :
    (decodeCode pool contents).run.run log =
      let ((nested, leftOver), log) :=
        (decodeOnto pool innerCount.toNat (contents.length - inner.length) inner []).run log
      let ((), log) := (Code.noteLeftOver leftOver).run log
      (.ok (body, nested), log) := by
  rw [decodeCode, hcode]
  rfl

theorem returns_decodeCode (hcode : readCodeStart contents = .ok ((body, innerCount), inner))
    (hnested : Gives (decodeAll pool innerCount.toNat (contents.length - inner.length) inner) (nested, leftOver)) :
    Returns (decodeCode pool contents) (body, nested) := by
  rw [decodeCode, hcode]
  exact .lift_bind hnested (.lift_bind (a := ()) (fun _ => rfl) (.pure _))

theorem steady_decodeCode (pool : Pool) (contents : Bytes) : Steady (decodeCode pool contents).run := by
  rw [decodeCode]
  split
  · exact .throw _
  · exact .bind_except (.lift (steady_decodeOnto pool _ _ _ _)) fun _ =>
      .bind_except (.lift (steady_noteLeftOver _)) fun _ => .pure _

/-- Decoding a list of attributes decodes the contents of those with the name of code, and skips those of which the
contents cannot be decoded. -/
theorem decodeOnto_named_code (hread : Attribute.read bytes = .ok (entry, rest))
    (hname : pool.text entry.nameIndex = .ok codeName) (log : Log) :
    (decodeOnto pool (count + 1) offset bytes found).run log =
      match (decodeCode pool entry.info).run.run
        (log.push ⟨.debug, s!"Attribute {codeName} ({entry.info.length} bytes) at offset {offset}"⟩) with
      | (.error error, log) =>
        (decodeOnto pool count (offset + 6 + entry.info.length) rest found).run (log.push ⟨.warning,
          s!"Skipping attribute: Code attribute at offset {offset} is malformed: {error.message}"⟩)
      | (.ok (body, nested), log) =>
        (decodeOnto pool count (offset + 6 + entry.info.length) rest
          (.code entry.nameIndex entry.info.length body nested :: found)).run log := by
  cases hcode : readCodeStart entry.info with
  | error error => rw [decodeOnto_malformed hread hname hcode, run_decodeCode_error hcode]
  | ok start =>
    obtain ⟨⟨body, innerCount⟩, inner⟩ := start
    rw [decodeOnto_code hread hname hcode, run_decodeCode hcode]
    rfl

/-- The attribute in front is found if it can be decoded, whatever comes before and after it. -/
private theorem exists_run_decodeOnto (hfits : entry.Fits) (pool : Pool) (count offset : Nat) (rest : Bytes)
    (found : List ParsedAttribute) (log : Log) :
    ∃ log', (decodeOnto pool (count + 1) offset (entry.bytes ++ rest) found).run log =
      (decodeOnto pool count (offset + 6 + entry.info.length) rest
        ((decoded? pool entry).toList ++ found)).run log' := by
  have hread : Attribute.read (entry.bytes ++ rest) = .ok (entry, rest) :=
    (Attribute.inverts_read _ _ _).2 ⟨hfits, rfl⟩
  unfold decoded?
  cases hname : pool.text entry.nameIndex with
  | error error => exact ⟨_, decodeOnto_unnamed hread hname log⟩
  | ok name =>
    dsimp only
    by_cases hcodeName : name = codeName
    · subst hcodeName
      rw [if_pos rfl, decodeOnto_named_code hread hname]
      generalize log.push _ = middle
      rw [steady_decodeCode pool entry.info #[] middle]
      rcases (decodeCode pool entry.info).run.run middle with ⟨_ | ⟨body, nested⟩, after⟩
      · exact ⟨_, rfl⟩
      · exact ⟨_, rfl⟩
    · rw [if_neg hcodeName]
      exact ⟨_, decodeOnto_raw hread hname hcodeName log⟩

/-- Of complete attributes, those that can be decoded are found, in order. -/
theorem gives_decodeOnto_bytes {entries : List Attribute} (hfits : ∀ entry ∈ entries, entry.Fits) (pool : Pool)
    (offset : Nat) (rest : Bytes) (found : List ParsedAttribute) :
    Gives (decodeOnto pool entries.length offset (entries.flatMap Attribute.bytes ++ rest) found)
      (found.reverse ++ entries.filterMap (decoded? pool), rest) := by
  induction entries generalizing offset found with
  | nil =>
    rw [List.length_nil, decodeOnto, List.filterMap_nil, List.append_nil]
    exact .pure _
  | cons entry entries ih =>
    intro log
    obtain ⟨log', hrun⟩ := exists_run_decodeOnto (hfits entry List.mem_cons_self) pool entries.length offset
      (entries.flatMap Attribute.bytes ++ rest) found log
    rw [List.flatMap_cons, List.append_assoc, List.length_cons, hrun,
      ih (fun one hmem => hfits one (List.mem_cons_of_mem _ hmem))]
    cases hdecoded : decoded? pool entry with
    | none => rw [List.filterMap_cons_none hdecoded]; rfl
    | some parsed => simp [List.filterMap_cons_some hdecoded]

/-- Code that is read is decoded to itself, with those of its attributes that can be decoded. -/
theorem returns_decodeCode_of_read {code : Code} (pool : Pool) (h : Code.read contents = .ok (code, leftOver)) :
    Returns (decodeCode pool contents) (code.toCodeBody, code.attributes.filterMap (decoded? pool)) := by
  obtain ⟨⟨hbody, hcount, hfits⟩, hcontents⟩ := (Code.inverts_read _ _ _).1 h
  have hcode : readCodeStart contents = .ok ((code.toCodeBody, UInt16.ofNat code.attributes.length),
      code.attributes.flatMap Attribute.bytes ++ leftOver) := by
    refine (inverts_readCodeStart _ _ _).2 ⟨hbody, ?_⟩
    dsimp only
    rw [hcontents, Code.bytes, countedBytes, countBytes, u16Bytes_ofNat hcount]
    simp only [List.append_assoc]
  have hnested := gives_decodeOnto_bytes hfits pool
    (contents.length - (code.attributes.flatMap Attribute.bytes ++ leftOver).length) leftOver []
  rw [← UInt16.toNat_ofNat_of_lt' hcount] at hnested
  exact returns_decodeCode hcode hnested

/-- Code that is decoded is written as something that is read to the same code. -/
theorem read_of_run_decodeCode {log log' : Log}
    (h : (decodeCode pool contents).run.run log = (.ok (body, nested), log')) (nameIndex : Index)
    (declaredLength : Nat) : Code.read (info (.code nameIndex declaredLength body nested)) =
      .ok (⟨body, nested.map toAttribute⟩, []) := by
  cases hcode : readCodeStart contents with
  | error error =>
    rw [run_decodeCode_error hcode] at h
    cases h
  | ok start =>
    obtain ⟨⟨body', innerCount⟩, inner⟩ := start
    rw [run_decodeCode hcode] at h
    rcases hnested : (decodeOnto pool innerCount.toNat (contents.length - inner.length) inner []).run log with
      ⟨⟨nested', leftOver⟩, middle⟩
    rw [hnested] at h
    cases h
    obtain ⟨new, hsame, hcount, hnew, -⟩ := decodeOnto_encodable pool _ _ _ _ _ hnested
    obtain rfl : nested = new := hsame
    have hwritten : info (.code nameIndex declaredLength body nested) = Code.bytes ⟨body, nested.map toAttribute⟩ :=
      @info_code ⟨body, nested.map toAttribute⟩ nested rfl nameIndex declaredLength
    rw [hwritten]
    have hbody : body.Fits := ((inverts_readCodeStart _ _ _).1 hcode).1
    have hnestedFits := allFit_of_encodable (Nat.lt_of_le_of_lt hcount innerCount.toNat_lt) hnew
    exact (Code.inverts_read _ _ _).2 ⟨⟨hbody, hnestedFits⟩, (List.append_nil _).symm⟩

/-- The two readings of code agree.  Code that is read is decoded to the same code, with exactly those of its attributes
that can be decoded, in order.  Code that is decoded is read from what it is written as, with the same attributes as a
class file holds them, and nothing is left over. -/
theorem code_readings_agree (pool : Pool) (contents : Bytes) :
    (∀ code log log', (Code.parse contents).run.run log = (.ok code, log') →
      Returns (decodeCode pool contents) (code.toCodeBody, code.attributes.filterMap (decoded? pool))) ∧
    ∀ body nested log log', (decodeCode pool contents).run.run log = (.ok (body, nested), log') →
      ∀ nameIndex declaredLength,
        Tells (Code.parse (info (.code nameIndex declaredLength body nested))).run
          (.ok ⟨body, nested.map toAttribute⟩) [] := by
  refine ⟨fun code log log' h => ?_, fun body nested log log' h nameIndex declaredLength => ?_⟩
  · unfold Code.parse at h
    cases hread : Code.read contents with
    | error error =>
      rw [hread] at h
      cases h
    | ok found =>
      obtain ⟨code', leftOver⟩ := found
      rw [hread] at h
      obtain ⟨_, _, _, h⟩ := run_bind_eq_ok h
      cases h
      exact returns_decodeCode_of_read pool hread
  · unfold Code.parse
    rw [read_of_run_decodeCode h nameIndex declaredLength]
    exact .pure _

end

/-- The contents of code with a nested attribute that has no name, and one that has. -/
def nestedContents : Bytes := returning.bytes ++ u16Bytes 2 ++ nestedRecords.flatMap Attribute.bytes

/-- Of code with two attributes, the one that has a name is decoded, and it is read alone when this is written. -/
theorem code_readings_agree_nested :
    Returns (Code.parse nestedContents) ⟨returning, nestedRecords⟩ ∧
      Returns (decodeCode namesPool nestedContents) (returning, [.raw 2 "()V" [5]]) ∧
      Tells (Code.parse (info (.code 3 26 returning [.raw 2 "()V" [5]]))).run
        (.ok ⟨returning, [⟨2, [5]⟩]⟩) [] := by
  have hparse : Returns (Code.parse nestedContents) ⟨returning, nestedRecords⟩ := fun _ => rfl
  have hmissing : namesPool.text 9 = .error (.outOfRange 9) := by decide +kernel
  have hname : namesPool.text 2 = .ok "()V" := by decide +kernel
  have hdecoded : nestedRecords.filterMap (decoded? namesPool) = [.raw 2 "()V" [5]] := by
    have hfirst : decoded? namesPool ⟨9, []⟩ = none := by
      rw [decoded?, hmissing]
    have hsecond : decoded? namesPool ⟨2, [5]⟩ = some (.raw 2 "()V" [5]) := by
      rw [decoded?, hname]
      rfl
    rw [nestedRecords, List.filterMap_cons_none hfirst, List.filterMap_cons_some hsecond, List.filterMap_nil]
  obtain ⟨hread, hwritten⟩ := code_readings_agree namesPool nestedContents
  obtain ⟨log', hrun⟩ := hparse.exists_run #[]
  have hdecode := hread _ _ _ hrun
  rw [hdecoded] at hdecode
  obtain ⟨after, hdecodeRun⟩ := hdecode.exists_run #[]
  exact ⟨hparse, hdecode, hwritten _ _ _ _ hdecodeRun 3 26⟩

end ClassGraft.ParsedAttribute
