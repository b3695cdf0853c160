import ClassGraft.Proofs.Alignment.Pairs
import ClassGraft.Proofs.Running

/-!
# Steps of an alignment

What each step of an alignment gives on two methods whose next bytes are known, and where it leaves the patched method:
bytes are passed over by the length of their own side, and only an index that is copied is changed, into that of the
base (`yields_copyIndex`).
-/

namespace ClassGraft.Alignment

/-- A computation gives a result that satisfies a condition in the state that it leaves. -/
def Yields {α : Type} (x : Aligner α) (before : Progress) (condition : α → Progress → Prop) : Prop :=
  ∀ log, ∃ a after log', runOn x before log = ((.ok a, after), log') ∧ condition a after

namespace Yields

variable {α β : Type} {before : Progress} {x : Aligner α}

theorem pure {a : α} {condition : α → Progress → Prop} (h : condition a before) :
    Yields (Pure.pure a) before condition :=
  fun log => ⟨a, before, log, rfl, h⟩

theorem imp {condition condition' : α → Progress → Prop} (hx : Yields x before condition)
    (h : ∀ a after, condition a after → condition' a after) : Yields x before condition' := by
  intro log
  obtain ⟨a, after, log', hrun, hcondition⟩ := hx log
  exact ⟨a, after, log', hrun, h a after hcondition⟩

theorem bind {f : α → Aligner β} {middle : α → Progress → Prop} {condition : β → Progress → Prop}
    (hx : Yields x before middle) (hf : ∀ a after, middle a after → Yields (f a) after condition) :
    Yields (x >>= f) before condition := by
  intro log
  obtain ⟨a, between, log', hfirst, hmiddle⟩ := hx log
  obtain ⟨b, after, log'', hrest, hcondition⟩ := hf a between hmiddle log'
  exact ⟨b, after, log'', by rw [runOn_bind, hfirst]; exact hrest, hcondition⟩

theorem get_bind {f : Progress → Aligner β} {condition : β → Progress → Prop}
    (h : Yields (f before) before condition) : Yields (get >>= f) before condition := by
  intro log
  rw [runOn_bind]
  exact h log

theorem modify_bind {g : Progress → Progress} {f : Unit → Aligner β} {condition : β → Progress → Prop}
    (h : Yields (f ()) (g before) condition) : Yields (modify g >>= f) before condition := by
  intro log
  rw [runOn_bind]
  exact h log

theorem lift_bind {note : Logged α} {f : α → Aligner β} {condition : β → Progress → Prop}
    (h : ∀ a, Yields (f a) before condition) : Yields ((liftM note : Aligner α) >>= f) before condition := by
  intro log
  rw [runOn_bind]
  exact h _ _

end Yields

/-! ### Positions -/

/-- The patched method with `past` before the position and `ahead` after it. -/
def reached (past ahead : Bytes) (report : AlignmentReport) : Progress := ⟨(past ++ ahead).toArray, past.length, report⟩

variable {past front ahead front' ahead' : Bytes} {report : AlignmentReport} {suffix : Suffix} {n m : Nat}

theorem yields_takeBase {before : Progress} (hsuffix : suffix.bytes = front ++ ahead) (hn : front.length = n) :
    Yields (takeBase n suffix) before fun taken after =>
      taken.1 = front ∧ taken.2.1.bytes = ahead ∧ after = before := by
  have hcut : cut n suffix.bytes = some (front, ahead) := cut_eq_some_iff.2 ⟨hsuffix, hn⟩
  rw [takeBase]
  split
  · rename_i h
    rw [hcut] at h
    cases h
    exact .pure ⟨rfl, rfl, rfl⟩
  · rename_i h
    rw [hcut] at h
    cases h

theorem yields_patchedEnd (hn : front.length = n) :
    Yields (patchedEnd n) (reached past (front ++ ahead) report) fun stop after =>
      stop = (past ++ front).length ∧ after = reached past (front ++ ahead) report := by
  subst hn
  refine .get_bind ?_
  rw [if_pos (by simp [reached])]
  exact .pure ⟨by simp [reached], rfl⟩

theorem yields_moveTo (h : n = (past ++ front).length) :
    Yields (moveTo n) (reached past (front ++ ahead) report) fun _ after =>
      after = reached (past ++ front) ahead report := by
  subst h
  intro log
  exact ⟨(), _, log, rfl, by simp [reached]⟩

theorem yields_takePatched (hn : front.length = n) :
    Yields (takePatched n) (reached past (front ++ ahead) report) fun number after =>
      number = ofBigEndian front ∧ after = reached (past ++ front) ahead report := by
  refine .get_bind ?_
  refine (yields_patchedEnd hn).bind fun stop after hstop => ?_
  obtain ⟨rfl, rfl⟩ := hstop
  refine .get_bind ((yields_moveTo rfl).bind fun _ after hafter => .pure ⟨?_, hafter⟩)
  simp [reached]

theorem yields_skipBoth (hsuffix : suffix.bytes = front' ++ ahead') (hn : front.length = n) (hm : front'.length = m) :
    Yields (skipBoth n m suffix) (reached past (front ++ ahead) report) fun left after =>
      left.1.bytes = ahead' ∧ after = reached (past ++ front) ahead report := by
  refine (yields_patchedEnd hn).bind fun stop after hstop => ?_
  obtain ⟨rfl, rfl⟩ := hstop
  refine (yields_takeBase hsuffix hm).bind fun taken after htaken => ?_
  obtain ⟨taken, left, hleft⟩ := taken
  obtain ⟨-, hbytes, rfl⟩ := htaken
  exact (yields_moveTo rfl).bind fun _ after hafter => .pure ⟨hbytes, hafter⟩

theorem yields_takeBoth (hsuffix : suffix.bytes = front' ++ ahead') (hn : front.length = n) (hm : front'.length = n) :
    Yields (takeBoth n suffix) (reached past (front ++ ahead) report) fun taken after =>
      taken.1 = ofBigEndian front ∧ taken.2.1 = ofBigEndian front' ∧ taken.2.2.1.bytes = ahead' ∧
        after = reached (past ++ front) ahead report := by
  refine (yields_takePatched hn).bind fun number after hnumber => ?_
  obtain ⟨rfl, rfl⟩ := hnumber
  refine (yields_takeBase hsuffix hm).bind fun taken after htaken => ?_
  obtain ⟨taken, left, hleft⟩ := taken
  obtain ⟨rfl, hbytes, rfl⟩ := htaken
  exact .pure ⟨rfl, rfl, hbytes, rfl⟩

/-! ### Indices -/

/-- The report after one more index has been compared. -/
def compared (index : Side → Index) (report : AlignmentReport) : AlignmentReport :=
  { report with visited := report.visited + 1, corrected := report.corrected + differs index }

theorem writeIndex_reached (i j : Index) :
    writeIndex (past ++ (u16Bytes i ++ ahead)).toArray past.length j = (past ++ (u16Bytes j ++ ahead)).toArray := by
  simp [writeIndex, u16Bytes, bigEndian]

private theorem ofBigEndian_length {bytes : Bytes} (h : bytes.length < 4294967296) :
    ofBigEndian (bigEndian 4 bytes.length) = bytes.length := by
  rw [ofBigEndian_bigEndian]
  exact Nat.mod_eq_of_lt h

theorem yields_copyIndex {index : Side → Index} (hsuffix : suffix.bytes = u16Bytes (index .base) ++ ahead') :
    Yields (copyIndex suffix) (reached past (u16Bytes (index .patched) ++ ahead) report) fun copied after =>
      copied.1 = index .base ∧ copied.2.1.bytes = ahead' ∧
        after = reached (past ++ u16Bytes (index .base)) ahead (compared index report) := by
  refine (yields_takeBase hsuffix (length_u16Bytes _)).bind fun taken after htaken => ?_
  obtain ⟨taken, left, hleft⟩ := taken
  obtain ⟨rfl, hbytes, rfl⟩ := htaken
  refine .get_bind ((yields_takePatched (length_u16Bytes _)).bind fun current after hcurrent => ?_)
  obtain ⟨rfl, rfl⟩ := hcurrent
  simp only [ofBigEndian_u16Bytes, UInt16.ofNat_toNat]
  split
  · rename_i h
    have heq : index .patched = index .base := UInt16.toNat_inj.1 h
    refine .modify_bind (.pure ⟨rfl, hbytes, ?_⟩)
    simp [reached, compared, differs, heq]
  -- the write does not move the position, which is behind the index by now
  · rename_i h
    have hne : index .patched ≠ index .base := fun heq => h (congrArg UInt16.toNat heq)
    refine .lift_bind fun _ => .modify_bind (.pure ⟨rfl, hbytes, ?_⟩)
    simp only [reached, compared, differs, if_neg hne, List.append_assoc, writeIndex_reached]
    simp [length_u16Bytes]

/-! ### Beginnings of attributes -/

/-- The attribute is opened at both declared ends, with its name copied. -/
theorem yields_openAttribute {pool : Pool} {index : Side → Index} {info : Side → Bytes} {text : String}
    (hname : pool.text (index .base) = .ok text) (hfits : ∀ side, (info side).length < 4294967296)
    (hsuffix : suffix.bytes = Attribute.bytes ⟨index .base, info .base⟩ ++ ahead') :
    Yields (openAttribute pool suffix)
      (reached past (Attribute.bytes ⟨index .patched, info .patched⟩ ++ ahead) report) fun opened after =>
        opened.isCode = decide (text = codeName) ∧
          opened.patchedEnd = (past ++ Attribute.bytes ⟨index .base, info .patched⟩).length ∧
          opened.contents.bytes = info .base ++ ahead' ∧ opened.rest.bytes = ahead' ∧
          after = reached (past ++ (u16Bytes (index .base) ++ bigEndian 4 (info .patched).length))
            (info .patched ++ ahead)
            { compared index report with attributes := report.attributes + 1 } := by
  simp only [Attribute.bytes, List.append_assoc] at hsuffix ⊢
  refine (yields_copyIndex hsuffix).bind fun copied after hcopied => ?_
  obtain ⟨copied, afterName, hsize⟩ := copied
  obtain ⟨rfl, hafterName, rfl⟩ := hcopied
  refine .modify_bind ?_
  refine (yields_takeBoth hafterName (length_bigEndian 4 _) (length_bigEndian 4 _)).bind fun taken after htaken => ?_
  obtain ⟨patchedLength, baseLength, contents, hcontents⟩ := taken
  obtain ⟨rfl, rfl, hbytes, rfl⟩ := htaken
  rw [ofBigEndian_length (hfits .patched), ofBigEndian_length (hfits .base)]
  refine (yields_patchedEnd rfl).bind fun stop after hstop => ?_
  obtain ⟨rfl, rfl⟩ := hstop
  refine (yields_takeBase hbytes rfl).bind fun taken after htaken => ?_
  obtain ⟨taken, rest, hrest⟩ := taken
  obtain ⟨-, hrestBytes, rfl⟩ := htaken
  simp only [hname]
  exact .pure ⟨rfl, by simp, hbytes, hrestBytes, by simp [reached, compared]⟩

theorem yields_agreeOn {before : Progress} :
    Yields (agreeOn n m) before fun count after => count = min n m ∧ after = before := by
  rw [agreeOn]
  dsimp only
  split
  · exact .lift_bind fun _ => .pure ⟨rfl, rfl⟩
  · exact .pure ⟨rfl, rfl⟩

/-! ### Beginnings of code -/

private theorem length_handlers (handlers : List ExceptionHandler) :
    (handlers.flatMap ExceptionHandler.bytes).length = 8 * handlers.length := by
  induction handlers with
  | nil => rfl
  | cons first rest ih =>
    rw [List.flatMap_cons, List.length_append, ih, List.length_cons]
    simp only [ExceptionHandler.bytes, List.length_append, length_u16Bytes]
    omega

private theorem length_countBytes (handlers : List ExceptionHandler) : (countBytes handlers).length = 2 :=
  length_bigEndian 2 _

private theorem ofBigEndian_countBytes {handlers : List ExceptionHandler} (h : handlers.length < 65536) :
    ofBigEndian (countBytes handlers) = handlers.length := by
  rw [countBytes, ofBigEndian_bigEndian]
  exact Nat.mod_eq_of_lt h

/-- Both sides are passed over up to their nested attributes, of which as many are aligned as both have. -/
theorem yields_openCode {body : Side → CodeBody} {count : Side → UInt16} (hfits : ∀ side, (body side).Fits)
    (hsuffix : suffix.bytes = (body .base).bytes ++ u16Bytes (count .base) ++ ahead') :
    Yields (openCode suffix)
      (reached past ((body .patched).bytes ++ u16Bytes (count .patched) ++ ahead) report) fun opened after =>
        opened.1 = min (count .patched).toNat (count .base).toNat ∧ opened.2.1.bytes = ahead' ∧
          after = reached (past ++ ((body .patched).bytes ++ u16Bytes (count .patched))) ahead report := by
  have hcut : ∀ side rest, (body side).bytes ++ u16Bytes (count side) ++ rest =
      (u16Bytes (body side).maxStack ++ u16Bytes (body side).maxLocals) ++ (bigEndian 4 (body side).code.length ++
        ((body side).code ++ (countBytes (body side).handlers ++
          ((body side).handlers.flatMap ExceptionHandler.bytes ++ (u16Bytes (count side) ++ rest))))) := by
    intro side rest
    simp [CodeBody.bytes, countedBytes]
  have hstacks : ∀ side, (u16Bytes (body side).maxStack ++ u16Bytes (body side).maxLocals).length = 4 := by
    intro side
    rw [List.length_append, length_u16Bytes, length_u16Bytes]
  rw [hcut] at hsuffix ⊢
  refine (yields_skipBoth hsuffix (hstacks .patched) (hstacks .base)).bind fun left after hleft => ?_
  obtain ⟨atCode, h₁⟩ := left
  obtain ⟨hatCode, rfl⟩ := hleft
  refine (yields_takeBoth hatCode (length_bigEndian 4 _) (length_bigEndian 4 _)).bind fun taken after htaken => ?_
  obtain ⟨patchedCode, baseCode, atInstructions, h₂⟩ := taken
  obtain ⟨rfl, rfl, hatInstructions, rfl⟩ := htaken
  rw [ofBigEndian_length (hfits .patched).1, ofBigEndian_length (hfits .base).1]
  refine (yields_skipBoth hatInstructions rfl rfl).bind fun left after hleft => ?_
  obtain ⟨atHandlerCount, h₃⟩ := left
  obtain ⟨hatHandlerCount, rfl⟩ := hleft
  refine (yields_takeBoth hatHandlerCount (length_countBytes _) (length_countBytes _)).bind
    fun taken after htaken => ?_
  obtain ⟨patchedHandlers, baseHandlers, atHandlers, h₄⟩ := taken
  obtain ⟨rfl, rfl, hatHandlers, rfl⟩ := htaken
  rw [ofBigEndian_countBytes (hfits .patched).2, ofBigEndian_countBytes (hfits .base).2]
  refine (yields_skipBoth hatHandlers (length_handlers _) (length_handlers _)).bind fun left after hleft => ?_
  obtain ⟨atAttributeCount, h₅⟩ := left
  obtain ⟨hatAttributeCount, rfl⟩ := hleft
  refine (yields_takeBoth hatAttributeCount (length_u16Bytes _) (length_u16Bytes _)).bind fun taken after htaken => ?_
  obtain ⟨patchedCount, baseCount, rest, h₆⟩ := taken
  obtain ⟨rfl, rfl, hrest, rfl⟩ := htaken
  rw [ofBigEndian_u16Bytes, ofBigEndian_u16Bytes]
  refine yields_agreeOn.bind fun agreed after hagreed => ?_
  obtain ⟨rfl, rfl⟩ := hagreed
  exact .pure ⟨rfl, hrest, by simp [CodeBody.bytes, countedBytes]⟩

end ClassGraft.Alignment
