import ClassGraft.Alignment
import ClassGraft.Proofs.Running
import Mathlib.Data.List.Basic

/-!
# Alignment of a method with itself

When both sides are the same, whatever bytes they are, alignment changes nothing (`untouched_align`), and there is
nothing that it would note (`align_itself`).  As long as both have been read up to the same position, every step reads
the same from both, so an index is never corrected and both go on from the same position.  Where the walk through the
contents of a code attribute ends does not matter, since both then go on at the declared end.
-/

namespace ClassGraft.Alignment

/-- The patched method is still the given bytes, and nothing has been corrected. -/
structure Untouched (whole : Bytes) (progress : Progress) : Prop where
  patched : progress.patched = whole.toArray
  corrected : progress.report.corrected = 0

/-- The base is the patched method, and both have been read up to the same position. -/
structure Level (whole : Bytes) (suffix : Suffix) (progress : Progress) : Prop where
  untouched : Untouched whole progress
  left : suffix.bytes = whole.drop progress.position

/-- Whatever comes of a computation, it notes nothing, the patched method stays as it is, and what it gives satisfies a
condition. -/
def Keeps {α : Type} (whole : Bytes) (x : Aligner α) (before : Progress) (condition : α → Progress → Prop) : Prop :=
  ∀ log, ∃ outcome after, runOn x before log = ((outcome, after), log) ∧ Untouched whole after ∧
    ∀ a, outcome = .ok a → condition a after

variable {whole : Bytes} {before : Progress} {suffix : Suffix}

namespace Keeps

variable {α β : Type} {condition : α → Progress → Prop} {result : β → Progress → Prop}

theorem pure {a : α} (h : Untouched whole before) (ha : condition a before) :
    Keeps whole (Pure.pure a) before condition :=
  fun _ => ⟨.ok a, before, rfl, h, fun _ heq => by cases heq; exact ha⟩

theorem throw {error : AlignmentError} (h : Untouched whole before) :
    Keeps whole (MonadExcept.throw error) before condition :=
  fun _ => ⟨.error error, before, rfl, h, fun _ heq => by cases heq⟩

theorem bind {x : Aligner α} {f : α → Aligner β} (hx : Keeps whole x before condition)
    (hf : ∀ a after, Untouched whole after → condition a after → Keeps whole (f a) after result) :
    Keeps whole (x >>= f) before result := by
  intro log
  obtain ⟨outcome, after, hrun, hkept, hcondition⟩ := hx log
  rw [runOn_bind, hrun]
  cases outcome with
  | error error => exact ⟨.error error, after, rfl, hkept, fun _ heq => by cases heq⟩
  | ok a => exact hf a after hkept (hcondition a rfl) log

theorem get_bind {f : Progress → Aligner β} (h : Keeps whole (f before) before result) :
    Keeps whole (get >>= f) before result := by
  intro log
  rw [runOn_bind]
  exact h log

theorem modify_bind {g : Progress → Progress} {f : Unit → Aligner β} (h : Keeps whole (f ()) (g before) result) :
    Keeps whole (modify g >>= f) before result := by
  intro log
  rw [runOn_bind]
  exact h log

end Keeps

theorem keeps_takeBase (h : Untouched whole before) (n : Nat) :
    Keeps whole (takeBase n suffix) before fun taken after =>
      after = before ∧ taken.1 = suffix.bytes.take n ∧ taken.2.1.bytes = suffix.bytes.drop n := by
  unfold takeBase
  split
  · rename_i front rest hcut
    obtain ⟨hbytes, rfl⟩ := cut_eq_some_iff.1 hcut
    refine .pure h ⟨rfl, ?_, ?_⟩ <;> simp [hbytes]
  · exact .throw h

theorem keeps_patchedEnd (h : Untouched whole before) (n : Nat) :
    Keeps whole (patchedEnd n) before fun stop after => after = before ∧ stop = before.position + n := by
  refine .get_bind ?_
  by_cases hfits : before.position + n ≤ before.patched.size
  · rw [if_pos hfits]
    exact .pure h ⟨rfl, rfl⟩
  · rw [if_neg hfits]
    exact .throw h

/-- The number that is taken is that of the next bytes. -/
theorem keeps_takePatched (h : Untouched whole before) (k : Nat) :
    Keeps whole (takePatched k) before fun number after =>
      number = ofBigEndian ((whole.drop before.position).take k) ∧
        after = { before with position := before.position + k } := by
  refine .get_bind ((keeps_patchedEnd h k).bind fun stop after _ hstop => ?_)
  obtain ⟨rfl, rfl⟩ := hstop
  refine .get_bind (.modify_bind (.pure ⟨h.patched, h.corrected⟩ ⟨?_, rfl⟩))
  rw [h.patched]
  simp

/-- Both sides go on by the same number of bytes. -/
theorem Level.advance (h : Level whole suffix before) {n : Nat} {rest : Suffix}
    (hrest : rest.bytes = suffix.bytes.drop n) :
    Level whole rest { before with position := before.position + n } := by
  refine ⟨⟨h.untouched.patched, h.untouched.corrected⟩, ?_⟩
  rw [hrest, h.left, List.drop_drop]

theorem keeps_skipBoth (h : Level whole suffix before) (n : Nat) :
    Keeps whole (skipBoth n n suffix) before fun left after => Level whole left.1 after := by
  refine (keeps_patchedEnd h.untouched n).bind fun stop after _ hstop => ?_
  obtain ⟨rfl, rfl⟩ := hstop
  refine (keeps_takeBase h.untouched n).bind fun taken after _ htaken => ?_
  obtain ⟨taken, rest, hrest⟩ := taken
  obtain ⟨rfl, -, hbytes⟩ := htaken
  have hlevel := h.advance hbytes
  exact .modify_bind (.pure hlevel.untouched hlevel)

/-- The same number is read from both sides. -/
theorem keeps_takeBoth (h : Level whole suffix before) (k : Nat) :
    Keeps whole (takeBoth k suffix) before fun taken after =>
      taken.1 = taken.2.1 ∧ Level whole taken.2.2.1 after := by
  refine (keeps_takePatched h.untouched k).bind fun number after hkept hnumber => ?_
  obtain ⟨rfl, rfl⟩ := hnumber
  refine (keeps_takeBase hkept k).bind fun taken after hkept htaken => ?_
  obtain ⟨taken, rest, hrest⟩ := taken
  obtain ⟨rfl, rfl, hbytes⟩ := htaken
  exact .pure hkept ⟨by rw [h.left], h.advance hbytes⟩

/-- An index is compared with itself. -/
theorem keeps_copyIndex (h : Level whole suffix before) :
    Keeps whole (copyIndex suffix) before fun copied after => Level whole copied.2.1 after := by
  refine (keeps_takeBase h.untouched 2).bind fun taken after _ htaken => ?_
  obtain ⟨taken, rest, hrest⟩ := taken
  obtain ⟨rfl, rfl, hbytes⟩ := htaken
  refine .get_bind ((keeps_takePatched h.untouched 2).bind fun current after hkept hcurrent => ?_)
  obtain ⟨rfl, rfl⟩ := hcurrent
  have hsame : ofBigEndian ((whole.drop after.position).take 2) =
      (UInt16.ofNat (ofBigEndian (suffix.bytes.take 2))).toNat := by
    have hlt := ofBigEndian_lt (suffix.bytes.take 2)
    have hpow : Nat.pow 256 (suffix.bytes.take 2).length ≤ 65536 :=
      Nat.pow_le_pow_right (by decide : 0 < 256) (List.length_take_le 2 _)
    rw [← h.left, UInt16.toNat_ofNat_of_lt' (Nat.lt_of_lt_of_le hlt hpow)]
  dsimp only
  rw [if_pos hsame]
  have hlevel := h.advance hbytes
  exact .modify_bind (.pure ⟨hkept.patched, hkept.corrected⟩ ⟨⟨hkept.patched, hkept.corrected⟩, hlevel.left⟩)

/-- An attribute is opened at the same place on both sides, and has the same declared end. -/
theorem keeps_openAttribute (pool : Pool) (h : Level whole suffix before) :
    Keeps whole (openAttribute pool suffix) before fun opened after =>
      Level whole opened.contents after ∧ opened.rest.bytes = whole.drop opened.patchedEnd := by
  refine (keeps_copyIndex h).bind fun copied after _ hlevel => ?_
  obtain ⟨index, afterName, hname⟩ := copied
  have hopened : Level whole afterName { after with report.attributes := after.report.attributes + 1 } :=
    ⟨⟨hlevel.untouched.patched, hlevel.untouched.corrected⟩, hlevel.left⟩
  refine .modify_bind ((keeps_takeBoth hopened 4).bind fun taken after _ htaken => ?_)
  obtain ⟨patchedLength, baseLength, contents, hcontents⟩ := taken
  obtain ⟨rfl : patchedLength = baseLength, hlevel⟩ := htaken
  refine (keeps_patchedEnd hlevel.untouched _).bind fun stop after _ hstop => ?_
  obtain ⟨rfl, rfl⟩ := hstop
  refine (keeps_takeBase hlevel.untouched _).bind fun taken after hkept htaken => ?_
  obtain ⟨taken, rest, hrest⟩ := taken
  obtain ⟨rfl, -, hbytes⟩ := htaken
  cases pool.text index with
  | error error => exact .throw hkept
  | ok name => exact .pure hkept ⟨hlevel, by rw [hbytes, hlevel.left, List.drop_drop]⟩

/-- Equal numbers of attributes are nothing to note. -/
theorem keeps_agreeOn (h : Untouched whole before) (n : Nat) :
    Keeps whole (agreeOn n n) before fun _ after => after = before := by
  unfold agreeOn
  dsimp only
  rw [if_neg (fun hne => hne rfl)]
  exact .pure h rfl

theorem keeps_openCode (h : Level whole suffix before) :
    Keeps whole (openCode suffix) before fun opened after => Level whole opened.2.1 after := by
  refine (keeps_skipBoth h 4).bind fun left after _ hlevel => ?_
  obtain ⟨atCode, h₁⟩ := left
  refine (keeps_takeBoth hlevel 4).bind fun taken after _ htaken => ?_
  obtain ⟨patchedCode, baseCode, atInstructions, h₂⟩ := taken
  obtain ⟨rfl : patchedCode = baseCode, hlevel⟩ := htaken
  refine (keeps_skipBoth hlevel _).bind fun left after _ hlevel => ?_
  obtain ⟨atHandlerCount, h₃⟩ := left
  refine (keeps_takeBoth hlevel 2).bind fun taken after _ htaken => ?_
  obtain ⟨patchedHandlers, baseHandlers, atHandlers, h₄⟩ := taken
  obtain ⟨rfl : patchedHandlers = baseHandlers, hlevel⟩ := htaken
  refine (keeps_skipBoth hlevel _).bind fun left after _ hlevel => ?_
  obtain ⟨atAttributeCount, h₅⟩ := left
  refine (keeps_takeBoth hlevel 2).bind fun taken after _ htaken => ?_
  obtain ⟨patchedCount, baseCount, rest, h₆⟩ := taken
  obtain ⟨rfl : patchedCount = baseCount, hlevel⟩ := htaken
  refine (keeps_agreeOn hlevel.untouched _).bind fun count after hkept hafter => ?_
  subst hafter
  exact .pure hkept hlevel

/-- Attributes are passed over from one declared end to the next. -/
theorem keeps_alignAttributes (pool : Pool) (count : Nat) (suffix : Suffix) (h : Level whole suffix before) :
    Keeps whole (alignAttributes pool count suffix) before fun _ _ => True := by
  induction count, suffix using alignAttributes.induct generalizing before with
  | case1 suffix =>
    rw [alignAttributes]
    exact .pure h.untouched trivial
  | case2 suffix count ihrest ihinner =>
    rw [alignAttributes]
    refine (keeps_openAttribute pool h).bind fun opened after hkept hopened => ?_
    obtain ⟨hcontents, hend⟩ := hopened
    have hrest : ∀ after, Untouched whole after →
        Keeps whole (moveTo opened.patchedEnd >>= fun _ => alignAttributes pool count opened.rest) after
          fun _ _ => True := by
      intro after hkept
      exact .modify_bind (ihrest opened ⟨⟨hkept.patched, hkept.corrected⟩, hend⟩)
    -- The contents are walked through from the same position, but only the declared end decides where to go on.
    by_cases hcode : opened.isCode = true
    · rw [if_pos hcode]
      refine (keeps_openCode hcontents).bind fun inside after _ hinside => ?_
      exact (ihinner opened inside.1 inside.2.1 inside.2.2 hinside).bind fun _ after hkept _ => hrest after hkept
    · rw [if_neg hcode]
      exact hrest after hkept

theorem keeps_alignMethod (pool : Pool) (h : Level whole suffix before) :
    Keeps whole (alignMethod pool suffix) before fun _ _ => True := by
  refine (keeps_skipBoth h 2).bind fun left after _ hlevel => ?_
  obtain ⟨atName, h₁⟩ := left
  refine (keeps_copyIndex hlevel).bind fun copied after _ hlevel => ?_
  obtain ⟨name, atDescriptor, h₂⟩ := copied
  refine (keeps_copyIndex hlevel).bind fun copied after _ hlevel => ?_
  obtain ⟨descriptor, atCount, h₃⟩ := copied
  refine (keeps_takeBoth hlevel 2).bind fun taken after _ htaken => ?_
  obtain ⟨patchedCount, baseCount, rest, h₄⟩ := taken
  obtain ⟨rfl : patchedCount = baseCount, hlevel⟩ := htaken
  refine (keeps_agreeOn hlevel.untouched _).bind fun count after _ hafter => ?_
  subst hafter
  exact keeps_alignAttributes pool count rest hlevel

/-- Where an alignment of bytes with themselves ends, nothing has changed and nothing has been noted. -/
private theorem exists_run_itself (pool : Pool) (whole : Bytes) (log : Log) :
    ∃ (outcome : Except AlignmentError Unit) (after : Progress), (align pool whole whole).run log =
      ((outcome.map fun _ => after.report, after.patched.toList), log) ∧ Untouched whole after := by
  have hstart : Level whole ⟨0, whole⟩ ⟨whole.toArray, 0, ⟨0, 0, 0⟩⟩ := ⟨⟨rfl, rfl⟩, rfl⟩
  obtain ⟨outcome, after, halign, hkept, -⟩ := keeps_alignMethod pool hstart log
  have hrun : (align pool whole whole).run log =
      match runOn (alignMethod pool ⟨0, whole⟩) ⟨whole.toArray, 0, ⟨0, 0, 0⟩⟩ log with
      | ((outcome, after), log') => ((outcome.map fun _ => after.report, after.patched.toList), log') := rfl
  rw [halign] at hrun
  exact ⟨outcome, after, hrun, hkept⟩

/-- Aligning bytes with themselves leaves them as they are, whether or not it comes to an end. -/
theorem untouched_align (pool : Pool) (whole : Bytes) (log : Log) :
    ((align pool whole whole).run log).1.2 = whole ∧
      ∀ report, ((align pool whole whole).run log).1.1 = .ok report → report.corrected = 0 := by
  obtain ⟨outcome, after, hrun, hkept⟩ := exists_run_itself pool whole log
  rw [hrun]
  refine ⟨by rw [hkept.patched], fun report hreport => ?_⟩
  cases outcome with
  | error error => cases hreport
  | ok _ =>
    cases hreport
    exact hkept.corrected

/-- Aligning bytes with themselves has nothing to note. -/
theorem quiet_align (pool : Pool) (whole : Bytes) (log : Log) : ((align pool whole whole).run log).2 = log := by
  obtain ⟨outcome, after, hrun, -⟩ := exists_run_itself pool whole log
  rw [hrun]

/-- Aligning any bytes with themselves, whether or not they are a method, gives them back as they were and notes
nothing, and when it succeeds it has corrected nothing. -/
theorem align_itself (pool : Pool) (whole : Bytes) (log : Log) :
    ∃ outcome, (align pool whole whole).run log = ((outcome, whole), log) ∧
      ∀ report, outcome = .ok report → report.corrected = 0 := by
  obtain ⟨hwhole, hcorrected⟩ := untouched_align pool whole log
  exact ⟨_, Prod.ext (Prod.ext rfl hwhole) (quiet_align pool whole log), hcorrected⟩

end ClassGraft.Alignment
