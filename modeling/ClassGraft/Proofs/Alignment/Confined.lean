import ClassGraft.Proofs.Alignment.Bounds
import ClassGraft.Proofs.Alignment.Steady

/-!
# What the contents of an attribute confine

The lengths inside the contents of an attribute are only checked against the whole patched method, so the walk through
them may leave the extent that the attribute declares.  As long as it does not, nothing outside of this extent is
changed, whatever else is wrong with the contents (`contents_confined`).  The reason is that a walk that finds all the
bytes that it needs does the same with more bytes behind them, and leaves these alone (`Framed`).  When it does leave
the extent, it can change the instructions of the next attribute (`contents_not_confined`).
-/

namespace ClassGraft.Alignment

/-- The same state with more bytes behind the patched method. -/
def Progress.followedBy (progress : Progress) (tail : Array UInt8) : Progress :=
  { progress with patched := progress.patched ++ tail }

/-- The same state without the bytes of the patched method from a position on. -/
def Progress.upTo (progress : Progress) (stop : Nat) : Progress :=
  { progress with patched := progress.patched.extract 0 stop }

/-- From a state, a computation either needs more bytes of the patched method, or it does the same with more bytes
behind it, and leaves these as they are. -/
def Framed {α : Type} (x : Aligner α) (before : Progress) : Prop :=
  ∀ tail log outcome after log', runOn x before log = ((outcome, after), log') →
    (∀ offset needed, outcome ≠ .error (.overrun .patched offset needed)) →
      runOn x (before.followedBy tail) log = ((outcome, after.followedBy tail), log')

namespace Framed

variable {α β : Type} {before : Progress} {x : Aligner α}

theorem pure (a : α) : Framed (Pure.pure a) before := by
  intro tail log outcome after log' hrun _
  cases hrun
  rfl

theorem throw (error : AlignmentError) : Framed (MonadExcept.throw error : Aligner α) before := by
  intro tail log outcome after log' hrun _
  cases hrun
  rfl

theorem bind {f : α → Aligner β} {kind : Progress → Prop} {condition : α → Progress → Prop} (hx : Framed x before)
    (hleaves : Leaves x before kind condition) (hf : ∀ a after, condition a after → Framed (f a) after) :
    Framed (x >>= f) before := by
  intro tail log outcome after log' hrun hfinds
  rw [runOn_bind] at hrun ⊢
  rcases hfirst : runOn x before log with ⟨⟨_ | a, between⟩, middle⟩
  · rw [hfirst] at hrun
    cases hrun
    rw [hx tail log _ _ _ hfirst fun offset needed heq => hfinds offset needed (by cases heq; rfl)]
  · rw [hfirst] at hrun
    rw [hx tail log _ _ _ hfirst fun _ _ heq => by cases heq]
    exact hf a between ((hleaves _ _ _ _ hfirst).2 a rfl) tail middle outcome after log' hrun hfinds

theorem get_bind {f : Progress → Aligner β} (hf : ∀ tail, f (before.followedBy tail) = f before)
    (h : Framed (f before) before) : Framed (get >>= f) before := by
  intro tail log outcome after log' hrun hfinds
  rw [runOn_bind] at hrun ⊢
  change runOn (f (before.followedBy tail)) (before.followedBy tail) log = _
  rw [hf tail]
  exact h tail log outcome after log' hrun hfinds

theorem modify_bind {g : Progress → Progress} {f : Unit → Aligner β}
    (hg : ∀ tail, g (before.followedBy tail) = (g before).followedBy tail) (h : Framed (f ()) (g before)) :
    Framed (modify g >>= f) before := by
  intro tail log outcome after log' hrun hfinds
  rw [runOn_bind] at hrun ⊢
  change runOn (f ()) (g (before.followedBy tail)) log = _
  rw [hg tail]
  exact h tail log outcome after log' hrun hfinds

theorem lift_bind {note : Logged α} {f : α → Aligner β} (h : ∀ a, Framed (f a) before) :
    Framed ((liftM note : Aligner α) >>= f) before := by
  intro tail log outcome after log' hrun hfinds
  rw [runOn_bind] at hrun ⊢
  exact h _ tail _ outcome after log' hrun hfinds

end Framed

section

variable {buffer tail : Array UInt8} {start stop position : Nat}

private theorem extract_append (h : stop ≤ buffer.size) :
    (buffer ++ tail).extract start stop = buffer.extract start stop := by
  rw [Array.extract_append, Nat.sub_eq_zero_of_le h]
  simp

private theorem writeIndex_append (h : position + 2 ≤ buffer.size) (index : Index) :
    writeIndex (buffer ++ tail) position index = writeIndex buffer position index ++ tail := by
  unfold writeIndex
  rw [Array.setIfInBounds_append_left, Array.setIfInBounds_append_left]
  · simp only [Array.size_setIfInBounds]
    omega
  · omega

end

/-! ### Steps -/

section

variable {before : Progress} {suffix : Suffix}

theorem framed_takeBase (n : Nat) : Framed (takeBase n suffix) before := by
  unfold takeBase
  split
  · exact .pure _
  · exact .throw _

theorem framed_patchedEnd (n : Nat) : Framed (patchedEnd n) before := by
  intro tail log outcome after log' hrun hfinds
  unfold patchedEnd at hrun ⊢
  rw [runOn_bind] at hrun ⊢
  dsimp only [runOn_get] at hrun ⊢
  by_cases hfits : before.position + n ≤ before.patched.size
  · have hstill : (before.followedBy tail).position + n ≤ (before.followedBy tail).patched.size := by
      simp only [Progress.followedBy, Array.size_append]
      omega
    rw [if_pos hfits] at hrun
    rw [if_pos hstill]
    cases hrun
    rfl
  · rw [if_neg hfits] at hrun
    cases hrun
    exact absurd rfl (hfinds _ _)

theorem framed_takePatched (k : Nat) : Framed (takePatched k) before := by
  refine .get_bind (fun _ => rfl) ((framed_patchedEnd k).bind (leaves_patchedEnd k) fun stop after hstop => ?_)
  obtain ⟨rfl, rfl, hfits⟩ := hstop
  refine .get_bind (fun tail => ?_) (.modify_bind (fun _ => rfl) (.pure _))
  simp only [Progress.followedBy, extract_append hfits]

theorem framed_skipBoth (n m : Nat) : Framed (skipBoth n m suffix) before := by
  refine (framed_patchedEnd n).bind (leaves_patchedEnd n) fun stop after _ => ?_
  refine (framed_takeBase m).bind (leaves_takeBase m) fun taken after _ => ?_
  exact .modify_bind (fun _ => rfl) (.pure _)

theorem framed_takeBoth (k : Nat) : Framed (takeBoth k suffix) before := by
  refine (framed_takePatched k).bind (leaves_takePatched k) fun number after _ => ?_
  exact (framed_takeBase k).bind (leaves_takeBase k) fun taken after _ => .pure _

theorem framed_copyIndex : Framed (copyIndex suffix) before := by
  refine (framed_takeBase 2).bind (leaves_takeBase 2) fun taken before htaken => ?_
  obtain ⟨rfl, -⟩ := htaken
  refine .get_bind (fun _ => rfl) ((framed_takePatched 2).bind (leaves_takePatched 2) fun current after hcurrent => ?_)
  obtain ⟨rfl, hfits, -⟩ := hcurrent
  dsimp only
  split
  · exact .modify_bind (fun _ => rfl) (.pure _)
  · refine .lift_bind fun _ => .modify_bind (fun tail => ?_) (.pure _)
    simp only [Progress.followedBy, Progress.moved, writeIndex_append hfits]

theorem framed_agreeOn (patchedCount baseCount : Nat) : Framed (agreeOn patchedCount baseCount) before := by
  unfold agreeOn
  dsimp only
  split
  · exact .lift_bind fun _ => .pure _
  · exact .pure _

theorem framed_openAttribute (pool : Pool) : Framed (openAttribute pool suffix) before := by
  refine framed_copyIndex.bind leaves_copyIndex fun copied after _ => .modify_bind (fun _ => rfl) ?_
  refine (framed_takeBoth 4).bind (leaves_takeBoth 4) fun lengths after _ => ?_
  refine (framed_patchedEnd _).bind (leaves_patchedEnd _) fun stop after _ => ?_
  refine (framed_takeBase _).bind (leaves_takeBase _) fun taken after _ => ?_
  dsimp only
  split
  · exact .throw _
  · exact .pure _

theorem framed_openCode : Framed (openCode suffix) before := by
  refine (framed_skipBoth 4 4).bind (leaves_skipBoth 4 4) fun atCode after _ => ?_
  refine (framed_takeBoth 4).bind (leaves_takeBoth 4) fun codes after _ => ?_
  refine (framed_skipBoth _ _).bind (leaves_skipBoth _ _) fun atHandlerCount after _ => ?_
  refine (framed_takeBoth 2).bind (leaves_takeBoth 2) fun handlers after _ => ?_
  refine (framed_skipBoth _ _).bind (leaves_skipBoth _ _) fun atAttributeCount after _ => ?_
  refine (framed_takeBoth 2).bind (leaves_takeBoth 2) fun counts after _ => ?_
  exact (framed_agreeOn _ _).bind (leaves_agreeOn _ _) fun count after _ => .pure _

theorem framed_alignAttributes (pool : Pool) (count : Nat) : Framed (alignAttributes pool count suffix) before := by
  induction count, suffix using alignAttributes.induct generalizing before with
  | case1 suffix =>
    rw [alignAttributes]
    exact .pure _
  | case2 suffix count ihrest ihinner =>
    rw [alignAttributes]
    refine (framed_openAttribute pool).bind (leaves_openAttribute pool) fun opened opening _ => ?_
    have hrest : ∀ after, Framed (moveTo opened.patchedEnd >>= fun _ => alignAttributes pool count opened.rest) after :=
      fun after => .modify_bind (fun _ => rfl) (ihrest opened)
    split
    · refine framed_openCode.bind leaves_openCode fun inside start _ => ?_
      obtain ⟨nested, inner, hinner⟩ := inside
      exact (ihinner opened nested inner hinner).bind (leaves_alignAttributes pool nested) fun _ after _ => hrest after
    · exact hrest opening

/-- The walk through the contents of an attribute that finds all the bytes it needs does not change what is behind. -/
theorem framed_alignContents {pool : Pool} {opened : Opened suffix} : Framed (alignContents pool opened) before := by
  unfold alignContents
  split
  · exact framed_openCode.bind leaves_openCode fun inside start _ => framed_alignAttributes pool _
  · exact .pure _

/-- The walk through the contents of an attribute does without the bytes behind the end that the attribute declares. -/
def EndsWithin (pool : Pool) (opened : Opened suffix) (opening : Progress) : Prop :=
  ∀ offset needed, (runOn (alignContents pool opened) (opening.upTo opened.patchedEnd) #[]).1.1 ≠
    .error (.overrun .patched offset needed)

theorem steadyOn_alignContents (pool : Pool) (opened : Opened suffix) : SteadyOn (alignContents pool opened) := by
  unfold alignContents
  split
  · exact .bind (steadyOn_openCode _) fun inside => steadyOn_alignAttributes pool _ _
  · exact .pure _

private theorem followedBy_upTo {progress : Progress} {stop : Nat} (h : stop ≤ progress.patched.size) :
    (progress.upTo stop).followedBy (progress.patched.extract stop) = progress := by
  simp only [Progress.followedBy, Progress.upTo, Array.extract_append_extract]
  simp [Nat.max_eq_right h]

/-- A walk that does without the bytes behind the end of an attribute leaves them as they are. -/
theorem kept_behind {pool : Pool} {opened : Opened suffix} {opening after : Progress} {log log' : Log}
    {outcome : Except AlignmentError Unit} (hend : opened.patchedEnd ≤ opening.patched.size)
    (hwithin : EndsWithin pool opened opening)
    (hrun : runOn (alignContents pool opened) opening log = ((outcome, after), log')) {i : Nat}
    (hi : opened.patchedEnd ≤ i) : after.patched[i]? = opening.patched[i]? := by
  have hwhole := followedBy_upTo hend
  generalize opening.patched.extract opened.patchedEnd = tail at hwhole
  rcases hcut : runOn (alignContents pool opened) (opening.upTo opened.patchedEnd) log with ⟨⟨found, left⟩, log''⟩
  have hfinds : ∀ offset needed, found ≠ .error (.overrun .patched offset needed) := by
    intro offset needed heq
    refine hwithin offset needed ?_
    rw [steadyOn_alignContents pool opened _ #[] log, hcut]
    exact heq
  -- The walk through the whole method is the one through its front, so behind the end stands the same tail as before.
  have hframed := framed_alignContents tail log found left log'' hcut hfinds
  rw [hwhole, hrun] at hframed
  obtain rfl : after = left.followedBy tail := congrArg (fun run => run.1.2) hframed
  have hcutSize : (opening.upTo opened.patchedEnd).patched.size = opened.patchedEnd := by
    simp only [Progress.upTo, Array.size_extract]
    omega
  have hleftSize : left.patched.size = opened.patchedEnd :=
    ((leaves_alignContents pool opened _ _ _ _ hcut).1.size_eq).trans hcutSize
  rw [← hwhole]
  simp only [Progress.followedBy]
  rw [Array.getElem?_append_right (by omega), Array.getElem?_append_right (by omega), hleftSize, hcutSize]

/-- Once an attribute is begun, whatever comes of the walk through its contents, the patched method keeps its length and
all bytes before these contents.  It also keeps all bytes behind the end that the attribute declares, when the walk does
without them. -/
theorem contents_confined {pool : Pool} {opened : Opened suffix} {before opening : Progress} {log log' : Log}
    (hopen : runOn (openAttribute pool suffix) before log = ((.ok opened, opening), log')) :
    (opening.position = before.position + 6 ∧ opened.patchedEnd ≤ opening.patched.size ∧
      opened.patchedEnd = opening.position +
        ofBigEndian (opening.patched.extract (before.position + 2) (before.position + 6)).toList) ∧
    ∀ log outcome after log', runOn (alignContents pool opened) opening log = ((outcome, after), log') →
      after.patched.size = opening.patched.size ∧
        (∀ i < opening.position, after.patched[i]? = opening.patched[i]?) ∧
        (EndsWithin pool opened opening → ∀ i, opened.patchedEnd ≤ i → after.patched[i]? = opening.patched[i]?) := by
  have hbegun := (leaves_openAttribute pool _ _ _ _ hopen).2 opened rfl
  refine ⟨⟨hbegun.position, hbegun.end_le, hbegun.end_eq⟩, fun log outcome after log' hrun => ?_⟩
  have honward := (leaves_alignContents pool opened _ _ _ _ hrun).1
  exact ⟨honward.size_eq, honward.kept, fun hwithin i hi => kept_behind hbegun.end_le hwithin hrun hi⟩

end

/-- What is seen of the walk through the contents of the first of so many attributes: whether these contents are code,
where the attribute declares its end, whether the walk does without what is behind, and the patched method before and
after. -/
structure FirstWalk where
  count : Nat
  isCode : Bool
  stop : Nat
  within : Bool
  earlier : Bytes
  later : Bytes
deriving DecidableEq

/-- Begins the first attribute of a method and walks through its contents. -/
def walkFirst (pool : Pool) (base : Bytes) : Aligner FirstWalk := do
  let (count, suffix) ← openMethod ⟨0, base⟩
  let opened ← openAttribute pool suffix
  let opening ← get
  alignContents pool opened
  let after ← get
  let within := (runOn (alignContents pool opened) (opening.upTo opened.patchedEnd) #[]).1.1.isOk
  return ⟨count, opened.isCode, opened.patchedEnd, within, opening.patched.toList, after.patched.toList⟩

private theorem exists_of_walkFirst {pool : Pool} {patched base : Bytes} {walk : FirstWalk}
    (h : (runOn (walkFirst pool base) (reached [] patched ⟨0, 0, 0⟩) #[]).1.1.toOption = some walk) :
    ∃ suffix before opened opening after log log' log'',
      runOn (openMethod ⟨0, base⟩) (reached [] patched ⟨0, 0, 0⟩) #[] = ((.ok (walk.count, suffix), before), log) ∧
        runOn (openAttribute pool suffix) before log = ((.ok opened, opening), log') ∧
        runOn (alignContents pool opened) opening log' = ((.ok (), after), log'') ∧
        (opened.isCode = walk.isCode ∧ opened.patchedEnd = walk.stop) ∧
        (walk.within = true → EndsWithin pool opened opening) ∧
        opening.patched.toList = walk.earlier ∧ after.patched.toList = walk.later := by
  obtain ⟨_, _, hwalk⟩ := exists_runOn_of_toOption h
  obtain ⟨⟨count, suffix⟩, before, log, hmethod, hwalk⟩ := runOn_bind_eq_ok hwalk
  obtain ⟨opened, opening, log', hopen, hwalk⟩ := runOn_bind_eq_ok hwalk
  obtain ⟨_, _, _, hget, hwalk⟩ := runOn_bind_eq_ok hwalk
  cases hget
  obtain ⟨_, after, log'', hrun, hwalk⟩ := runOn_bind_eq_ok hwalk
  simp only [runOn_bind, runOn_get, runOn_pure, Prod.mk.injEq, Except.ok.injEq] at hwalk
  obtain ⟨⟨rfl, -⟩, -⟩ := hwalk
  refine ⟨suffix, before, opened, opening, after, log, log', log'', hmethod, hopen, hrun, ⟨rfl, rfl⟩, ?_, rfl, rfl⟩
  intro hwithin offset needed heq
  dsimp only at hwithin
  rw [heq] at hwithin
  cases hwithin

/-- The walk through the first of two codes corrects the name of the attribute in it, and nothing behind. -/
theorem contents_confined_nestingMethod :
    ∃ suffix before opened opening after log log' log'',
      runOn (openAttribute namesPool suffix) before log = ((.ok opened, opening), log') ∧ opened.isCode = true ∧
        runOn (alignContents namesPool opened) opening log' = ((.ok (), after), log'') ∧
        EndsWithin namesPool opened opening ∧ after.patched ≠ opening.patched ∧
        ∀ i, opened.patchedEnd ≤ i → after.patched[i]? = opening.patched[i]? := by
  have hwalk : (runOn (walkFirst namesPool (nestingMethod 4)) (reached [] (nestingMethod 7) ⟨0, 0, 0⟩)
      #[]).1.1.toOption = some ⟨2, true, 40, true, nestingMethod 7, nestingMethod 4⟩ := by decide +kernel
  obtain ⟨suffix, before, opened, opening, after, log, log', log'', -, hopen, hrun, ⟨hcode, -⟩, hwithin, hopening,
    hafter⟩ := exists_of_walkFirst hwalk
  obtain ⟨-, hconfined⟩ := contents_confined hopen
  obtain ⟨-, -, hbehind⟩ := hconfined _ _ _ _ hrun
  have hchanged : after.patched ≠ opening.patched := by
    intro heq
    rw [heq, hopening] at hafter
    revert hafter
    decide
  exact ⟨suffix, before, opened, opening, after, log, log', log'', hopen, hcode, hrun, hwithin rfl, hchanged,
    hbehind (hwithin rfl)⟩

/-- When an inner length passes the end of a code, the walk through it can go on in the next code, and take two bytes of
its instructions for the name of an attribute. -/
theorem contents_not_confined :
    (∃ suffix before opened opening after log log' log'',
      Visited namesPool overreachingMethod (nestingMethod 4) suffix before ∧
        runOn (openAttribute namesPool suffix) before log = ((.ok opened, opening), log') ∧ opened.isCode = true ∧
        runOn (alignContents namesPool opened) opening log' = ((.ok (), after), log'') ∧
        opened.patchedEnd = 22 ∧ opening.patched[40]? = some 0x11 ∧ after.patched[40]? = some 0) ∧
      ((align namesPool overreachingMethod (nestingMethod 4)).run #[]).1.2 =
        overreachingMethod.take 40 ++ u16Bytes 4 ++ overreachingMethod.drop 42 := by
  refine ⟨?_, by decide +kernel⟩
  have hwalk : (runOn (walkFirst namesPool (nestingMethod 4)) (reached [] overreachingMethod ⟨0, 0, 0⟩)
      #[]).1.1.toOption = some ⟨2, true, 22, false, overreachingMethod,
        overreachingMethod.take 40 ++ u16Bytes 4 ++ overreachingMethod.drop 42⟩ := by decide +kernel
  obtain ⟨suffix, before, opened, opening, after, log, log', log'', hmethod, hopen, hrun, ⟨hcode, hstop⟩, -, hopening,
    hafter⟩ := exists_of_walkFirst hwalk
  have hvisited : Visited namesPool overreachingMethod (nestingMethod 4) suffix before :=
    ⟨2, suffix, before, #[], log, hmethod, .first⟩
  have hearlier : opening.patched[40]? = some 0x11 := by
    rw [← Array.getElem?_toList, hopening]
    decide
  have hlater : after.patched[40]? = some 0 := by
    rw [← Array.getElem?_toList, hafter]
    decide
  exact ⟨suffix, before, opened, opening, after, log, log', log'', hvisited, hopen, hcode, hrun, hstop, hearlier,
    hlater⟩

end ClassGraft.Alignment
