import ClassGraft.Proofs.Alignment.Walk

/-!
# Alignment of methods in pairs

Two methods that fit together are aligned in full (`align_matched`).  When each pair is passed over, up to its own
declared end on both sides and with its name copied, so are any number of them in a row (`yields_alignAttributes`).
Each is, by induction on how the pairs fit together (`passes_of_matched`).
-/

namespace ClassGraft.Alignment

/-- Aligns one attribute and gives what is left of the base method at its end. -/
def alignAttribute (pool : Pool) (suffix : Suffix) : Aligner Suffix := do
  let opened ← openAttribute pool suffix
  if opened.isCode then
    let (nested, ⟨inner, _⟩) ← openCode opened.contents
    alignAttributes pool nested inner
  moveTo opened.patchedEnd
  return opened.rest

/-- Attributes are aligned one after the other. -/
theorem alignAttributes_succ (pool : Pool) (count : Nat) (suffix : Suffix) :
    alignAttributes pool (count + 1) suffix = alignAttribute pool suffix >>= alignAttributes pool count := by
  rw [alignAttributes, alignAttribute, bind_assoc]
  refine bind_congr fun opened => ?_
  split
  · simp only [bind_assoc, pure_bind]
  · simp only [bind_assoc, pure_bind]

/-- The report after some more pairs. -/
def counted (total differing : Nat) (report : AlignmentReport) : AlignmentReport :=
  ⟨report.visited + total, report.corrected + differing, report.attributes + total⟩

/-- Aligning the next attribute passes over one pair. -/
def Passes (pool : Pool) (pair : Pair) : Prop :=
  ∀ (past ahead ahead' : Bytes) (report : AlignmentReport) (suffix : Suffix),
    suffix.bytes = pair.bytes .base .base ++ ahead' →
    Yields (alignAttribute pool suffix) (reached past (pair.bytes .patched .patched ++ ahead) report) fun rest after =>
      rest.bytes = ahead' ∧
        after = reached (past ++ pair.bytes .base .patched) ahead (counted pair.total pair.differing report)

variable {pool : Pool} {past ahead ahead' : Bytes} {report : AlignmentReport} {suffix : Suffix} {pairs : List Pair}

/-- As many attributes as there are pairs are passed over when one is. -/
theorem yields_alignAttributes (h : ∀ pair ∈ pairs, Passes pool pair)
    (hsuffix : suffix.bytes = Pair.bytesOfAll .base .base pairs ++ ahead') :
    Yields (alignAttributes pool pairs.length suffix)
      (reached past (Pair.bytesOfAll .patched .patched pairs ++ ahead) report) fun _ after =>
        after = reached (past ++ Pair.bytesOfAll .base .patched pairs) ahead
          (counted (Pair.totalOf pairs) (Pair.differingOf pairs) report) := by
  induction pairs generalizing past report suffix with
  | nil =>
    rw [List.length_nil, alignAttributes]
    refine .pure ?_
    simp [Pair.bytesOfAll, Pair.totalOf, Pair.differingOf, counted]
  | cons first rest ih =>
    rw [Pair.bytesOfAll, List.append_assoc] at hsuffix ⊢
    rw [List.length_cons, alignAttributes_succ]
    refine (h first List.mem_cons_self _ _ _ _ _ hsuffix).bind fun left after hleft => ?_
    obtain ⟨hbytes, rfl⟩ := hleft
    refine (ih (fun pair hpair => h pair (List.mem_cons_of_mem _ hpair)) hbytes).imp fun _ after hafter => ?_
    rw [hafter]
    simp [counted, Pair.bytesOfAll, Pair.bytes, Pair.totalOf, Pair.differingOf, Nat.add_assoc]

/-- Every pair that fits together is passed over: the walk through code may end anywhere, since the position is then
moved to the declared end. -/
theorem passes_of_matched {pair : Pair} (h : pair.Matched pool) : Passes pool pair := by
  induction h with
  | @raw name info text hname hne hfits =>
    intro past ahead ahead' report suffix hsuffix
    refine (yields_openAttribute hname hfits hsuffix).bind fun opened after hopened => ?_
    obtain ⟨hcode, hend, -, hrest, rfl⟩ := hopened
    rw [if_neg (by simp [hcode, hne])]
    refine (yields_moveTo (by rw [hend]; simp [Attribute.bytes])).bind fun _ after hafter => ?_
    refine .pure ⟨hrest, ?_⟩
    rw [hafter]
    simp [Pair.bytes, Pair.name, Pair.info, Attribute.bytes, Pair.total, Pair.differing, counted, compared]
  | @code name body count nested tail hname hbody hcount hnested hfits ih =>
    intro past ahead ahead' report suffix hsuffix
    refine (yields_openAttribute hname hfits hsuffix).bind fun opened after hopened => ?_
    obtain ⟨hcode, hend, hcontents, hrest, rfl⟩ := hopened
    rw [if_pos (by simp [hcode])]
    rw [Pair.info, List.append_assoc, List.append_assoc] at hcontents
    rw [Pair.info, List.append_assoc _ _ ahead, List.append_assoc _ _ (_ ++ ahead)]
    refine (yields_openCode hbody hcontents).bind fun openedCode after hopened => ?_
    obtain ⟨agreed, inner, hinner⟩ := openedCode
    obtain ⟨rfl, hbytes, rfl⟩ := hopened
    rw [← hcount]
    refine (yields_alignAttributes ih hbytes).bind fun _ after hafter => ?_
    rw [hafter]
    -- The walk has come to the tail of the code; copying names has not changed lengths, so the declared end is after it.
    have hlength := Pair.length_bytesOfAll .base .patched .patched nested
    have hreached : opened.patchedEnd = (past ++ (u16Bytes (name .base) ++ bigEndian 4
        ((body .patched).bytes ++ u16Bytes (count .patched) ++ Pair.bytesOfAll .patched .patched nested ++
          tail .patched).length) ++ ((body .patched).bytes ++ u16Bytes (count .patched)) ++
        Pair.bytesOfAll .base .patched nested ++ tail .patched).length := by
      rw [hend]
      simp [Attribute.bytes, Pair.info, hlength]
    refine (yields_moveTo hreached).bind fun _ after hafter => ?_
    refine .pure ⟨hrest, ?_⟩
    rw [hafter]
    simp [Pair.bytes, Pair.name, Pair.info, Attribute.bytes, Pair.total, Pair.differing, counted, compared, hlength,
      Nat.add_assoc]

/-- The walk through a method ends before whatever follows the last pair. -/
private theorem yields_alignMethod {method : MethodPair} (h : method.Matched pool)
    (hsuffix : suffix.bytes = method.bytes .base .base) :
    Yields (alignMethod pool suffix) (reached [] (method.bytes .patched .patched) ⟨0, 0, 0⟩) fun _ after =>
      after.patched.toList = method.bytes .base .patched ∧
        after.report = ⟨Pair.totalOf method.attributes + 2, method.differing, Pair.totalOf method.attributes⟩ := by
  simp only [MethodPair.bytes, List.append_assoc] at hsuffix ⊢
  refine (yields_skipBoth hsuffix (length_u16Bytes _) (length_u16Bytes _)).bind fun left after hleft => ?_
  obtain ⟨atName, h₁⟩ := left
  obtain ⟨hatName, rfl⟩ := hleft
  refine (yields_copyIndex hatName).bind fun copied after hcopied => ?_
  obtain ⟨name, atDescriptor, h₂⟩ := copied
  obtain ⟨rfl, hatDescriptor, rfl⟩ := hcopied
  refine (yields_copyIndex hatDescriptor).bind fun copied after hcopied => ?_
  obtain ⟨descriptor, atCount, h₃⟩ := copied
  obtain ⟨rfl, hatCount, rfl⟩ := hcopied
  refine (yields_takeBoth hatCount (length_u16Bytes _) (length_u16Bytes _)).bind fun taken after htaken => ?_
  obtain ⟨patchedCount, baseCount, rest, h₄⟩ := taken
  obtain ⟨rfl, rfl, hrest, rfl⟩ := htaken
  rw [ofBigEndian_u16Bytes, ofBigEndian_u16Bytes]
  refine yields_agreeOn.bind fun agreed after hagreed => ?_
  obtain ⟨rfl, rfl⟩ := hagreed
  rw [← h.count]
  refine (yields_alignAttributes (fun pair hpair => passes_of_matched (h.attributes pair hpair)) hrest).imp
    fun _ after hafter => ?_
  rw [hafter]
  constructor
  · simp [reached]
  · simp [reached, counted, compared, MethodPair.differing]
    omega

theorem run_align (patched base : Bytes) (log : Log) :
    (align pool patched base).run log =
      match runOn (alignMethod pool ⟨0, base⟩) (reached [] patched ⟨0, 0, 0⟩) log with
      | ((outcome, after), log') => ((outcome.map fun _ => after.report, after.patched.toList), log') := rfl

/-- Aligning two methods that fit together succeeds and copies exactly the name, the descriptor and the names of the
paired attributes of the base; all else of the patched method stays as it is. -/
theorem align_matched {method : MethodPair} (h : method.Matched pool) (log : Log) :
    ∃ log', (align pool (method.bytes .patched .patched) (method.bytes .base .base)).run log =
      ((.ok ⟨Pair.totalOf method.attributes + 2, method.differing, Pair.totalOf method.attributes⟩,
        method.bytes .base .patched), log') := by
  have hstart : (⟨0, method.bytes .base .base⟩ : Suffix).bytes = method.bytes .base .base := rfl
  obtain ⟨_, after, log', hrun, hpatched, hreport⟩ := yields_alignMethod h hstart log
  refine ⟨log', ?_⟩
  rw [run_align, hrun, ← hpatched, ← hreport]
  rfl

end ClassGraft.Alignment
