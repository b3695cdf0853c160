import ClassGraft.Proofs.Alignment.Cursors
import ClassGraft.Proofs.Alignment.Delimited
import Mathlib.Algebra.Group.Nat.Defs

/-!
# Bounds of an alignment

An alignment of any two methods, whether they make sense or not, stays inside both, and every attribute that it passes
takes it six bytes further in both, although the walk through code may have gone on behind its end and is set back.  It
meets only so many attributes as a base method of this length can hold in all nestings, keeps the length, the flags and
the number of attributes of the patched method, and reports as many indices as it has met names.
-/

namespace ClassGraft.Alignment

/-- Aligns what is nested in an attribute, if it holds code. -/
def alignContents (pool : Pool) {suffix : Suffix} (opened : Opened suffix) : Aligner Unit := do
  if opened.isCode then
    let (nested, ⟨inner, _⟩) ← openCode opened.contents
    alignAttributes pool nested inner

/-- Opens a method and gives the number of attributes to align, and what is left of the base method there. -/
def openMethod (suffix : Suffix) : Aligner (Nat × Suffix) := do
  let ⟨atName, _⟩ ← skipBoth 2 2 suffix
  let (_, ⟨atDescriptor, _⟩) ← copyIndex atName
  let (_, ⟨atCount, _⟩) ← copyIndex atDescriptor
  let (patchedCount, baseCount, ⟨rest, _⟩) ← takeBoth 2 atCount
  let count ← agreeOn patchedCount baseCount
  return (count, rest)

theorem alignAttribute_eq (pool : Pool) (suffix : Suffix) :
    alignAttribute pool suffix = (do
      let opened ← openAttribute pool suffix
      alignContents pool opened
      moveTo opened.patchedEnd
      return opened.rest) := by
  rw [alignAttribute]
  refine bind_congr fun opened => ?_
  rw [alignContents]
  split
  · simp only [bind_assoc]
  · simp only [pure_bind]

theorem alignMethod_eq (pool : Pool) (suffix : Suffix) :
    alignMethod pool suffix = openMethod suffix >>= fun (count, rest) => alignAttributes pool count rest := by
  simp only [alignMethod, openMethod, bind_assoc, pure_bind]

/-- At least as many attributes as can be met in what is left of a base method of this length: each takes six bytes, and
those behind it may be met both as nested in it and as following it. -/
def mostAttributes (size : Nat) : Nat := 2 ^ (size / 6 + 1) - 1

/-- As many more indices have been visited as attributes have been met. -/
def Progress.Balanced (before after : Progress) : Prop :=
  after.report.visited + before.report.attributes = before.report.visited + after.report.attributes

/-- An attribute has been passed: both cursors are at least six bytes further, and inside. -/
structure Passed (suffix : Suffix) (before : Progress) (rest : Suffix) (after : Progress) : Prop where
  position_le : before.position + 6 ≤ after.position
  inside : after.position ≤ after.patched.size
  balanced : before.Balanced after
  rest_size : rest.size + 6 ≤ suffix.size
  leftOf : ∀ base, suffix.LeftOf base → rest.LeftOf base

section

variable {size rest : Nat}

private theorem one_add_mostAttributes : 1 + mostAttributes size = 2 ^ ((size + 6) / 6) := by
  rw [mostAttributes, Nat.add_div_right size (by decide)]
  have : 1 ≤ 2 ^ (size / 6 + 1) := Nat.one_le_two_pow
  omega

private theorem two_pow_le_mostAttributes : 2 ^ (size / 6) ≤ mostAttributes size := by
  rw [mostAttributes, Nat.pow_succ]
  have : 1 ≤ 2 ^ (size / 6) := Nat.one_le_two_pow
  omega

private theorem two_pow_add_mostAttributes_le (h : rest + 6 ≤ size) :
    2 ^ (size / 6) + mostAttributes rest ≤ mostAttributes size := by
  have hpow : 2 ^ (rest / 6 + 1) ≤ 2 ^ (size / 6) := Nat.pow_le_pow_right (by decide) (by omega)
  have : 1 ≤ 2 ^ (rest / 6 + 1) := Nat.one_le_two_pow
  rw [mostAttributes, mostAttributes, Nat.pow_succ 2 (size / 6)]
  omega

private theorem mostAttributes_mono (h : rest ≤ size) : mostAttributes rest ≤ mostAttributes size := by
  have : 2 ^ (rest / 6 + 1) ≤ 2 ^ (size / 6 + 1) := Nat.pow_le_pow_right (by decide) (by omega)
  rw [mostAttributes, mostAttributes]
  omega

end

/-! ### The walk through the attributes -/

section

variable {before : Progress} {suffix : Suffix}

private theorem leaves_alignContents_of {pool : Pool} {opened : Opened suffix}
    (h : ∀ count (inner : Suffix) start, inner.size < suffix.size → Leaves (alignAttributes pool count inner) start
      (start.Onward (mostAttributes inner.size)) fun _ => start.Balanced) :
    Leaves (alignContents pool opened) before (before.Onward (mostAttributes opened.contents.size))
      fun _ => before.Balanced := by
  unfold alignContents
  split
  · refine leaves_openCode.bind_of_kind (fun _ hmoved => hmoved.onward.mono (Nat.zero_le _))
      fun inside start hmoved _ => ?_
    obtain ⟨count, inner, hinner⟩ := inside
    have hstart : before.report = start.report := hmoved.report_eq.symm
    refine ((hmoved.onward.leaves (h count inner start ?_)).of_kind fun _ hon => hon.mono ?_).imp
      fun _ after _ hbalanced => ?_
    · have := opened.contents_lt
      omega
    · rw [Nat.zero_add]
      exact mostAttributes_mono hinner
    · rwa [Progress.Balanced, hstart]
  · exact .pure ((Progress.MovedOn.refl before).onward.mono (Nat.zero_le _)) rfl

private theorem leaves_alignAttribute_of {pool : Pool}
    (h : ∀ count (inner : Suffix) start, inner.size < suffix.size → Leaves (alignAttributes pool count inner) start
      (start.Onward (mostAttributes inner.size)) fun _ => start.Balanced) :
    Leaves (alignAttribute pool suffix) before (before.Onward (2 ^ (suffix.size / 6))) (Passed suffix before) := by
  rw [alignAttribute_eq]
  refine (leaves_openAttribute pool).bind_of_kind (fun _ hon => hon.mono Nat.one_le_two_pow)
    fun opened opening hopening hbegun => ?_
  have hlimit : 1 + mostAttributes opened.contents.size = 2 ^ (suffix.size / 6) := by
    rw [one_add_mostAttributes, hbegun.contents_size]
  refine (hlimit ▸ hopening.leaves (leaves_alignContents_of h)).bind fun _ after hon hbalanced => ?_
  have hend : opened.patchedEnd ≤ after.patched.size := by
    rw [hon.size_eq, ← hopening.size_eq]
    exact hbegun.end_le
  have hposition : before.position + 6 ≤ opened.patchedEnd := by
    rw [hbegun.end_eq, hbegun.position]
    exact Nat.le_add_right _ _
  have hset : before.Onward (2 ^ (suffix.size / 6)) { after with position := opened.patchedEnd } :=
    { hon with
      position_le := Nat.le_trans (Nat.le_add_right _ 6) hposition
      inside := fun _ => hon.size_eq ▸ hend }
  refine .modify_bind (.pure hset ⟨hposition, hend, ?_, ?_, fun base hbase => (hbegun.leftOf base hbase).2⟩)
  · have := hbegun.visited
    have := hbegun.attributes
    unfold Progress.Balanced at hbalanced ⊢
    dsimp only
    omega
  · have := hbegun.contents_size
    have := hbegun.rest_size
    omega

theorem leaves_alignAttributes (pool : Pool) (count : Nat) :
    Leaves (alignAttributes pool count suffix) before (before.Onward (mostAttributes suffix.size))
      fun _ => before.Balanced := by
  -- what is aligned next or inside starts later in the base method, so the induction is on what is left of it
  induction hsize : suffix.size using Nat.strongRecOn generalizing count suffix before with
  | _ size ih =>
    subst hsize
    cases count with
    | zero =>
      rw [alignAttributes]
      exact .pure ((Progress.MovedOn.refl before).onward.mono (Nat.zero_le _)) rfl
    | succ count =>
      have hcall : Leaves (alignAttribute pool suffix) before (before.Onward (2 ^ (suffix.size / 6)))
          (Passed suffix before) :=
        leaves_alignAttribute_of fun count inner start hinner => ih inner.size hinner count rfl
      rw [alignAttributes_succ]
      refine hcall.bind_of_kind (fun _ hon => hon.mono two_pow_le_mostAttributes) fun rest middle hon hpassed => ?_
      have hrest := hpassed.rest_size
      refine ((hon.leaves (ih rest.size (by omega) count rfl)).of_kind fun _ h =>
        h.mono (two_pow_add_mostAttributes_le hrest)).imp fun _ after _ hbalanced => ?_
      have := hpassed.balanced
      unfold Progress.Balanced at this hbalanced ⊢
      omega

theorem leaves_alignContents (pool : Pool) (opened : Opened suffix) :
    Leaves (alignContents pool opened) before (before.Onward (mostAttributes opened.contents.size))
      fun _ => before.Balanced :=
  leaves_alignContents_of fun count _ _ _ => leaves_alignAttributes pool count

theorem leaves_alignAttribute (pool : Pool) :
    Leaves (alignAttribute pool suffix) before (before.Onward (2 ^ (suffix.size / 6))) (Passed suffix before) :=
  leaves_alignAttribute_of fun count _ _ _ => leaves_alignAttributes pool count

end

/-! ### Visits -/

/-- Aligning so many attributes from a state on comes to align one of them, or one nested in them, from a state. -/
inductive Visits (pool : Pool) : Nat → Suffix → Progress → Suffix → Progress → Prop
  | first {count : Nat} {suffix : Suffix} {before : Progress} : Visits pool (count + 1) suffix before suffix before
  | nested {count innerCount : Nat} {suffix inner visited : Suffix} {before opening start progress : Progress}
      {opened : Opened suffix} {hinner : inner.size ≤ opened.contents.size} {log log' log'' : Log}
      (hopen : runOn (openAttribute pool suffix) before log = ((.ok opened, opening), log'))
      (hisCode : opened.isCode = true)
      (hcode : runOn (openCode opened.contents) opening log' = ((.ok (innerCount, ⟨inner, hinner⟩), start), log''))
      (hvisit : Visits pool innerCount inner start visited progress) :
      Visits pool (count + 1) suffix before visited progress
  | later {count : Nat} {suffix rest visited : Suffix} {before middle progress : Progress} {log log' : Log}
      (hcall : runOn (alignAttribute pool suffix) before log = ((.ok rest, middle), log'))
      (hvisit : Visits pool count rest middle visited progress) :
      Visits pool (count + 1) suffix before visited progress

/-- Aligning two methods comes to align an attribute from a state. -/
def Visited (pool : Pool) (patched base : Bytes) (suffix : Suffix) (progress : Progress) : Prop :=
  ∃ count rest start log log',
    runOn (openMethod ⟨0, base⟩) (reached [] patched ⟨0, 0, 0⟩) log = ((.ok (count, rest), start), log') ∧
      Visits pool count rest start suffix progress

/-- Both cursors are inside their methods, and what is left of the base method is what stands there. -/
structure Inside (patched base : Bytes) (suffix : Suffix) (progress : Progress) : Prop where
  size_eq : progress.patched.size = patched.length
  position_le : progress.position ≤ patched.length
  leftOf : suffix.LeftOf base

section

variable {patched base : Bytes} {suffix visited : Suffix} {before progress : Progress} {pool : Pool} {count : Nat}

/-- A state that is gone on to from inside is inside. -/
theorem Inside.onward {limit : Nat} {after : Progress} {rest : Suffix} (h : Inside patched base suffix before)
    (hon : before.Onward limit after) (hrest : rest.LeftOf base) : Inside patched base rest after where
  size_eq := hon.size_eq.trans h.size_eq
  position_le := h.size_eq ▸ hon.inside (h.size_eq.symm ▸ h.position_le)
  leftOf := hrest

/-- What one visit starts from is inside when what all of them start from is. -/
theorem Visits.inside (h : Visits pool count suffix before visited progress)
    (hinside : Inside patched base suffix before) : Inside patched base visited progress := by
  induction h with
  | first => exact hinside
  | nested hopen _ hcode _ ih =>
    obtain ⟨hopening, hbegun⟩ := leaves_openAttribute pool _ _ _ _ hopen
    obtain ⟨hmoved, hleft⟩ := leaves_openCode _ _ _ _ hcode
    have hcontents := ((hbegun _ rfl).leftOf base hinside.leftOf).1
    exact ih ((hinside.onward hopening hcontents).onward hmoved.onward (hleft _ rfl base hcontents))
  | later hcall _ ih =>
    obtain ⟨hon, hpassed⟩ := leaves_alignAttribute pool _ _ _ _ hcall
    exact ih (hinside.onward hon ((hpassed _ rfl).leftOf base hinside.leftOf))

end

/-! ### Whole methods -/

/-- Up to the attributes, nothing but the name and the descriptor of a method has changed. -/
structure HeaderOnly (before after : Progress) : Prop where
  onward : before.Onward 0 after
  kept : ∀ i, i < 2 ∨ 6 ≤ i → after.patched[i]? = before.patched[i]?

namespace HeaderOnly

variable {before middle after : Progress} {index : Index}

theorem movedOn (h : HeaderOnly before middle) (hmoved : middle.MovedOn after) : HeaderOnly before after where
  onward := h.onward.trans hmoved.onward
  kept i hi := by rw [hmoved.patched_eq, h.kept i hi]

theorem copied (h : HeaderOnly before middle) (hstart : 2 ≤ middle.position) (hend : middle.position ≤ 4)
    (hcopied : Copied index middle after) : HeaderOnly before after where
  onward := h.onward.trans hcopied.onward
  kept i hi := (hcopied.kept (by omega)).trans (h.kept i hi)

theorem leaves_copyIndex {suffix : Suffix} (h : HeaderOnly before middle) (hstart : 2 ≤ middle.position)
    (hend : middle.position ≤ 4) :
    Leaves (copyIndex suffix) middle (HeaderOnly before) fun copied after =>
      Copied copied.1 middle after ∧ ∀ base, suffix.LeftOf base → copied.2.1.LeftOf base := by
  refine Alignment.leaves_copyIndex.of_kind ?_
  rintro after (hmoved | ⟨index, hcopied⟩)
  · exact h.movedOn hmoved
  · exact h.copied hstart hend hcopied

end HeaderOnly

section

variable {before : Progress} {suffix : Suffix}

theorem leaves_openMethod (hbefore : before.position = 0) :
    Leaves (openMethod suffix) before (HeaderOnly before) fun opened after =>
      after.position = 8 ∧ after.report.visited = before.report.visited + 2 ∧
        after.report.attributes = before.report.attributes ∧
        opened.2.size ≤ suffix.size ∧ ∀ base, suffix.LeftOf base → opened.2.LeftOf base := by
  have hstart : HeaderOnly before before := ⟨(Progress.MovedOn.refl before).onward, fun _ _ => rfl⟩
  refine (leaves_skipBoth 2 2).bind_of_kind (fun _ => hstart.movedOn) fun left flags hmoved hleft => ?_
  obtain ⟨atName, hatName⟩ := left
  obtain ⟨rfl, hleft⟩ := hleft
  have hflags : (before.moved 2).position = 2 := congrArg (· + 2) hbefore
  refine ((hstart.movedOn hmoved).leaves_copyIndex (by omega) (by omega)).bind fun copied name hon hname => ?_
  obtain ⟨nameIndex, atDescriptor, hatDescriptor⟩ := copied
  obtain ⟨hname, hnameLeft⟩ := hname
  have hnamed : name.position = 4 := by rw [hname.position, hflags]
  refine (hon.leaves_copyIndex (by omega) (by omega)).bind fun copied descriptor hon hdescriptor => ?_
  obtain ⟨descriptorIndex, atCount, hatCount⟩ := copied
  obtain ⟨hdescriptor, hdescriptorLeft⟩ := hdescriptor
  refine (leaves_takeBoth 2).bind_of_kind (fun _ => hon.movedOn) fun counts after hmoved hcounts => ?_
  obtain ⟨patchedCount, baseCount, rest, hrest⟩ := counts
  obtain ⟨rfl, -, -, hrestLeft⟩ := hcounts
  refine (leaves_agreeOn _ _).bind_of_kind (fun _ => (hon.movedOn hmoved).movedOn) fun count after _ heq => ?_
  subst heq
  have hnameVisited : name.report.visited = before.report.visited + 1 := hname.visited
  have hnameAttributes : name.report.attributes = before.report.attributes := hname.attributes
  refine .pure (hon.movedOn hmoved) ⟨?_, ?_, ?_, by dsimp only; omega, ?_⟩
  · have hdescribed : descriptor.position = 6 := by rw [hdescriptor.position, hnamed]
    exact congrArg (· + 2) hdescribed
  · exact hdescriptor.visited.trans (congrArg (· + 1) hnameVisited)
  · exact hdescriptor.attributes.trans hnameAttributes
  · intro base hbase
    exact hrestLeft base (hdescriptorLeft base (hnameLeft base (hleft base hbase)))

end

variable {pool : Pool} {patched base : Bytes}

private theorem leftOf_whole (base : Bytes) : Suffix.LeftOf base ⟨0, base⟩ := ⟨Nat.zero_le _, rfl⟩

private theorem inside_start (patched base : Bytes) : Inside patched base ⟨0, base⟩ (reached [] patched ⟨0, 0, 0⟩) :=
  ⟨List.size_toArray, Nat.zero_le _, leftOf_whole base⟩

/-- Every attribute is aligned from a state in which both cursors are inside. -/
theorem Visited.inside {suffix : Suffix} {progress : Progress} (h : Visited pool patched base suffix progress) :
    Inside patched base suffix progress := by
  obtain ⟨count, rest, start, log, log', hopen, hvisits⟩ := h
  obtain ⟨hheader, hopened⟩ := leaves_openMethod rfl _ _ _ _ hopen
  obtain ⟨-, -, -, -, hleft⟩ := hopened _ rfl
  exact hvisits.inside ((inside_start patched base).onward hheader.onward (hleft base (leftOf_whole base)))

/-- What holds of the patched method after an alignment, whatever came of it: it has kept its length, its flags and the
number of its attributes, and the attributes met are bounded by the length of the base method. -/
structure Aligned (patched base : Bytes) (after : Progress) : Prop where
  size_eq : after.patched.size = patched.length
  position_le : after.position ≤ patched.length
  kept : ∀ i, i < 2 ∨ 6 ≤ i ∧ i < 8 → after.patched[i]? = patched[i]?
  corrected_le : after.report.corrected ≤ after.report.visited
  attributes_lt : after.report.attributes < 2 ^ (base.length / 6 + 1)

private theorem Progress.Onward.aligned {limit : Nat} {after : Progress}
    (h : (reached [] patched ⟨0, 0, 0⟩).Onward limit after) (hlimit : limit < 2 ^ (base.length / 6 + 1))
    (hkept : ∀ i, i < 2 ∨ 6 ≤ i ∧ i < 8 → after.patched[i]? = (reached [] patched ⟨0, 0, 0⟩).patched[i]?) :
    Aligned patched base after where
  size_eq := h.size_eq.trans List.size_toArray
  position_le := h.inside (Nat.zero_le _)
  kept i hi := (hkept i hi).trans List.getElem?_toArray
  corrected_le := by simpa [reached] using h.corrected_le
  attributes_lt := Nat.lt_of_le_of_lt (by simpa [reached] using h.attributes_le) hlimit

theorem leaves_alignMethod (pool : Pool) (patched base : Bytes) :
    Leaves (alignMethod pool ⟨0, base⟩) (reached [] patched ⟨0, 0, 0⟩) (Aligned patched base)
      fun _ after => after.report.visited = after.report.attributes + 2 := by
  have hmost : mostAttributes base.length < 2 ^ (base.length / 6 + 1) := Nat.sub_lt (Nat.two_pow_pos _) (by decide)
  rw [alignMethod_eq]
  refine (leaves_openMethod rfl).bind_of_kind (fun after h => ?_) fun opened start hheader hopened => ?_
  · exact h.onward.aligned (Nat.two_pow_pos _) fun i hi => h.kept i (hi.imp_right And.left)
  · obtain ⟨count, rest⟩ := opened
    obtain ⟨hposition, hvisited, hattributes, hsize, -⟩ := hopened
    refine ((leaves_alignAttributes pool count).of_kind fun after hon => ?_).imp fun _ after _ hbalanced => ?_
    · refine (hheader.onward.trans hon).aligned ?_ fun i hi => ?_
      · have := mostAttributes_mono hsize
        change mostAttributes rest.size ≤ mostAttributes base.length at this
        omega
      · exact (hon.kept i (by omega)).trans (hheader.kept i (hi.imp_right And.left))
    · unfold Progress.Balanced at hbalanced
      rw [hvisited, hattributes] at hbalanced
      simp only [reached] at hbalanced
      omega

/-- An alignment of any two methods stays inside both.  Every attribute is aligned from inside, and what comes of it is
inside; when it succeeds, both cursors are at least six bytes further.  An index is only written over two bytes that are
there.  Whatever comes of the alignment, the patched method keeps its length, its flags and the number of its
attributes, and the number of attributes met is bounded; a report counts two more indices visited than attributes met,
and no more corrected than visited. -/
theorem align_stays_inside (pool : Pool) (patched base : Bytes) :
    (∀ suffix progress, Visited pool patched base suffix progress →
      Inside patched base suffix progress ∧
        ∀ log outcome after log', runOn (alignAttribute pool suffix) progress log = ((outcome, after), log') →
          (after.patched.size = patched.length ∧ after.position ≤ patched.length) ∧
            ∀ rest, outcome = .ok rest → Inside patched base rest after ∧
              progress.position + 6 ≤ after.position ∧ suffix.offset + 6 ≤ rest.offset) ∧
      (∀ suffix before log index rest after log',
        runOn (copyIndex suffix) before log = ((.ok (index, rest), after), log') → Copied index before after) ∧
      ∀ log outcome after log',
        runOn (alignMethod pool ⟨0, base⟩) (reached [] patched ⟨0, 0, 0⟩) log = ((outcome, after), log') →
          (align pool patched base).run log = ((outcome.map fun _ => after.report, after.patched.toList), log') ∧
            Aligned patched base after ∧ (outcome = .ok () → after.report.visited = after.report.attributes + 2) := by
  refine ⟨fun suffix progress hvisited => ?visits, fun suffix before log index rest after log' hrun => ?copies,
    fun log outcome after log' hrun => ?whole⟩
  case visits =>
    have hinside := hvisited.inside
    refine ⟨hinside, fun log outcome after log' hrun => ?_⟩
    obtain ⟨hon, hpassed⟩ := leaves_alignAttribute pool _ _ _ _ hrun
    have hafter := hinside.onward hon hinside.leftOf
    refine ⟨⟨hafter.size_eq, hafter.position_le⟩, fun rest hok => ?_⟩
    have hpassed := hpassed rest hok
    have hrest := hpassed.leftOf base hinside.leftOf
    exact ⟨hinside.onward hon hrest, hpassed.position_le, hinside.leftOf.offset_add_le hrest hpassed.rest_size⟩
  case copies => exact ((leaves_copyIndex _ _ _ _ hrun).2 _ rfl).1
  case whole =>
    obtain ⟨haligned, hreport⟩ := leaves_alignMethod pool patched base log outcome after log' hrun
    exact ⟨by rw [run_align, hrun], haligned, fun hok => hreport () hok⟩

/-- A method with two codes.  The first announces more instructions than it holds, so that the walk through it goes on
in the second. -/
def overreachingMethod : Bytes :=
  u16Bytes 9 ++ u16Bytes 1 ++ u16Bytes 2 ++ u16Bytes 2 ++
    Attribute.bytes ⟨3, u16Bytes 2 ++ u16Bytes 1 ++ bigEndian 4 14⟩ ++
    Attribute.bytes ⟨3, CodeBody.bytes ⟨2, 1, [0, 0, 0, 1, 0x11, 7, 0, 0, 0, 0, 0x57, 0xB1], []⟩ ++ u16Bytes 0⟩

/-- A method with two codes, of which the first has an attribute with this name. -/
def nestingMethod (name : Index) : Bytes :=
  u16Bytes 9 ++ u16Bytes 1 ++ u16Bytes 2 ++ u16Bytes 2 ++
    Attribute.bytes ⟨3, CodeBody.bytes ⟨2, 1, [0x2A, 0xB1], []⟩ ++ u16Bytes 1 ++
      Attribute.bytes ⟨name, [0, 1, 0, 0, 0, 7]⟩⟩ ++
    Attribute.bytes ⟨3, CodeBody.bytes ⟨2, 1, [0x2A, 0xB1], []⟩ ++ u16Bytes 0⟩

/-- The walk through the first code goes far behind its end, and yet its end is where the alignment goes on, and the
alignment succeeds. -/
theorem align_stays_inside_overreachingMethod :
    (∃ progress suffix rest after log log', Visited namesPool overreachingMethod (nestingMethod 4) suffix progress ∧
      runOn (alignAttribute namesPool suffix) progress log = ((.ok rest, after), log') ∧
      (suffix.offset = 8 ∧ rest.offset = 40) ∧ Inside overreachingMethod (nestingMethod 4) rest after ∧
      progress.position + 6 ≤ after.position) ∧
    ∃ after log', (align namesPool overreachingMethod (nestingMethod 4)).run #[] =
        ((.ok after.report, after.patched.toList), log') ∧
      Aligned overreachingMethod (nestingMethod 4) after ∧ after.report.visited = after.report.attributes + 2 := by
  obtain ⟨hvisits, -, hwhole⟩ := align_stays_inside namesPool overreachingMethod (nestingMethod 4)
  constructor
  · have hfirst : (runOn (do
        let (count, suffix) ← openMethod ⟨0, nestingMethod 4⟩
        let rest ← alignAttribute namesPool suffix
        return (count, suffix.offset, rest.offset))
      (reached [] overreachingMethod ⟨0, 0, 0⟩) #[]).1.1.toOption = some (2, 8, 40) := by decide +kernel
    obtain ⟨_, _, hfirst⟩ := exists_runOn_of_toOption hfirst
    obtain ⟨⟨count, suffix⟩, start, log, hopen, hfirst⟩ := runOn_bind_eq_ok hfirst
    obtain ⟨rest, after, log', hrun, hfound⟩ := runOn_bind_eq_ok hfirst
    simp only [runOn_pure, Prod.mk.injEq, Except.ok.injEq] at hfound
    obtain ⟨⟨⟨rfl, hsuffix, hrest⟩, -⟩, -⟩ := hfound
    have hvisited : Visited namesPool overreachingMethod (nestingMethod 4) suffix start :=
      ⟨2, suffix, start, #[], log, hopen, .first⟩
    obtain ⟨hinside, hposition, -⟩ := ((hvisits _ _ hvisited).2 _ _ _ _ hrun).2 _ rfl
    exact ⟨start, suffix, rest, after, log, log', hvisited, hrun, ⟨hsuffix, hrest⟩, hinside, hposition⟩
  · have hdone : (runOn (alignMethod namesPool ⟨0, nestingMethod 4⟩)
        (reached [] overreachingMethod ⟨0, 0, 0⟩) #[]).1.1.toOption = some () := by decide +kernel
    obtain ⟨after, log', hrun⟩ := exists_runOn_of_toOption hdone
    obtain ⟨halign, haligned, hvisited⟩ := hwhole _ _ _ _ hrun
    exact ⟨after, log', halign, haligned, hvisited rfl⟩

end ClassGraft.Alignment
