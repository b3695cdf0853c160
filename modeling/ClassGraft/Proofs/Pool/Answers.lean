import ClassGraft.Proofs.Pool.Growing

/-!
# The answers of interners

An interner looks a constant up in a table that it keeps beside its pool.  What it answers can be told from the pool
alone (`Interner.Answered`): the smallest index with the bytes of the constant, else the next index if there is room,
else an overflow that changes nothing.  This holds of every call of every sequence of calls, and indices that have been
given keep their constants (`Interner.performAll_answered`).
-/

namespace ClassGraft

namespace Pool

/-- The smallest index that leads to an entry with certain bytes. -/
structure IsFirst (pool : Pool) (key : Bytes) (index : Index) : Prop where
  leads : ∃ entry, pool.get index = .ok entry ∧ entry.bytes = key
  least : ∀ other entry, pool.get other = .ok entry → entry.bytes = key → index ≤ other

/-- No index leads to an entry with certain bytes. -/
def Lacks (pool : Pool) (key : Bytes) : Prop :=
  ∀ index entry, pool.get index = .ok entry → entry.bytes ≠ key

@[simp]
theorem size_push (pool : Pool) (constant : Constant) : (pool.push constant).size = pool.size + 1 :=
  Array.size_push _

end Pool

namespace Interner

/-- How a constant that is wanted is answered: it has bytes that the pool holds, and gets their smallest index; or it
has new bytes, and gets the next index if the index after it still fits into two bytes; or it is refused. -/
inductive Answered (wanted : Constant) (before : Interner) : Except PoolOverflow Index → Interner → Prop
  | known {index : Index} (hfirst : before.pool.IsFirst wanted.bytes index) : Answered wanted before (.ok index) before
  | added {index : Index} {after : Interner} (hnew : before.pool.Lacks wanted.bytes)
      (hroom : before.pool.count + wanted.width ≤ 65535) (hindex : index.toNat = before.pool.count)
      (hpool : after.pool = before.pool.push wanted) (hadded : after.added = before.added + 1) :
      Answered wanted before (.ok index) after
  | refused (hnew : before.pool.Lacks wanted.bytes) (hfull : 65535 < before.pool.count + wanted.width) :
      Answered wanted before (.error ⟨wanted, before.pool.count⟩) before

/-- Calls with their answers, each given by the interner that the calls before it have left. -/
inductive AnsweredAll : Interner → List (Call × Except PoolOverflow Index) → Interner → Prop
  | nil (interner : Interner) : AnsweredAll interner [] interner
  | cons {before next after : Interner} {call : Call} {answer : Except PoolOverflow Index}
      {answers : List (Call × Except PoolOverflow Index)} (hfirst : Answered call.wanted before answer next)
      (hrest : AnsweredAll next answers after) : AnsweredAll before ((call, answer) :: answers) after

/-! ### One call -/

/-- The table of a sound interner names the smallest indices. -/
theorem Sound.isFirst {interner : Interner} (h : interner.Sound) {key : Bytes} {index : Index}
    (hindex : interner.firstIndex[key]? = some index) : interner.pool.IsFirst key index := by
  refine ⟨h.named key index hindex, fun other entry hget hbytes => ?_⟩
  obtain ⟨least, hleast, hle⟩ := h.first other entry hget
  rw [hbytes, hindex] at hleast
  cases hleast
  exact hle

/-- Bytes that the table of a sound interner does not name are not in its pool. -/
theorem Sound.lacks {interner : Interner} (h : interner.Sound) {key : Bytes}
    (hindex : interner.firstIndex[key]? = none) : interner.pool.Lacks key := by
  rintro index entry hget rfl
  obtain ⟨least, hleast, -⟩ := h.first index entry hget
  rw [hindex] at hleast
  cases hleast

/-- Whatever is wanted from a sound interner is answered from its pool. -/
theorem Sound.answered {interner : Interner} (h : interner.Sound) {wanted : Constant}
    {answer : Except PoolOverflow Index} {after : Interner}
    (hrun : (Interner.intern wanted).run.run interner = (answer, after)) : Answered wanted interner answer after := by
  rcases intern_cases wanted interner with ⟨index, hindex, hfound⟩ | ⟨hnew, ⟨hroom, hadded⟩ | ⟨hfull, hfailed⟩⟩
  · rw [hfound] at hrun
    cases hrun
    exact .known (h.isFirst hindex)
  · rw [hadded] at hrun
    cases hrun
    exact .added (h.lacks hnew) (Pool.hasRoom_iff.1 hroom) h.pool.toNat_count rfl rfl
  · rw [hfailed] at hrun
    cases hrun
    refine .refused (h.lacks hnew) (Nat.lt_of_not_le fun hroom => ?_)
    rw [Pool.hasRoom_iff.2 hroom] at hfull
    cases hfull

/-- What is added is counted. -/
theorem Answered.size {wanted : Constant} {before after : Interner} {answer : Except PoolOverflow Index}
    (h : Answered wanted before answer after) : after.pool.size + before.added = before.pool.size + after.added := by
  cases h with
  | known _ | refused _ _ => rfl
  | added _ _ _ hpool hadded =>
    rw [hpool, hadded, Pool.size_push]
    omega

/-! ### Any number of calls -/

theorem AnsweredAll.size {before after : Interner} {answers : List (Call × Except PoolOverflow Index)}
    (h : AnsweredAll before answers after) : after.pool.size + before.added = before.pool.size + after.added := by
  induction h with
  | nil => rfl
  | cons hfirst _ ih =>
    have := hfirst.size
    omega

/-- The calls on a sound interner are answered one after the other, the entries of its pool stay where they are, and the
indices given lead to the constants that were wanted when all calls have been made. -/
theorem Sound.answeredAll {interner : Interner} (h : interner.Sound) {calls : List Call}
    (hgenuine : ∀ call ∈ calls, call.wanted.Genuine) :
    AnsweredAll interner (Interner.performAll calls interner).1 (Interner.performAll calls interner).2 ∧
      (∀ index entry, interner.pool.get index = .ok entry →
        (Interner.performAll calls interner).2.pool.get index = .ok entry) ∧
      ∀ call index, (call, .ok index) ∈ (Interner.performAll calls interner).1 →
        (Interner.performAll calls interner).2.pool.get index = .ok call.wanted := by
  induction calls generalizing interner with
  | nil => exact ⟨.nil _, fun _ _ hget => hget, fun _ _ hmem => by cases hmem⟩
  | cons call calls ih =>
    rcases hrun : call.perform.run.run interner with ⟨answer, next⟩
    have hintern := hrun
    rw [call.perform_eq] at hintern
    obtain ⟨hnext, hextends, hgiven⟩ := h.intern (hgenuine call List.mem_cons_self) hintern
    obtain ⟨hrest, hkept, hlater⟩ := ih hnext fun c hc => hgenuine c (List.mem_cons_of_mem _ hc)
    rw [Interner.performAll, hrun]
    refine ⟨.cons (h.answered hintern) hrest, fun index entry hget => ?_, fun one index hmem => ?_⟩
    · exact hkept index entry (hextends.get hnext.pool h.pool hget)
    · rcases List.mem_cons.1 hmem with hfirst | hmem
      · cases hfirst
        exact hkept index _ (hgiven index rfl)
      · exact hlater one index hmem

/-- Every call of a sequence that starts with some pool is answered from the pool as it is by then: with the smallest
index of the bytes of the constant that is wanted, or by adding the constant at the next index, or, when there is no
room for it, by a refusal that changes nothing, so that other calls go on being answered.  The entries of the pool stay
where they are, the indices given keep their constants, and what has been added is counted. -/
theorem performAll_answered {start : Pool} (hstart : start.WellFormed) {calls : List Call}
    (hgenuine : ∀ call ∈ calls, call.wanted.Genuine) :
    (performAll calls (.ofPool start)).1.map Prod.fst = calls ∧
      AnsweredAll (.ofPool start) (performAll calls (.ofPool start)).1 (performAll calls (.ofPool start)).2 ∧
      (performAll calls (.ofPool start)).2.pool.size = start.size + (performAll calls (.ofPool start)).2.added ∧
      (∀ index entry, start.get index = .ok entry →
        (performAll calls (.ofPool start)).2.pool.get index = .ok entry) ∧
      ∀ call index, (call, .ok index) ∈ (performAll calls (.ofPool start)).1 →
        (performAll calls (.ofPool start)).2.pool.get index = .ok call.wanted := by
  obtain ⟨hanswered, hkept, hgiven⟩ := (sound_ofPool hstart).answeredAll hgenuine
  exact ⟨map_fst_performAll _ _, hanswered, hanswered.size, hkept, hgiven⟩

/-- A pool of so many entries with one and the same literal. -/
def zeros : Nat → Pool
  | 0 => .empty
  | count + 1 => (zeros count).push (.integer 0)

theorem count_zeros (count : Nat) : (zeros count).count = count + 1 := by
  induction count with
  | zero => rfl
  | succ count ih =>
    rw [zeros, Pool.count_push, ih]
    rfl

theorem wellFormed_zeros {count : Nat} (h : count < 65535) : (zeros count).WellFormed := by
  induction count with
  | zero => exact .empty
  | succ count ih =>
    refine .push (ih (Nat.lt_of_succ_lt h)) trivial (Pool.hasRoom_iff.2 ?_)
    rw [count_zeros]
    exact h

theorem get_zeros {count : Nat} (h : count < 65535) {index : Index} {entry : Constant}
    (hget : (zeros count).get index = .ok entry) : entry = .integer 0 := by
  induction count with
  | zero => exact absurd (Pool.WellFormed.empty.get_eq_ok_iff.1 hget) List.not_mem_nil
  | succ count ih =>
    have hmem := (wellFormed_zeros h).get_eq_ok_iff.1 hget
    rw [zeros, Pool.toList_push, List.mem_append, List.mem_singleton] at hmem
    rcases hmem with hold | hlast
    · exact ih (Nat.lt_of_succ_lt h) ((wellFormed_zeros (Nat.lt_of_succ_lt h)).get_eq_ok_iff.2 hold)
    · exact (Prod.mk.inj hlast).2

/-- A constant whose bytes are not in a pool is refused where there is no room for it. -/
theorem Answered.eq_error {wanted : Constant} {before after : Interner} {answer : Except PoolOverflow Index}
    (h : Answered wanted before answer after) (hnew : before.pool.Lacks wanted.bytes)
    (hfull : 65535 < before.pool.count + wanted.width) :
    answer = .error ⟨wanted, before.pool.count⟩ ∧ after = before := by
  cases h with
  | known hfirst =>
    obtain ⟨entry, hget, hbytes⟩ := hfirst.leads
    exact absurd hbytes (hnew _ entry hget)
  | added _ hroom => exact absurd hroom (Nat.not_le.2 hfull)
  | refused _ _ => exact ⟨rfl, rfl⟩

/-- A constant whose bytes are not in a pool is added where there is room for it. -/
theorem Answered.eq_ok {wanted : Constant} {before after : Interner} {answer : Except PoolOverflow Index}
    (h : Answered wanted before answer after) (hnew : before.pool.Lacks wanted.bytes)
    (hroom : before.pool.count + wanted.width ≤ 65535) :
    answer = .ok (.ofNat before.pool.count) ∧ after.pool = before.pool.push wanted := by
  cases h with
  | known hfirst =>
    obtain ⟨entry, hget, hbytes⟩ := hfirst.leads
    exact absurd hbytes (hnew _ entry hget)
  | added _ _ hindex hpool => exact ⟨by rw [← hindex, UInt16.ofNat_toNat], hpool⟩
  | refused _ hfull => exact absurd hroom (Nat.not_le.2 hfull)

/-- A pool with room for one more index refuses an eight-byte literal, and then takes a text. -/
theorem performAll_answered_full :
    (performAll [.constant (.long 7), .text "B"] (.ofPool (zeros 65533))).1 =
      [(.constant (.long 7), .error ⟨.long 7, 65534⟩), (.text "B", .ok 65534)] := by
  have hwellFormed : (zeros 65533).WellFormed := wellFormed_zeros (by decide)
  have hcount : (zeros 65533).count = 65534 := count_zeros 65533
  have hlacks : ∀ wanted : Constant, (Constant.integer 0).bytes ≠ wanted.bytes → (zeros 65533).Lacks wanted.bytes :=
    fun wanted hne index entry hget => get_zeros (by decide) hget ▸ hne
  generalize zeros 65533 = full at hwellFormed hcount hlacks ⊢
  have hgenuine : ∀ call ∈ [Call.constant (.long 7), .text "B"], call.wanted.Genuine := by
    rintro call (_ | ⟨_, _ | ⟨_, ⟨⟩⟩⟩)
    · trivial
    · exact Constant.genuine_ofText "B"
  obtain ⟨hcalls, hanswers, -⟩ := performAll_answered hwellFormed hgenuine
  generalize performAll [.constant (.long 7), .text "B"] (.ofPool full) = run at hcalls hanswers ⊢
  obtain ⟨answers, after⟩ := run
  dsimp only at hcalls hanswers ⊢
  obtain _ | ⟨hlong, _ | ⟨htext, _ | _⟩⟩ := hanswers
  all_goals simp only [List.map_nil, List.map_cons, List.cons.injEq, reduceCtorEq, and_false, and_true] at hcalls
  obtain ⟨rfl, rfl⟩ := hcalls
  obtain ⟨rfl, rfl⟩ := hlong.eq_error (hlacks _ (by decide)) (by rw [ofPool, hcount]; decide)
  obtain ⟨rfl, -⟩ := htext.eq_ok (hlacks _ (by decide)) (by rw [ofPool, hcount]; decide)
  rw [ofPool, hcount]
  rfl

end Interner

end ClassGraft
