import ClassGraft.Proofs.Codec.Limits
import ClassGraft.Proofs.Pool.Interning

/-!
# Pools that grow, and their bytes

An interner serves any number of calls, each of which asks for the index of a text or of a constant and may fail for
want of room.  Room is all that is asked about: a text is added however long it is, and the length of its bytes is
written in two of them.  So a pool that has grown by calls is read back from its bytes exactly when no call got an index
for a text with more than 65535 bytes (`Interner.readBack_after_calls_iff`); calls that failed do no harm.
-/

namespace ClassGraft

namespace Pool

/-- The bytes of a pool are all taken by reading a pool with the same count and, at every index, an entry with the same
bytes or none. -/
def ReadBack (pool : Pool) : Prop :=
  ∃ again, read pool.bytes = .ok (again, []) ∧ again.count = pool.count ∧
    ∀ index, (again.get index).toOption.map Constant.bytes = (pool.get index).toOption.map Constant.bytes

private theorem exists_of_map_bytes {a b : Pool} {index : Index} {constant : Constant}
    (hsame : (a.get index).toOption.map Constant.bytes = (b.get index).toOption.map Constant.bytes)
    (hget : b.get index = .ok constant) : ∃ found, a.get index = .ok found ∧ found.bytes = constant.bytes := by
  rw [hget] at hsame
  obtain ⟨found, hfound, hbytes⟩ := Option.map_eq_some_iff.1 hsame
  exact ⟨found, eq_ok_of_toOption hfound, hbytes⟩

/-- A well-formed pool is read back exactly when its entries can be stored. -/
theorem WellFormed.readBack_iff {pool : Pool} (h : pool.WellFormed) : pool.ReadBack ↔ pool.Storable := by
  constructor
  · rintro ⟨again, hread, -, hsame⟩
    obtain ⟨hagain, hstorable, -⟩ := read_eq_ok_iff.1 hread
    refine h.storable_iff.2 fun index stored hget => ?_
    obtain ⟨found, hfound, hbytes⟩ := exists_of_map_bytes (hsame index) hget
    obtain rfl := Constant.eq_of_bytes (hagain.genuine hfound) (h.genuine hget) hbytes
    exact hagain.storable_iff.1 hstorable index stored hfound
  · intro hstorable
    have hread := h.read_bytes hstorable []
    rw [List.append_nil] at hread
    exact ⟨pool, hread, rfl, fun _ => rfl⟩

end Pool

namespace Interner

/-- A call on an interner. -/
inductive Call where
  | text (content : String)
  | constant (entry : Constant)

namespace Call

/-- The constant whose index is asked for. -/
def wanted : Call → Constant
  | .text content => .utf8 (.ofText content)
  | .constant entry => entry

/-- What is done for a call. -/
def perform : Call → ExceptT PoolOverflow (StateM Interner) Index
  | .text content => internText content
  | .constant entry => intern entry

theorem perform_eq (call : Call) : call.perform = intern call.wanted := by
  cases call <;> rfl

end Call

/-- The calls with their answers, and the interner after them. -/
def performAll : List Call → Interner → List (Call × Except PoolOverflow Index) × Interner
  | [], interner => ([], interner)
  | call :: calls, interner =>
    let (answer, next) := call.perform.run.run interner
    let (answers, after) := performAll calls next
    ((call, answer) :: answers, after)

/-- Every call gets one answer. -/
theorem map_fst_performAll (calls : List Call) (interner : Interner) :
    (performAll calls interner).1.map Prod.fst = calls := by
  induction calls generalizing interner with
  | nil => rfl
  | cons call calls ih =>
    rw [performAll]
    exact congrArg (call :: ·) (ih _)

/-- Interning a constant leaves entries that can be stored exactly when there were such and it did not give an index for
a constant that cannot. -/
theorem Sound.storable_intern_iff {interner : Interner} (h : interner.Sound) {constant : Constant}
    (hgenuine : constant.Genuine) {answer : Except PoolOverflow Index} {next : Interner}
    (hrun : (Interner.intern constant).run.run interner = (answer, next)) :
    next.pool.Storable ↔ interner.pool.Storable ∧ ∀ index, answer = .ok index → constant.Storable := by
  obtain ⟨hnext, hextends, hget⟩ := h.intern hgenuine hrun
  constructor
  · exact fun hstorable => ⟨fun entry hentry => hstorable entry (hextends.subset hentry),
      fun index hindex => hstorable.get hnext.pool (hget index hindex)⟩
  · rintro ⟨hstorable, hconstant⟩
    cases answer with
    | ok index => exact storable_of_intern hstorable (hconstant index rfl) hrun
    | error overflow =>
      rw [unchanged_of_error hrun]
      exact hstorable

/-- After calls for genuine constants, an interner is sound, and the entries of its pool can be stored exactly when they
could before and every constant that got an index can. -/
theorem Sound.performAll {interner : Interner} (h : interner.Sound) {calls : List Call}
    (hgenuine : ∀ call ∈ calls, call.wanted.Genuine) :
    (Interner.performAll calls interner).2.Sound ∧
      ((Interner.performAll calls interner).2.pool.Storable ↔
        interner.pool.Storable ∧ ∀ call index, (call, .ok index) ∈ (Interner.performAll calls interner).1 →
          call.wanted.Storable) := by
  induction calls generalizing interner with
  | nil => exact ⟨h, by simp [Interner.performAll]⟩
  | cons call calls ih =>
    have hwanted := hgenuine call List.mem_cons_self
    rcases hrun : call.perform.run.run interner with ⟨answer, next⟩
    have hintern := hrun
    rw [call.perform_eq] at hintern
    have hstep := h.storable_intern_iff hwanted hintern
    obtain ⟨hafter, hrest⟩ := ih (h.intern hwanted hintern).1 fun c hc => hgenuine c (List.mem_cons_of_mem _ hc)
    rw [Interner.performAll, hrun]
    refine ⟨hafter, hrest.trans ?_⟩
    simp only [hstep, List.mem_cons, Prod.mk.injEq]
    constructor
    · rintro ⟨⟨hbefore, hfirst⟩, hlater⟩
      refine ⟨hbefore, ?_⟩
      rintro c index (⟨rfl, rfl⟩ | hmem)
      · exact hfirst index rfl
      · exact hlater c index hmem
    · rintro ⟨hbefore, hall⟩
      exact ⟨⟨hbefore, fun index hindex => hall call index (.inl ⟨rfl, hindex.symm⟩)⟩,
        fun c index hmem => hall c index (.inr hmem)⟩

/-- A pool that grows, from none or from one that was read, by calls for texts and genuine constants is read back from
its bytes exactly when every constant that got an index can be stored, which only a text of more than 65535 bytes
cannot. -/
theorem readBack_after_calls_iff {start : Pool}
    (hstart : start = .empty ∨ ∃ input rest, Pool.read input = .ok (start, rest)) {calls : List Call}
    (hgenuine : ∀ call ∈ calls, call.wanted.Genuine) :
    (performAll calls (.ofPool start)).2.pool.ReadBack ↔
      ∀ call index stored, (call, .ok index) ∈ (performAll calls (.ofPool start)).1 → call.wanted = .utf8 stored →
        stored.encoded.length ≤ 65535 := by
  have hpool : start.WellFormed ∧ start.Storable := by
    rcases hstart with rfl | ⟨input, rest, hread⟩
    · exact ⟨.empty, fun _ hmem => by cases hmem⟩
    · obtain ⟨hpool, hstorable, -⟩ := Pool.read_eq_ok_iff.1 hread
      exact ⟨hpool, hstorable⟩
  obtain ⟨hsound, hstorable⟩ := (sound_ofPool hpool.1).performAll hgenuine
  have hasked : ∀ call answer, (call, answer) ∈ (performAll calls (.ofPool start)).1 → call.wanted.Genuine := by
    intro call answer hmem
    refine hgenuine call ?_
    rw [← map_fst_performAll calls (.ofPool start)]
    exact List.mem_map_of_mem hmem
  rw [hsound.pool.readBack_iff, hstorable]
  refine (and_iff_right hpool.2).trans ?_
  refine forall_congr' fun call => forall_congr' fun index => ?_
  constructor
  · intro h stored hmem hwanted
    exact (hasked call _ hmem).storable_iff.1 (h hmem) stored hwanted
  · exact fun h hmem => (hasked call _ hmem).storable_iff.2 fun stored => h stored hmem

/-! ### A text that is too long -/

/-- When every element gives at least one, the results are at least as many as the elements. -/
private theorem length_le_length_flatMap {α β : Type} {f : α → List β} (h : ∀ a, 0 < (f a).length) (as : List α) :
    as.length ≤ (as.flatMap f).length := by
  induction as with
  | nil => exact Nat.le_refl _
  | cons a as ih =>
    have := h a
    rw [List.flatMap_cons, List.length_append, List.length_cons]
    omega

/-- The bytes of a text are at least as many as its characters. -/
theorem length_le_length_encode (text : String) : text.length ≤ (ModifiedUtf8.encode text).length := by
  have hchar : ∀ c : Char, 0 < (Utf16.unitsOfChar c).length := by
    intro c
    simp only [Utf16.unitsOfChar]
    split <;> simp
  have hunit : ∀ u : UInt16, 0 < (ModifiedUtf8.encodeUnit u).length := by
    intro u
    simp only [ModifiedUtf8.encodeUnit]
    split
    · simp
    · split <;> simp
  calc text.length = text.toList.length := String.length_toList.symm
    _ ≤ (Utf16.unitsOfText text).length := length_le_length_flatMap hchar _
    _ ≤ (ModifiedUtf8.encode text).length := length_le_length_flatMap hunit _

/-- The first text gets index one. -/
theorem performAll_text (text : String) :
    (performAll [.text text] (.ofPool .empty)).1 = [(.text text, .ok 1)] := by
  have hnew : (ofPool .empty).firstIndex[(Call.text text).wanted.bytes]? = none := Std.HashMap.getElem?_empty
  have hroom : (ofPool .empty).pool.hasRoom (Call.text text).wanted = true := rfl
  rw [performAll, Call.perform_eq, run_intern, hnew]
  dsimp only
  rw [if_pos hroom]
  rfl

/-- A text of so many letters. -/
@[irreducible]
def letters (count : Nat) : String := String.ofList (List.replicate count 'a')

theorem length_letters (count : Nat) : (letters count).length = count := by
  rw [letters, String.length_ofList, List.length_replicate]

/-- A text of 65536 letters is given an index, and the pool that holds it is not read back. -/
theorem readBack_after_calls_iff_long :
    (Call.text (letters 65536)).wanted.Genuine ∧
      (performAll [.text (letters 65536)] (.ofPool .empty)).1 = [(.text (letters 65536), .ok 1)] ∧
      ¬ (performAll [.text (letters 65536)] (.ofPool .empty)).2.pool.ReadBack := by
  have hgenuine : (Call.text (letters 65536)).wanted.Genuine := Constant.genuine_ofText _
  have hanswers := performAll_text (letters 65536)
  refine ⟨hgenuine, hanswers, fun hback => ?_⟩
  have hshort := (readBack_after_calls_iff (.inl rfl) fun _ hmem => List.mem_singleton.1 hmem ▸ hgenuine).1 hback
    (.text (letters 65536)) 1 (.ofText (letters 65536)) (hanswers ▸ List.mem_singleton_self _) rfl
  have hlong := length_le_length_encode (letters 65536)
  rw [length_letters] at hlong
  exact absurd (Nat.le_trans hlong hshort) (by decide)

end Interner

end ClassGraft
