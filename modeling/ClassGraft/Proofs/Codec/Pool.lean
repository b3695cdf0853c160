import ClassGraft.Pool.Codec
import ClassGraft.Proofs.Pool.Entries

/-!
# Constant pools and their bytes

What is read as a pool is a count and the entries of a well-formed pool, all of which can be stored.  The count does
not have to be the one that would be written: reading takes entries as long as their number of indices is below it, so
it is also satisfied with a count of zero in front of no entry, and with a count that the second index of a wide last
entry passes.  These are the only exceptions (`read_eq_ok_iff`, `Declares.cases`).
-/

namespace ClassGraft.Pool

open Reader

/-- The bytes of the entries of a pool. -/
def entryBytes (pool : Pool) : Bytes := pool.table.toList.flatMap fun (_, constant) => constant.bytes

/-- All entries of the pool can be stored. -/
def Storable (pool : Pool) : Prop := ∀ entry ∈ pool.table.toList, entry.2.Storable

/-- The pool had not reached the limit before its last entry. -/
def LastNeeded (pool : Pool) (limit : Nat) : Prop :=
  ∀ (before : Pool) (last : Constant), pool = before.push last → before.count < limit

/-- Reading up to the limit ends with this pool. -/
def Declares (pool : Pool) (limit : Nat) : Prop := limit ≤ pool.count ∧ pool.LastNeeded limit

theorem bytes_eq (pool : Pool) : pool.bytes = bigEndian 2 pool.count ++ pool.entryBytes := rfl

theorem entryBytes_push (pool : Pool) (constant : Constant) :
    (pool.push constant).entryBytes = pool.entryBytes ++ constant.bytes := by
  simp [entryBytes]

theorem storable_push_iff {pool : Pool} {constant : Constant} :
    (pool.push constant).Storable ↔ pool.Storable ∧ constant.Storable := by
  simp only [Storable, toList_push, List.mem_append, List.mem_singleton]
  constructor
  · exact fun h => ⟨fun entry hentry => h entry (.inl hentry), h _ (.inr rfl)⟩
  · rintro ⟨hpool, hconstant⟩ entry (hentry | rfl)
    · exact hpool entry hentry
    · exact hconstant

theorem Storable.get {pool : Pool} (h : pool.Storable) (hpool : pool.WellFormed) {index : Index} {constant : Constant}
    (hget : pool.get index = .ok constant) : constant.Storable :=
  h _ (hpool.get_eq_ok_iff.1 hget)

private theorem push_inj {a b : Pool} {c d : Constant} (h : a.push c = b.push d) : a = b ∧ c = d := by
  obtain ⟨⟨entries, next⟩⟩ := a
  obtain ⟨⟨entries', next'⟩⟩ := b
  simp only [push, OffsetTable.push, mk.injEq, OffsetTable.mk.injEq, Array.push_eq_push, Prod.mk.injEq] at h
  obtain ⟨⟨⟨rfl, rfl⟩, rfl⟩, -⟩ := h
  exact ⟨rfl, rfl⟩

private theorem empty_ne_push (pool : Pool) (constant : Constant) : Pool.empty ≠ pool.push constant := by
  intro h
  have := congrArg (fun pool : Pool => pool.table.toList) h
  simp [empty] at this

theorem lastNeeded_empty (limit : Nat) : Pool.empty.LastNeeded limit :=
  fun before last h => absurd h (empty_ne_push before last)

theorem lastNeeded_push_iff {pool : Pool} {constant : Constant} {limit : Nat} :
    (pool.push constant).LastNeeded limit ↔ pool.count < limit := by
  constructor
  · exact fun h => h pool constant rfl
  · intro h before last heq
    rwa [← (push_inj heq).1]

/-- A limit that reading a pool ends with is its count, except for zero and where a wide last entry passes it. -/
theorem Declares.cases {pool : Pool} (hpool : pool.WellFormed) {limit : Nat} (h : pool.Declares limit) :
    limit = pool.count ∨ limit = 0 ∧ pool = .empty ∨
      limit + 1 = pool.count ∧ ∃ (before : Pool) (last : Constant), pool = before.push last ∧ last.width = 2 := by
  obtain ⟨hle, hneeded⟩ := h
  cases hpool with
  | empty =>
    have : Pool.empty.count = 1 := rfl
    rcases Nat.eq_zero_or_pos limit with hzero | hpos
    · exact .inr (.inl ⟨hzero, rfl⟩)
    · exact .inl (by omega)
  | @push before last hpool _ _ =>
    have hlt := lastNeeded_push_iff.1 hneeded
    rw [count_push] at hle ⊢
    have hwidth := last.width_le_two
    rcases Nat.eq_or_lt_of_le hle with heq | hpassed
    · exact .inl heq
    · exact .inr (.inr ⟨by omega, before, last, rfl, by omega⟩)

/-- Reading on from the front of a pool takes the bytes of the entries that follow. -/
theorem readEntries_eq_ok {limit : Nat} {pool file : Pool} {input rest : Bytes} (hpool : pool.WellFormed)
    (hstorable : pool.Storable) (hneeded : pool.LastNeeded limit)
    (h : readEntries limit pool input = .ok (file, rest)) :
    file.WellFormed ∧ file.Storable ∧ file.Declares limit ∧
      ∃ taken, file.entryBytes = pool.entryBytes ++ taken ∧ input = taken ++ rest := by
  fun_induction readEntries limit pool input with
  | case1 pool input hbelow error hread => cases h
  | case2 pool input hbelow constant rest' hread hroom ih =>
    obtain ⟨hconstant, rfl⟩ := (Constant.inverts_read _ _ _ _).1 hread
    obtain ⟨hfile, hstorable', hdeclares, taken, hentries, rfl⟩ := ih (hpool.push hconstant.genuine hroom)
      (storable_push_iff.2 ⟨hstorable, hconstant⟩) (lastNeeded_push_iff.2 hbelow) h
    refine ⟨hfile, hstorable', hdeclares, constant.bytes ++ taken, ?_, by rw [List.append_assoc]⟩
    rw [hentries, entryBytes_push, List.append_assoc]
  | case3 pool input hbelow constant rest' hread hroom => cases h
  | case4 pool input hbelow =>
    cases h
    exact ⟨hpool, hstorable, ⟨Nat.le_of_not_lt hbelow, hneeded⟩, [], by simp⟩

/-- The entries of a pool that had not reached the limit before its last entry are all read. -/
theorem readEntries_entryBytes {limit : Nat} {pool : Pool} (hpool : pool.WellFormed) (hstorable : pool.Storable)
    (hneeded : pool.LastNeeded limit) (rest : Bytes) :
    readEntries limit .empty (pool.entryBytes ++ rest) = readEntries limit pool rest := by
  induction hpool generalizing rest with
  | empty => rfl
  | @push pool constant hpool hgenuine hroom ih =>
    obtain ⟨hbefore, hconstant⟩ := storable_push_iff.1 hstorable
    have hbelow : pool.count < limit := lastNeeded_push_iff.1 hneeded
    -- The pool before the last entry is shorter still, so its own last entry was needed as well.
    have hneeded' : pool.LastNeeded limit := by
      rintro before last rfl
      rw [count_push] at hbelow
      omega
    have hread := (Constant.inverts_read (UInt16.ofNat pool.count) _ constant rest).2 ⟨hconstant, rfl⟩
    rw [entryBytes_push, List.append_assoc, ih hbefore hneeded', readEntries, if_pos hbelow, hread]
    exact if_pos hroom

/-- What is read as a pool: a count with which reading ends, and the entries. -/
theorem read_eq_ok_iff {pool : Pool} {input rest : Bytes} :
    read input = .ok (pool, rest) ↔
      pool.WellFormed ∧ pool.Storable ∧ ∃ limit : UInt16, pool.Declares limit.toNat ∧
        input = u16Bytes limit ++ pool.entryBytes ++ rest := by
  rw [read, bind_eq_ok_iff]
  constructor
  · rintro ⟨limit, middle, hlimit, hentries⟩
    obtain ⟨-, rfl⟩ := (inverts_u16 _ _ _).1 hlimit
    obtain ⟨hpool, hstorable, hdeclares, taken, htaken, rfl⟩ :=
      readEntries_eq_ok .empty (fun _ hmem => by cases hmem) (lastNeeded_empty _) hentries
    refine ⟨hpool, hstorable, limit, hdeclares, ?_⟩
    rw [htaken]
    simp [entryBytes, empty]
  · rintro ⟨hpool, hstorable, limit, ⟨hle, hneeded⟩, rfl⟩
    refine ⟨limit, pool.entryBytes ++ rest, (inverts_u16 _ _ _).2 ⟨trivial, by rw [List.append_assoc]⟩, ?_⟩
    rw [readEntries_entryBytes hpool hstorable hneeded, readEntries, if_neg (Nat.not_lt.2 hle)]

theorem WellFormed.declares_count {pool : Pool} (h : pool.WellFormed) : pool.Declares pool.count := by
  cases h with
  | empty => exact ⟨Nat.le_refl _, lastNeeded_empty _⟩
  | @push before constant _ _ _ =>
    refine ⟨Nat.le_refl _, lastNeeded_push_iff.2 ?_⟩
    rw [count_push]
    exact Nat.lt_add_of_pos_right constant.width_pos

/-- The bytes of a pool with entries that can be stored are read as this pool. -/
theorem WellFormed.read_bytes {pool : Pool} (h : pool.WellFormed) (hstorable : pool.Storable) (rest : Bytes) :
    read (pool.bytes ++ rest) = .ok (pool, rest) := by
  refine read_eq_ok_iff.2 ⟨h, hstorable, UInt16.ofNat pool.count, ?_, ?_⟩
  · rw [h.toNat_count]
    exact h.declares_count
  · rw [bytes_eq, u16Bytes, h.toNat_count]

end ClassGraft.Pool
