import ClassGraft.Reader

/-!
# Readers that undo writers

A reader inverts a writer when it accepts exactly the written forms of the valid values, each followed by anything
whatever, and gives the value and what follows it.  This holds of the words of the format, and it passes from elements
to counted sequences of them.
-/

namespace ClassGraft

/-- What holds of the first 256 numbers holds of all bytes. -/
theorem forall_byte {motive : UInt8 → Prop} (h : ∀ n < 256, motive (UInt8.ofNat n)) : ∀ byte, motive byte := by
  intro byte
  rw [← @UInt8.ofNat_toNat byte]
  exact h byte.toNat byte.toNat_lt

theorem u16Bytes_ofNat {n : Nat} (h : n < 65536) : u16Bytes (UInt16.ofNat n) = bigEndian 2 n := by
  rw [u16Bytes, UInt16.toNat_ofNat_of_lt' h]

theorem length_u16Bytes (w : UInt16) : (u16Bytes w).length = 2 := length_bigEndian 2 _

theorem ofBigEndian_u16Bytes (w : UInt16) : ofBigEndian (u16Bytes w) = w.toNat := by
  rw [u16Bytes, ofBigEndian_bigEndian]
  exact Nat.mod_eq_of_lt w.toNat_lt

theorem u16Bytes_ofBigEndian (high low : UInt8) :
    u16Bytes (UInt16.ofNat (ofBigEndian [high, low])) = [high, low] := by
  rw [u16Bytes_ofNat (by simpa using ofBigEndian_lt [high, low])]
  exact bigEndian_ofBigEndian [high, low]

end ClassGraft

namespace ClassGraft.Reader

/-- The reader accepts exactly what the writer makes of valid values, and leaves what follows. -/
def Inverts {α : Type} (read : Reader α) (write : α → Bytes) (valid : α → Prop) : Prop :=
  ∀ input a rest, read input = .ok (a, rest) ↔ valid a ∧ input = write a ++ rest

theorem inverts_number (k : Nat) : Inverts (number k) (bigEndian k) fun n => n < Nat.pow 256 k := by
  intro input n rest
  rw [number, map_eq_ok_iff]
  constructor
  · rintro ⟨front, htake, rfl⟩
    obtain ⟨rfl, rfl⟩ := take_eq_ok_iff.1 htake
    exact ⟨ofBigEndian_lt front, by rw [bigEndian_ofBigEndian]⟩
  · rintro ⟨hn, rfl⟩
    refine ⟨bigEndian k n, take_eq_ok_iff.2 ⟨rfl, length_bigEndian k n⟩, ?_⟩
    rw [ofBigEndian_bigEndian, Nat.mod_eq_of_lt hn]

/-- A reader of other names for the values inverts the writer that names them back. -/
theorem Inverts.map {α β : Type} {read : Reader α} {write : α → Bytes} {valid : α → Prop}
    (h : Inverts read write valid) {f : α → β} {g : β → α} (hgf : ∀ a, valid a → g (f a) = a)
    (hfg : ∀ b, f (g b) = b) : Inverts (f <$> read) (fun b => write (g b)) fun b => valid (g b) := by
  intro input b rest
  rw [map_eq_ok_iff]
  constructor
  · rintro ⟨a, hread, rfl⟩
    obtain ⟨ha, rfl⟩ := (h _ _ _).1 hread
    dsimp only
    rw [hgf a ha]
    exact ⟨ha, rfl⟩
  · rintro ⟨hb, rfl⟩
    exact ⟨g b, (h _ _ _).2 ⟨hb, rfl⟩, hfg b⟩

/-- A word inverts the writer of its bytes, since every number that fits is the value of a word. -/
private theorem inverts_word {ω : Type} {k : Nat} {ofNat : Nat → ω} {toNat : ω → Nat}
    (hnumber : ∀ n, n < Nat.pow 256 k → toNat (ofNat n) = n) (hword : ∀ w, ofNat (toNat w) = w)
    (hlt : ∀ w, toNat w < Nat.pow 256 k) :
    Inverts (ofNat <$> number k) (fun w => bigEndian k (toNat w)) fun _ => True := by
  intro input w rest
  rw [(inverts_number k).map hnumber hword]
  exact and_congr_left fun _ => iff_of_true (hlt w) trivial

theorem inverts_u8 : Inverts u8 (fun b => [b]) fun _ => True := by
  intro input b rest
  have hbyte : bigEndian 1 b.toNat = [b] := by simp [bigEndian]
  show u8 input = .ok (b, rest) ↔ True ∧ input = [b] ++ rest
  rw [← hbyte]
  refine inverts_word (k := 1) ?_ (fun w => UInt8.ofNat_toNat) UInt8.toNat_lt input b rest
  exact fun n hn => UInt8.toNat_ofNat_of_lt' hn

theorem inverts_u16 : Inverts u16 u16Bytes fun _ => True := by
  refine inverts_word (k := 2) ?_ (fun w => UInt16.ofNat_toNat) UInt16.toNat_lt
  exact fun n hn => UInt16.toNat_ofNat_of_lt' hn

theorem inverts_u32 : Inverts u32 u32Bytes fun _ => True := by
  refine inverts_word (k := 4) ?_ (fun w => UInt32.ofNat_toNat) UInt32.toNat_lt
  exact fun n hn => UInt32.toNat_ofNat_of_lt' hn

theorem inverts_u64 : Inverts u64 u64Bytes fun _ => True := by
  refine inverts_word (k := 8) ?_ (fun w => UInt64.ofNat_toNat) UInt64.toNat_lt
  exact fun n hn => UInt64.toNat_ofNat_of_lt' hn

/-- A sized byte string is its length in four bytes and the bytes. -/
theorem inverts_sized :
    Inverts sized (fun bytes => bigEndian 4 bytes.length ++ bytes) fun bytes => bytes.length < 4294967296 := by
  intro input bytes rest
  rw [sized, bind_eq_ok_iff]
  constructor
  · rintro ⟨w, middle, hword, htake⟩
    obtain ⟨-, rfl⟩ := (inverts_u32 _ _ _).1 hword
    obtain ⟨rfl, hlength⟩ := take_eq_ok_iff.1 htake
    dsimp only
    refine ⟨hlength ▸ w.toNat_lt, ?_⟩
    rw [hlength, u32Bytes, List.append_assoc]
  · rintro ⟨hlength, rfl⟩
    have hword : (UInt32.ofNat bytes.length).toNat = bytes.length := by
      rw [UInt32.toNat_ofNat', Nat.mod_eq_of_lt hlength]
    refine ⟨UInt32.ofNat bytes.length, bytes ++ rest, (inverts_u32 _ _ _).2 ⟨trivial, ?_⟩,
      take_eq_ok_iff.2 ⟨rfl, hword.symm⟩⟩
    rw [u32Bytes, hword, List.append_assoc]

private theorem timesOnto_eq_ok_iff {α : Type} {read : Reader α} {write : α → Bytes} {valid : α → Prop}
    (h : Inverts read write valid) {n : Nat} (found : List α) {as : List α} {input rest : Bytes} :
    timesOnto read n found input = .ok (as, rest) ↔
      ∃ new, as = found.reverse ++ new ∧ new.length = n ∧ (∀ a ∈ new, valid a) ∧
        input = new.flatMap write ++ rest := by
  induction n generalizing found input with
  | zero =>
    rw [timesOnto, pure_eq_ok_iff]
    constructor
    · rintro ⟨rfl, rfl⟩
      exact ⟨[], by simp⟩
    · rintro ⟨new, rfl, hlength, -, rfl⟩
      obtain rfl := List.length_eq_zero_iff.1 hlength
      simp
  | succ n ih =>
    rw [timesOnto, bind_eq_ok_iff]
    constructor
    · rintro ⟨a, middle, hread, htimes⟩
      obtain ⟨ha, rfl⟩ := (h _ _ _).1 hread
      obtain ⟨new, rfl, rfl, hnew, rfl⟩ := (ih (a :: found)).1 htimes
      refine ⟨a :: new, by simp, rfl, ?_, by simp⟩
      intro b hb
      rcases List.mem_cons.1 hb with rfl | hb
      · exact ha
      · exact hnew b hb
    · rintro ⟨new, rfl, hlength, hnew, rfl⟩
      obtain ⟨a, new, rfl⟩ := List.exists_cons_of_length_eq_add_one hlength
      have htail : ∀ b ∈ new, valid b := fun b hb => hnew b (List.mem_cons_of_mem a hb)
      refine ⟨a, new.flatMap write ++ rest, (h _ _ _).2 ⟨hnew a List.mem_cons_self, ?_⟩,
        (ih (a :: found)).2 ⟨new, ?_, Nat.succ.inj hlength, htail, rfl⟩⟩
      · simp
      · simp

/-- A counted sequence of written elements is read back. -/
theorem Inverts.counted {α : Type} {read : Reader α} {write : α → Bytes} {valid : α → Prop}
    (h : Inverts read write valid) :
    Inverts (counted read) (countedBytes write) fun as => as.length < 65536 ∧ ∀ a ∈ as, valid a := by
  intro input as rest
  rw [Reader.counted, bind_eq_ok_iff]
  constructor
  · rintro ⟨count, middle, hcount, htimes⟩
    obtain ⟨-, rfl⟩ := (inverts_u16 _ _ _).1 hcount
    obtain ⟨new, rfl, hlength, hnew, rfl⟩ := (timesOnto_eq_ok_iff h []).1 htimes
    refine ⟨⟨hlength ▸ count.toNat_lt, hnew⟩, ?_⟩
    rw [countedBytes, countBytes, hlength, u16Bytes, List.append_assoc]
  · rintro ⟨⟨hlength, has⟩, rfl⟩
    have hcount : (UInt16.ofNat as.length).toNat = as.length := by
      rw [UInt16.toNat_ofNat_of_lt' hlength]
    refine ⟨UInt16.ofNat as.length, as.flatMap write ++ rest, (inverts_u16 _ _ _).2 ⟨trivial, ?_⟩, ?_⟩
    · rw [u16Bytes_ofNat hlength, countedBytes, countBytes, List.append_assoc]
    · exact (timesOnto_eq_ok_iff h []).2 ⟨as, rfl, hcount.symm, has, rfl⟩

end ClassGraft.Reader
