import ClassGraft.FormatError

/-!
# Reading the class file format

A reader takes a value off the front of a byte string and passes the rest on, or fails.  Words are big-endian, and a
counted sequence is a two-byte count followed by that many elements.
-/

namespace ClassGraft

/-- A computation that takes a value off the front of a byte string. -/
abbrev Reader := StateT Bytes (Except FormatError)

namespace Reader

/-- Takes exactly `n` bytes. -/
def take (n : Nat) : Reader Bytes := fun bytes =>
  match cut n bytes with
  | some (front, rest) => .ok (front, rest)
  | none => .error .endOfInput

/-- Takes a big-endian number of `k` bytes. -/
def number (k : Nat) : Reader Nat := ofBigEndian <$> take k

/-- Takes one byte. -/
def u8 : Reader UInt8 := UInt8.ofNat <$> number 1

/-- Takes two bytes as a word. -/
def u16 : Reader UInt16 := UInt16.ofNat <$> number 2

/-- Takes four bytes as a word. -/
def u32 : Reader UInt32 := UInt32.ofNat <$> number 4

/-- Takes eight bytes as a word. -/
def u64 : Reader UInt64 := UInt64.ofNat <$> number 8

/-- Takes `n` elements and puts them, in order, after those found so far (last one first). -/
def timesOnto {α : Type} (read : Reader α) : Nat → List α → Reader (List α)
  | 0, found => return found.reverse
  | n + 1, found => do
    let a ← read
    timesOnto read n (a :: found)

/-- Takes `n` elements. -/
def times {α : Type} (n : Nat) (read : Reader α) : Reader (List α) := timesOnto read n []

/-- Takes a counted sequence. -/
def counted {α : Type} (read : Reader α) : Reader (List α) := do
  let count ← u16
  times count.toNat read

/-- Takes a four-byte length and that many bytes. -/
def sized : Reader Bytes := do
  let length ← u32
  take length.toNat

theorem bind_eq_ok_iff {α β : Type} {read : Reader α} {next : α → Reader β} {bytes rest : Bytes} {b : β} :
    (read >>= next) bytes = .ok (b, rest) ↔
      ∃ a middle, read bytes = .ok (a, middle) ∧ next a middle = .ok (b, rest) := by
  rw [show (read >>= next) bytes = (read bytes >>= fun (a, middle) => next a middle) from rfl]
  cases read bytes with
  | error error =>
    constructor
    · intro h
      cases h
    · rintro ⟨_, _, h, _⟩
      cases h
  | ok found =>
    obtain ⟨a, middle⟩ := found
    constructor
    · exact fun h => ⟨a, middle, rfl, h⟩
    · rintro ⟨_, _, h, hnext⟩
      cases h
      exact hnext

theorem map_eq_ok_iff {α β : Type} {read : Reader α} {f : α → β} {bytes rest : Bytes} {b : β} :
    (f <$> read) bytes = .ok (b, rest) ↔ ∃ a, read bytes = .ok (a, rest) ∧ f a = b := by
  rw [map_eq_pure_bind, bind_eq_ok_iff]
  constructor
  · rintro ⟨a, middle, hread, h⟩
    cases h
    exact ⟨a, hread, rfl⟩
  · rintro ⟨a, hread, rfl⟩
    exact ⟨a, rest, hread, rfl⟩

theorem pure_eq_ok_iff {α : Type} {a b : α} {bytes rest : Bytes} :
    (pure a : Reader α) bytes = .ok (b, rest) ↔ a = b ∧ bytes = rest := by
  rw [show (pure a : Reader α) bytes = .ok (a, bytes) from rfl]
  simp

/-- Taking bytes succeeds exactly on a byte string that starts with that many. -/
theorem take_eq_ok_iff {n : Nat} {bytes front rest : Bytes} :
    take n bytes = .ok (front, rest) ↔ bytes = front ++ rest ∧ front.length = n := by
  rw [← cut_eq_some_iff]
  unfold take
  split <;> rename_i h <;> simp [h]

theorem length_of_take {n : Nat} {bytes front rest : Bytes} (h : take n bytes = .ok (front, rest)) :
    front.length = n ∧ bytes.length = n + rest.length := by
  obtain ⟨rfl, rfl⟩ := take_eq_ok_iff.1 h
  exact ⟨rfl, by simp⟩

theorem length_of_number {k n : Nat} {bytes rest : Bytes} (h : number k bytes = .ok (n, rest)) :
    bytes.length = k + rest.length := by
  obtain ⟨front, h, -⟩ := map_eq_ok_iff.1 h
  exact (length_of_take h).2

theorem length_of_u16 {w : UInt16} {bytes rest : Bytes} (h : u16 bytes = .ok (w, rest)) :
    bytes.length = 2 + rest.length := by
  obtain ⟨n, h, -⟩ := map_eq_ok_iff.1 h
  exact length_of_number h

theorem length_of_u32 {w : UInt32} {bytes rest : Bytes} (h : u32 bytes = .ok (w, rest)) :
    bytes.length = 4 + rest.length := by
  obtain ⟨n, h, -⟩ := map_eq_ok_iff.1 h
  exact length_of_number h

theorem length_of_sized {front bytes rest : Bytes} (h : sized bytes = .ok (front, rest)) :
    bytes.length = 4 + front.length + rest.length := by
  obtain ⟨w, middle, hw, h⟩ := bind_eq_ok_iff.1 h
  have := length_of_u32 hw
  have := length_of_take h
  omega

/-- Whether a reader never leaves more bytes than it was given. -/
def Shrinks {α : Type} (read : Reader α) : Prop :=
  ∀ bytes a rest, read bytes = .ok (a, rest) → rest.length ≤ bytes.length

theorem shrinks_pure {α : Type} (a : α) : Shrinks (pure a : Reader α) := by
  intro bytes b rest h
  exact Nat.le_of_eq (by rw [(pure_eq_ok_iff.1 h).2])

theorem Shrinks.bind {α β : Type} {read : Reader α} {next : α → Reader β} (hread : Shrinks read)
    (hnext : ∀ a, Shrinks (next a)) : Shrinks (read >>= next) := by
  intro bytes b rest h
  obtain ⟨a, middle, ha, hb⟩ := bind_eq_ok_iff.1 h
  exact Nat.le_trans (hnext _ _ _ _ hb) (hread _ _ _ ha)

theorem Shrinks.map {α β : Type} {read : Reader α} (f : α → β) (hread : Shrinks read) :
    Shrinks (f <$> read) := by
  rw [map_eq_pure_bind]
  exact hread.bind fun a => shrinks_pure (f a)

theorem shrinks_take (n : Nat) : Shrinks (take n) := by
  intro bytes front rest h
  have := (length_of_take h).2
  omega

theorem shrinks_number (k : Nat) : Shrinks (number k) := (shrinks_take k).map _

theorem shrinks_u16 : Shrinks u16 := (shrinks_number 2).map _

theorem shrinks_u32 : Shrinks u32 := (shrinks_number 4).map _

theorem shrinks_sized : Shrinks sized := shrinks_u32.bind fun _ => shrinks_take _

theorem Shrinks.timesOnto {α : Type} {read : Reader α} (hread : Shrinks read) (n : Nat) (found : List α) :
    Shrinks (timesOnto read n found) := by
  induction n generalizing found with
  | zero => exact shrinks_pure _
  | succ n ih => exact hread.bind fun a => ih (a :: found)

theorem Shrinks.counted {α : Type} {read : Reader α} (hread : Shrinks read) : Shrinks (counted read) :=
  shrinks_u16.bind fun count => hread.timesOnto count.toNat []

end Reader

end ClassGraft
