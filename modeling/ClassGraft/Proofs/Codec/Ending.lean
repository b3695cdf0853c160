import ClassGraft.Proofs.Codec.ClassFile

/-!
# Readers that find their own end

A reader finds its own end when the bytes that it takes are all that it needs, and are needed to the last: it takes them
off the front of anything that starts with them, and in anything that breaks off before their end it meets the end of
the input.  Taking a number of bytes is like this, and so is everything that is put together from such readers.  So a
class that is cut off anywhere is never taken for a complete one, and bytes behind a class do not change what it is
(`ClassFile.parse_findsEnd`).
-/

namespace ClassGraft

namespace Reader

variable {α β : Type} {read : Reader α} {next : α → Reader β}

/-- The reader takes exactly these bytes for a value. -/
structure TakesFor (read : Reader α) (taken : Bytes) (a : α) : Prop where
  onward : ∀ more, read (taken ++ more) = .ok (a, more)
  broken : ∀ front back, taken = front ++ back → back ≠ [] → read front = .error .endOfInput

/-- A reader that takes the same bytes for a value whatever follows them. -/
def FindsEnd (read : Reader α) : Prop :=
  ∀ input a rest, read input = .ok (a, rest) → ∃ taken, input = taken ++ rest ∧ TakesFor read taken a

/-- What a reader leaves to the next is where the next one begins. -/
theorem TakesFor.bind {taken later : Bytes} {a : α} {b : β} (hread : TakesFor read taken a)
    (hnext : TakesFor (next a) later b) : TakesFor (read >>= next) (taken ++ later) b := by
  have hbind : ∀ input, (read >>= next) input = read input >>= fun (a, middle) => next a middle := fun _ => rfl
  constructor
  · intro more
    rw [hbind, List.append_assoc, hread.onward]
    exact hnext.onward more
  · intro front back heq hback
    rw [hbind]
    -- The input breaks off either within what the second reader takes or within what the first one does.
    rcases List.append_eq_append_iff.1 heq with ⟨inner, rfl, hlater⟩ | ⟨outer, htaken, rfl⟩
    · rw [hread.onward]
      exact hnext.broken inner back hlater hback
    · by_cases houter : outer = []
      · subst houter
        rw [List.append_nil] at htaken
        have hfirst := hread.onward []
        rw [List.append_nil, htaken] at hfirst
        rw [hfirst]
        exact hnext.broken [] later rfl hback
      · rw [hread.broken front outer htaken houter]
        rfl

theorem findsEnd_pure (a : α) : FindsEnd (pure a : Reader α) := by
  intro input b rest h
  obtain ⟨rfl, rfl⟩ := pure_eq_ok_iff.1 h
  refine ⟨[], rfl, fun more => rfl, fun front back heq hback => ?_⟩
  exact absurd (List.append_eq_nil_iff.1 heq.symm).2 hback

theorem findsEnd_throw (error : FormatError) : FindsEnd (throw error : Reader α) := by
  intro input a rest h
  cases h

theorem FindsEnd.bind (hread : FindsEnd read) (hnext : ∀ a, FindsEnd (next a)) : FindsEnd (read >>= next) := by
  intro input b rest h
  obtain ⟨a, middle, ha, hb⟩ := bind_eq_ok_iff.1 h
  obtain ⟨taken, rfl, htaken⟩ := hread _ _ _ ha
  obtain ⟨later, rfl, hlater⟩ := hnext a _ _ _ hb
  exact ⟨taken ++ later, (List.append_assoc ..).symm, htaken.bind hlater⟩

theorem FindsEnd.map (hread : FindsEnd read) (f : α → β) : FindsEnd (f <$> read) := by
  rw [map_eq_pure_bind]
  exact hread.bind fun a => findsEnd_pure (f a)

/-- Fewer bytes than are to be taken end too early. -/
theorem findsEnd_take (n : Nat) : FindsEnd (take n) := by
  intro input front rest h
  obtain ⟨rfl, rfl⟩ := take_eq_ok_iff.1 h
  refine ⟨front, rfl, fun more => take_eq_ok_iff.2 ⟨rfl, rfl⟩, fun part back heq hback => ?_⟩
  have hshort : part.length < front.length := by
    have := List.length_pos_iff.2 hback
    rw [heq, List.length_append]
    omega
  rw [take, cut_eq_none_iff.2 hshort]

theorem findsEnd_number (k : Nat) : FindsEnd (number k) := (findsEnd_take k).map _

theorem findsEnd_u8 : FindsEnd u8 := (findsEnd_number 1).map _

theorem findsEnd_u16 : FindsEnd u16 := (findsEnd_number 2).map _

theorem findsEnd_u32 : FindsEnd u32 := (findsEnd_number 4).map _

theorem findsEnd_u64 : FindsEnd u64 := (findsEnd_number 8).map _

theorem findsEnd_sized : FindsEnd sized := findsEnd_u32.bind fun _ => findsEnd_take _

theorem FindsEnd.timesOnto (hread : FindsEnd read) (n : Nat) (found : List α) :
    FindsEnd (timesOnto read n found) := by
  induction n generalizing found with
  | zero => exact findsEnd_pure _
  | succ n ih => exact hread.bind fun a => ih (a :: found)

theorem FindsEnd.counted (hread : FindsEnd read) : FindsEnd (counted read) :=
  findsEnd_u16.bind fun count => hread.timesOnto count.toNat []

end Reader

open Reader

/-! ### Constants and pools -/

namespace Constant

private theorem findsEnd_readText (index : Index) : FindsEnd (readText index) := by
  refine findsEnd_u16.bind fun length => (findsEnd_take _).bind fun encoded => ?_
  split
  · exact findsEnd_pure _
  · exact findsEnd_throw _

private theorem findsEnd_readHandle (index : Index) : FindsEnd (readHandle index) := by
  refine findsEnd_u8.bind fun code => ?_
  split
  · exact findsEnd_u16.bind fun _ => findsEnd_pure _
  · exact findsEnd_throw _

/-- The fields of every kind of constant. -/
private theorem findsEnd_readBody (index : Index) (tag : Tag) : FindsEnd (readBody index tag) := by
  have hone : ∀ make : UInt16 → Constant, FindsEnd (do return make (← u16)) :=
    fun _ => findsEnd_u16.bind fun _ => findsEnd_pure _
  have htwo : ∀ make : UInt16 → UInt16 → Constant, FindsEnd (do return make (← u16) (← u16)) :=
    fun _ => findsEnd_u16.bind fun _ => findsEnd_u16.bind fun _ => findsEnd_pure _
  cases tag with
  | utf8 => exact findsEnd_readText index
  | methodHandle => exact findsEnd_readHandle index
  | integer | float => exact findsEnd_u32.bind fun _ => findsEnd_pure _
  | long | double => exact findsEnd_u64.bind fun _ => findsEnd_pure _
  | classInfo | string | methodType | moduleInfo | packageInfo => exact hone _
  | fieldRef | methodRef | interfaceMethodRef | nameAndType | dynamic | invokeDynamic => exact htwo _

theorem findsEnd_read (index : Index) : FindsEnd (read index) := by
  refine findsEnd_u8.bind fun code => ?_
  split
  · exact findsEnd_readBody index _
  · exact findsEnd_throw _

end Constant

namespace Pool

/-- Below the limit an entry is taken, and then those after it. -/
private theorem readEntries_eq (limit : Nat) (pool : Pool) :
    readEntries limit pool =
      if pool.count < limit then do
        let constant ← Constant.read (UInt16.ofNat pool.count)
        if pool.hasRoom constant then readEntries limit (pool.push constant)
        else throw (.poolOverflow ⟨constant, pool.count⟩)
      else pure pool := by
  funext input
  rw [readEntries]
  by_cases hbelow : pool.count < limit
  · rw [if_pos hbelow, if_pos hbelow]
    change _ = Constant.read (UInt16.ofNat pool.count) input >>= _
    cases Constant.read (UInt16.ofNat pool.count) input with
    | error error => rfl
    | ok found =>
      obtain ⟨constant, rest⟩ := found
      change (if pool.hasRoom constant then _ else _) = (if pool.hasRoom constant then _ else _ : Reader Pool) rest
      split <;> rfl
  · rw [if_neg hbelow, if_neg hbelow]
    rfl

private theorem findsEnd_readEntries (limit : Nat) (pool : Pool) : FindsEnd (readEntries limit pool) := by
  rw [readEntries_eq]
  by_cases hbelow : pool.count < limit
  · rw [if_pos hbelow]
    refine (Constant.findsEnd_read _).bind fun constant => ?_
    split
    · exact findsEnd_readEntries limit (pool.push constant)
    · exact findsEnd_throw _
  · rw [if_neg hbelow]
    exact findsEnd_pure _
termination_by limit - pool.count
decreasing_by
  have := constant.width_pos
  rw [count_push]
  omega

theorem findsEnd_read : FindsEnd read := findsEnd_u16.bind fun _ => findsEnd_readEntries _ _

end Pool

/-! ### Classes -/

theorem Attribute.findsEnd_read : FindsEnd Attribute.read :=
  findsEnd_u16.bind fun _ => findsEnd_sized.bind fun _ => findsEnd_pure _

theorem Member.findsEnd_read : FindsEnd Member.read :=
  findsEnd_u16.bind fun _ => findsEnd_u16.bind fun _ => findsEnd_u16.bind fun _ =>
    Attribute.findsEnd_read.counted.bind fun _ => findsEnd_pure _

namespace ClassFile

private theorem findsEnd_version : FindsEnd Version.read :=
  findsEnd_u16.bind fun _ => findsEnd_u16.bind fun _ => findsEnd_pure _

/-- Takes what stands in a class file before its methods, as a class that has no methods and attributes yet. -/
def readFront : Reader ClassFile := do
  let found ← Reader.number 4
  if found ≠ magic then throw (.badMagic found)
  let version ← Version.read
  let pool ← Pool.read
  let accessFlags ← Reader.u16
  let thisClass ← Reader.u16
  let superClass ← Reader.u16
  let interfaces ← Reader.counted Reader.u16
  let fields ← Reader.counted Member.read
  return ⟨version, pool, accessFlags, thisClass, superClass, interfaces, fields, [], []⟩

/-- Behind what stands before them, a class file has its methods and its attributes. -/
theorem read_eq :
    ClassFile.read = do
      let front ← readFront
      let methods ← Reader.counted Member.read
      let attributes ← Reader.counted Attribute.read
      return { front with methods := methods, attributes := attributes } := by
  simp only [ClassFile.read, readFront, bind_assoc]
  congr 1
  funext found
  by_cases hfound : found ≠ magic
  · rw [if_pos hfound, if_pos hfound]
    rfl
  · rw [if_neg hfound, if_neg hfound]
    simp only [bind_assoc, pure_bind]

theorem findsEnd_readFront : FindsEnd readFront := by
  refine (findsEnd_number 4).bind fun found => ?_
  by_cases hfound : found ≠ magic
  · rw [if_pos hfound]
    exact findsEnd_throw (.badMagic found)
  · rw [if_neg hfound]
    exact findsEnd_version.bind fun _ => Pool.findsEnd_read.bind fun _ => findsEnd_u16.bind fun _ =>
      findsEnd_u16.bind fun _ => findsEnd_u16.bind fun _ => findsEnd_u16.counted.bind fun _ =>
      Member.findsEnd_read.counted.bind fun _ => findsEnd_pure _

theorem findsEnd_read : FindsEnd ClassFile.read := by
  rw [read_eq]
  exact findsEnd_readFront.bind fun _ => Member.findsEnd_read.counted.bind fun _ =>
    Attribute.findsEnd_read.counted.bind fun _ => findsEnd_pure _

/-- The bytes that are taken for a class are that class whatever follows them, and no class when they break off. -/
theorem parse_findsEnd {input : Bytes} {log : Log} {file : ClassFile} (h : ((parse input).run.run log).1 = .ok file) :
    ∃ consumed rest, input = consumed ++ rest ∧ read input = .ok (file, rest) ∧
      (∀ n < consumed.length, Gives (parse (consumed.take n)).run (.error .endOfInput)) ∧
      ∀ more, Returns (parse (consumed ++ more)) file ∧ read (consumed ++ more) = .ok (file, more) := by
  obtain ⟨rest, hread⟩ := parse_eq_ok_iff.1 h
  obtain ⟨consumed, rfl, htaken⟩ := findsEnd_read _ _ _ hread
  refine ⟨consumed, rest, rfl, hread, fun n hn log => ?_, fun more => ⟨fun log => ?_, htaken.onward more⟩⟩
  · have hbroken := htaken.broken (consumed.take n) (consumed.drop n) (List.take_append_drop n consumed).symm
      (by simpa using hn)
    rw [parse, hbroken]
    rfl
  · exact parse_eq_ok_iff.2 ⟨more, htaken.onward more⟩

/-- A class whose pool passes the count that it declares: it breaks off within its last entry, and it ends where its
bytes do. -/
theorem parse_findsEnd_wideEntry :
    ((parse wideEntryBytes).run.run #[]).1 = .ok wideEntryClass ∧
      Gives (parse (wideEntryBytes.take 18)).run (.error .endOfInput) ∧
      Returns (parse (wideEntryBytes ++ [5])) wideEntryClass := by
  have hread : read wideEntryBytes = .ok (wideEntryClass, []) := eq_ok_of_toOption (by decide +kernel)
  have hparse : ((parse wideEntryBytes).run.run #[]).1 = .ok wideEntryClass := parse_eq_ok_iff.2 ⟨[], hread⟩
  obtain ⟨consumed, rest, hinput, hread', hbroken, honward⟩ := parse_findsEnd hparse
  rw [hread] at hread'
  cases hread'
  obtain rfl : wideEntryBytes = consumed := by rw [hinput, List.append_nil]
  exact ⟨hparse, hbroken 18 (by decide), (honward [5]).1⟩

end ClassFile

end ClassGraft
