import ClassGraft.Proofs.Alignment.Matched
import ClassGraft.Proofs.Method.Parsing

/-!
# Drifted indices

Two patched methods that differ only in their access flags, in the indices of their names and descriptors, and in those
that name attributes paired with one of the base: alignment with the base leaves no difference between them but the
access flags (`align_drifted`).  The second of them is, level by level, the patched side of the pairs of the first with
other names (`Pair.Matched.exists_renamed`), and what alignment gives has the names of the base.
-/

namespace ClassGraft.Alignment

/-! ### Bytes that differ only where they may -/

/-- Bytes as long as others, and the same but for those that are free. -/
structure SameBut (free : List Bool) (first second : Bytes) : Prop where
  length : second.length = first.length
  kept : ∀ i : Nat, free[i]? = some false → second[i]? = first[i]?

instance (free : List Bool) (first second : Bytes) : Decidable (SameBut free first second) :=
  decidable_of_iff (second.length = first.length ∧ ∀ i < free.length, free[i]? = some false → second[i]? = first[i]?)
    ⟨fun h => ⟨h.1, fun i hi => h.2 i (List.getElem?_eq_some_iff.1 hi).1 hi⟩, fun h => ⟨h.length, fun i _ => h.kept i⟩⟩

namespace SameBut

variable {free free' : List Bool} {first first' second : Bytes}

/-- Bytes that are the same as two in a row are two in a row. -/
theorem exists_append (h : SameBut (free ++ free') (first ++ first') second) (hlength : free.length = first.length) :
    ∃ front back, second = front ++ back ∧ SameBut free first front ∧ SameBut free' first' back := by
  have htotal := h.length
  rw [List.length_append] at htotal
  refine ⟨second.take first.length, second.drop first.length, (List.take_append_drop _ _).symm, ⟨?_, ?_⟩, ⟨?_, ?_⟩⟩
  · rw [List.length_take]
    omega
  · intro i hi
    have hlt : i < free.length := (List.getElem?_eq_some_iff.1 hi).1
    have hsame := h.kept i (by rwa [List.getElem?_append_left hlt])
    rw [List.getElem?_append_left (by omega)] at hsame
    rw [List.getElem?_take_of_lt (by omega), hsame]
  · rw [List.length_drop]
    omega
  · intro i hi
    have hsame := h.kept (free.length + i) (by rwa [List.getElem?_append_right (by omega), Nat.add_sub_cancel_left])
    rw [hlength, List.getElem?_append_right (by omega), Nat.add_sub_cancel_left] at hsame
    rw [List.getElem?_drop, hsame]

/-- Bytes none of which is free are the same. -/
theorem eq_of_kept {n : Nat} (h : SameBut (List.replicate n false) first second) (hlength : first.length = n) :
    second = first := by
  refine List.ext_getElem? fun i => ?_
  by_cases hlt : i < n
  · exact h.kept i (by simp [hlt])
  · have hsecond := h.length
    rw [List.getElem?_eq_none (by omega), List.getElem?_eq_none (by omega)]

/-- In place of an index stands another one. -/
theorem exists_index {index : Index} (h : SameBut free (u16Bytes index) second) :
    ∃ index', second = u16Bytes index' := by
  have hlength := h.length
  rw [length_u16Bytes] at hlength
  obtain ⟨high, low, rfl⟩ := List.length_eq_two.1 hlength
  exact ⟨_, (u16Bytes_ofBigEndian high low).symm⟩

end SameBut

/-! ### The bytes that alignment puts right -/

namespace Pair

mutual

/-- Which bytes of the patched attribute are those of an index that names a paired attribute. -/
def naming : Pair → List Bool
  | .raw _ info => .replicate 2 true ++ .replicate (4 + (info .patched).length) false
  | .code _ body _ nested tail =>
    .replicate 2 true ++ (.replicate (4 + ((body .patched).bytes.length + 2)) false ++
      (namingOfAll nested ++ .replicate (tail .patched).length false))

/-- Which bytes of the patched attributes, one after the other, are those of an index that names a paired one. -/
def namingOfAll : List Pair → List Bool
  | [] => []
  | first :: rest => naming first ++ namingOfAll rest

end

mutual

theorem length_naming : (pair : Pair) → pair.naming.length = (pair.bytes .patched .patched).length
  | .raw _ info => by
    rw [naming, bytes, Attribute.length_bytes, Pair.info]
    simp
    omega
  | .code _ body _ nested tail => by
    rw [naming, bytes, Attribute.length_bytes, Pair.info]
    simp [length_namingOfAll nested, length_u16Bytes]
    omega

theorem length_namingOfAll :
    (pairs : List Pair) → (namingOfAll pairs).length = (bytesOfAll .patched .patched pairs).length
  | [] => rfl
  | first :: rest => by
    rw [namingOfAll, bytesOfAll, List.length_append, List.length_append, length_naming first, length_namingOfAll rest]
    rfl

end

end Pair

/-- Which bytes of the patched method are its access flags, the indices of its name and its descriptor, or those of an
index that names a paired attribute. -/
def MethodPair.naming (method : MethodPair) : List Bool :=
  .replicate 6 true ++ (.replicate 2 false ++
    (Pair.namingOfAll method.attributes ++ .replicate (method.tail .patched).length false))

/-- The first patched method fits together with the base, and the second differs from it only in its access flags and in
indices that alignment copies from the base. -/
def Drifted (pool : Pool) (base first second : Bytes) : Prop :=
  ∃ method : MethodPair, method.Matched pool ∧ base = method.bytes .base .base ∧
    first = method.bytes .patched .patched ∧ SameBut method.naming first second

/-! ### The pairs of the other patched method -/

variable {pool : Pool}

/-- Whatever indices the patched side has in place of the names, some pair has them, which is the same with the names of
the base. -/
def Renames (pool : Pool) (pair : Pair) : Prop :=
  ∀ second, SameBut pair.naming (pair.bytes .patched .patched) second →
    ∃ renamed : Pair, renamed.Matched pool ∧ second = renamed.bytes .patched .patched ∧
      ∀ contents, renamed.bytes .base contents = pair.bytes .base contents

private theorem renames_all {pairs : List Pair} (h : ∀ pair ∈ pairs, Renames pool pair) {second : Bytes}
    (hsecond : SameBut (Pair.namingOfAll pairs) (Pair.bytesOfAll .patched .patched pairs) second) :
    ∃ renamed : List Pair, renamed.length = pairs.length ∧ (∀ pair ∈ renamed, pair.Matched pool) ∧
      second = Pair.bytesOfAll .patched .patched renamed ∧
      ∀ contents, Pair.bytesOfAll .base contents renamed = Pair.bytesOfAll .base contents pairs := by
  induction pairs generalizing second with
  | nil =>
    refine ⟨[], rfl, fun pair hmem => (by cases hmem), ?_, fun _ => rfl⟩
    exact List.eq_nil_of_length_eq_zero hsecond.length
  | cons first rest ih =>
    rw [Pair.namingOfAll, Pair.bytesOfAll] at hsecond
    obtain ⟨front, back, rfl, hfront, hback⟩ := hsecond.exists_append (Pair.length_naming first)
    obtain ⟨renamed, hmatched, rfl, hbase⟩ := h first List.mem_cons_self front hfront
    obtain ⟨others, hlength, hothers, rfl, hothersBase⟩ :=
      ih (fun pair hmem => h pair (List.mem_cons_of_mem _ hmem)) hback
    refine ⟨renamed :: others, by rw [List.length_cons, hlength, List.length_cons],
      List.forall_mem_cons.2 ⟨hmatched, hothers⟩, rfl, fun contents => ?_⟩
    rw [Pair.bytesOfAll, Pair.bytesOfAll, hothersBase contents]
    exact congrArg (· ++ _) (hbase contents)

private theorem Pair.bytes_code {name : Side → Index} {body : Side → CodeBody} {count : Side → UInt16}
    {nested : List Pair} {tail : Side → Bytes} (names contents : Side) :
    Pair.bytes names contents (.code name body count nested tail) =
      u16Bytes (name names) ++
        (bigEndian 4 (Pair.info names contents (.code name body count nested tail)).length ++
          ((body contents).bytes ++ u16Bytes (count contents)) ++
            (Pair.bytesOfAll names contents nested ++ tail contents)) := by
  simp [Pair.bytes, Attribute.bytes, Pair.name, Pair.info]

/-- A pair that fits together has its names replaced level by level. -/
theorem renames_of_matched {pair : Pair} (h : pair.Matched pool) : Renames pool pair := by
  induction h with
  | @raw name info text hname hne hfits =>
    intro second hsecond
    rw [Pair.naming, Pair.bytes, Attribute.bytes, List.append_assoc] at hsecond
    obtain ⟨index, rest, rfl, hindex, hrest⟩ := hsecond.exists_append (by rw [length_u16Bytes]; rfl)
    obtain ⟨index, rfl⟩ := hindex.exists_index
    obtain rfl := hrest.eq_of_kept (by rw [List.length_append, length_bigEndian]; rfl)
    refine ⟨.raw (sides index (name .base)) info, .raw hname hne hfits, ?_, fun contents => rfl⟩
    rw [Pair.bytes, Attribute.bytes, List.append_assoc]
    rfl
  | @code name body count nested tail hname hbody hcount hnested hfits ih =>
    intro second hsecond
    rw [Pair.naming, Pair.bytes_code] at hsecond
    obtain ⟨index, rest, rfl, hindex, hrest⟩ := hsecond.exists_append (by rw [length_u16Bytes]; rfl)
    -- The length, the body and the number of nested attributes are the same again, and so is what follows these.
    obtain ⟨start, rest, rfl, hstart, hrest⟩ := hrest.exists_append (by simp [length_bigEndian, length_u16Bytes])
    obtain ⟨inside, left, rfl, hinside, hleft⟩ := hrest.exists_append (Pair.length_namingOfAll nested)
    obtain ⟨index, rfl⟩ := hindex.exists_index
    obtain rfl := hstart.eq_of_kept (by simp [length_bigEndian, length_u16Bytes])
    obtain rfl := hleft.eq_of_kept rfl
    obtain ⟨renamed, hnumber, hmatched, rfl, hbase⟩ := renames_all ih hinside
    have hinfo : ∀ contents, Pair.info .base contents (.code (sides index (name .base)) body count renamed tail) =
        Pair.info .base contents (.code name body count nested tail) := by
      intro contents
      rw [Pair.info, Pair.info, hbase contents]
    -- With its own names a side is as long as with those of the base.
    have hlength : ∀ side, (Pair.info side side (.code (sides index (name .base)) body count renamed tail)).length =
        (Pair.info side side (.code name body count nested tail)).length := by
      intro side
      rw [Pair.length_info side .base side, hinfo side, Pair.length_info .base side side]
    refine ⟨.code (sides index (name .base)) body count renamed tail,
      .code hname hbody (hnumber.trans hcount) hmatched fun side => ?_, ?_, fun contents => ?_⟩
    · rw [hlength side]
      exact hfits side
    · rw [Pair.bytes_code, hlength .patched]
      rfl
    · rw [Pair.bytes, Pair.bytes, hinfo contents]
      rfl

/-- A patched method that differs from one that fits together with a base only where alignment puts it right fits
together with the same base, in pairs that are the same with the names of the base. -/
private theorem MethodPair.Matched.exists_renamed {method : MethodPair} (h : method.Matched pool) {second : Bytes}
    (hsecond : SameBut method.naming (method.bytes .patched .patched) second) :
    ∃ renamed : MethodPair, renamed.Matched pool ∧ second = renamed.bytes .patched .patched ∧
      renamed.bytes .base .base = method.bytes .base .base ∧ renamed.name .base = method.name .base ∧
      renamed.descriptor .base = method.descriptor .base ∧ renamed.count = method.count ∧
      Pair.bytesOfAll .base .patched renamed.attributes = Pair.bytesOfAll .base .patched method.attributes ∧
      renamed.tail = method.tail := by
  have hsix : List.replicate 6 true = .replicate 2 true ++ (.replicate 2 true ++ .replicate 2 true) := rfl
  rw [MethodPair.naming, MethodPair.bytes, hsix] at hsecond
  simp only [List.append_assoc] at hsecond
  obtain ⟨flags, rest, rfl, hflags, hrest⟩ := hsecond.exists_append (by rw [length_u16Bytes]; rfl)
  obtain ⟨name, rest, rfl, hname, hrest⟩ := hrest.exists_append (by rw [length_u16Bytes]; rfl)
  obtain ⟨descriptor, rest, rfl, hdescriptor, hrest⟩ := hrest.exists_append (by rw [length_u16Bytes]; rfl)
  obtain ⟨count, rest, rfl, hcount, hrest⟩ := hrest.exists_append (by rw [length_u16Bytes]; rfl)
  obtain ⟨inside, left, rfl, hinside, hleft⟩ := hrest.exists_append (Pair.length_namingOfAll method.attributes)
  obtain ⟨flags, rfl⟩ := hflags.exists_index
  obtain ⟨name, rfl⟩ := hname.exists_index
  obtain ⟨descriptor, rfl⟩ := hdescriptor.exists_index
  obtain rfl := hcount.eq_of_kept (length_u16Bytes _)
  obtain rfl := hleft.eq_of_kept rfl
  obtain ⟨attributes, hnumber, hmatched, rfl, hbase⟩ :=
    renames_all (fun pair hmem => renames_of_matched (h.attributes pair hmem)) hinside
  refine ⟨⟨sides flags (method.accessFlags .base), sides name (method.name .base),
    sides descriptor (method.descriptor .base), method.count, attributes, method.tail⟩,
    ⟨hnumber.trans h.count, hmatched⟩, ?_, ?_, rfl, rfl, rfl, hbase .patched, rfl⟩
  · simp [MethodPair.bytes, sides]
  · simp [MethodPair.bytes, sides, hbase .base]

/-- Two methods that have drifted apart are aligned to methods that differ only in their access flags. -/
theorem align_drifted {base first second : Bytes} (h : Drifted pool base first second) :
    ∃ (aligned aligned' rest : Bytes) (header : ParsedMethod.Header) (flags : UInt16),
      (∀ log, ((align pool first base).run log).1.2 = aligned) ∧
      (∀ log, ((align pool second base).run log).1.2 = aligned') ∧
      ParsedMethod.readHeader aligned = .ok (header, rest) ∧
      ParsedMethod.readHeader aligned' = .ok ({ header with accessFlags := flags }, rest) := by
  obtain ⟨method, hmatched, rfl, rfl, hsecond⟩ := h
  obtain ⟨renamed, hrenamed, rfl, hbase, hname, hdescriptor, hcount, hattributes, htail⟩ :=
    hmatched.exists_renamed hsecond
  refine ⟨method.bytes .base .patched, renamed.bytes .base .patched,
    Pair.bytesOfAll .base .patched method.attributes ++ method.tail .patched,
    ⟨method.accessFlags .patched, method.name .base, method.descriptor .base, (method.count .patched).toNat⟩,
    renamed.accessFlags .patched, fun log => ?_, fun log => ?_, ?_, ?_⟩
  · obtain ⟨log', halign⟩ := align_matched hmatched log
    rw [halign]
  · obtain ⟨log', halign⟩ := align_matched hrenamed log
    rw [← hbase, halign]
  · refine ParsedMethod.readHeader_eq_ok_iff.2 ⟨method.count .patched, rfl, ?_⟩
    simp [MethodPair.bytes]
  · refine ParsedMethod.readHeader_eq_ok_iff.2 ⟨method.count .patched, rfl, ?_⟩
    simp [MethodPair.bytes, hname, hdescriptor, hcount, hattributes, htail]

end ClassGraft.Alignment
