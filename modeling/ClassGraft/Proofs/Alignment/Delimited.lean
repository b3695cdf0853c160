import ClassGraft.Proofs.Alignment.Matched
import ClassGraft.Proofs.Method.Parsing
import Mathlib.Tactic.Choose

/-!
# Alignment of methods in bytes

What has to stand in the bytes of two methods for all of their attributes to be aligned: at every level, the attributes
to be aligned end inside what encloses them, the names of the base resolve, and where the base has code both sides can
be read as code up to the number of their nested attributes.  Such bytes are exactly those of two methods in pairs
(`delimitedMethod_iff`).
-/

namespace ClassGraft.Alignment

/-- The first `count` attributes of both sides end inside the bytes, and so do, where the base has code, the nested ones
that both sides have. -/
inductive Delimited (pool : Pool) : Nat → (Side → Bytes) → Prop
  | none {bytes : Side → Bytes} : Delimited pool 0 bytes
  | raw {count : Nat} {bytes rest : Side → Bytes} {entry : Side → Attribute} {text : String}
      (hread : ∀ side, Attribute.read (bytes side) = .ok (entry side, rest side))
      (hname : pool.text (entry .base).nameIndex = .ok text) (hne : text ≠ codeName)
      (hrest : Delimited pool count rest) : Delimited pool (count + 1) bytes
  | code {count : Nat} {bytes rest afterBody inner : Side → Bytes} {entry : Side → Attribute} {body : Side → CodeBody}
      {nested : Side → UInt16} (hread : ∀ side, Attribute.read (bytes side) = .ok (entry side, rest side))
      (hname : pool.text (entry .base).nameIndex = .ok codeName)
      (hbody : ∀ side, CodeBody.read (entry side).info = .ok (body side, afterBody side))
      (hcount : ∀ side, Reader.u16 (afterBody side) = .ok (nested side, inner side))
      (hnested : Delimited pool (min (nested .patched).toNat (nested .base).toNat) inner)
      (hrest : Delimited pool count rest) : Delimited pool (count + 1) bytes

/-- Both sides have a header, and the attributes that both have end inside the bytes after it. -/
def DelimitedMethod (pool : Pool) (bytes : Side → Bytes) : Prop :=
  ∃ (header : Side → ParsedMethod.Header) (rest : Side → Bytes),
    (∀ side, ParsedMethod.readHeader (bytes side) = .ok (header side, rest side)) ∧
      Delimited pool (min (header .patched).attributeCount (header .base).attributeCount) rest

variable {pool : Pool} {count : Nat} {bytes : Side → Bytes}

theorem Delimited.exists_pairs (h : Delimited pool count bytes) :
    ∃ (pairs : List Pair) (tail : Side → Bytes), pairs.length = count ∧ (∀ pair ∈ pairs, pair.Matched pool) ∧
      ∀ side, bytes side = Pair.bytesOfAll side side pairs ++ tail side := by
  induction h with
  | @none bytes => exact ⟨[], bytes, rfl, by simp, fun _ => rfl⟩
  | @raw count bytes rest entry text hread hname hne hrest ih =>
    obtain ⟨pairs, tail, rfl, hmatched, hbytes⟩ := ih
    have hentry : ∀ side, (entry side).Fits ∧ bytes side = (entry side).bytes ++ rest side :=
      fun side => (Attribute.inverts_read _ _ _).1 (hread side)
    refine ⟨.raw (fun side => (entry side).nameIndex) (fun side => (entry side).info) :: pairs, tail, rfl, ?_, ?_⟩
    · exact List.forall_mem_cons.2 ⟨.raw hname hne fun side => (hentry side).1, hmatched⟩
    · intro side
      rw [(hentry side).2, hbytes side, Pair.bytesOfAll, List.append_assoc]
      rfl
  | @code count bytes rest afterBody inner entry body nested hread hname hbody hcount hnested hrest ihnested ih =>
    obtain ⟨pairs, tail, rfl, hmatched, hbytes⟩ := ih
    obtain ⟨innerPairs, innerTail, hlength, hinnerMatched, hinner⟩ := ihnested
    have hentry : ∀ side, (entry side).Fits ∧ bytes side = (entry side).bytes ++ rest side :=
      fun side => (Attribute.inverts_read _ _ _).1 (hread side)
    have hcode : ∀ side, (body side).Fits ∧ (entry side).info = (body side).bytes ++ afterBody side :=
      fun side => (CodeBody.inverts_read _ _ _).1 (hbody side)
    have hnumber : ∀ side, afterBody side = u16Bytes (nested side) ++ inner side :=
      fun side => ((Reader.inverts_u16 _ _ _).1 (hcount side)).2
    have hinfo : ∀ side, Pair.info side side
        (.code (fun side => (entry side).nameIndex) body nested innerPairs innerTail) = (entry side).info := by
      intro side
      rw [Pair.info, (hcode side).2, hnumber side, hinner side]
      simp
    refine ⟨.code (fun side => (entry side).nameIndex) body nested innerPairs innerTail :: pairs, tail, rfl, ?_, ?_⟩
    · refine List.forall_mem_cons.2 ⟨.code hname (fun side => (hcode side).1) hlength hinnerMatched ?_, hmatched⟩
      intro side
      rw [hinfo side]
      exact (hentry side).1
    · intro side
      rw [(hentry side).2, hbytes side, Pair.bytesOfAll, List.append_assoc, hinfo side]
      rfl

/-- Attributes end inside the bytes when each of them may be put in front of others that do. -/
private theorem delimited_bytesOfAll {pairs : List Pair} (h : ∀ pair ∈ pairs, ∀ count rest, Delimited pool count rest →
    Delimited pool (count + 1) fun side => pair.bytes side side ++ rest side) (tail : Side → Bytes) :
    Delimited pool pairs.length fun side => Pair.bytesOfAll side side pairs ++ tail side := by
  induction pairs with
  | nil => exact .none
  | cons first rest ih =>
    have hrest := ih fun pair hpair => h pair (List.mem_cons_of_mem _ hpair)
    simp only [Pair.bytesOfAll, List.append_assoc]
    exact h first List.mem_cons_self _ _ hrest

private theorem Pair.read_bytes {pair : Pair} {side : Side} (h : (pair.info side side).length < 4294967296)
    (rest : Bytes) : Attribute.read (pair.bytes side side ++ rest) = .ok (⟨pair.name side, pair.info side side⟩, rest) :=
  (Attribute.inverts_read _ _ _).2 ⟨h, rfl⟩

private theorem Pair.Matched.delimited {pair : Pair} (h : pair.Matched pool) :
    ∀ count rest, Delimited pool count rest →
      Delimited pool (count + 1) fun side => pair.bytes side side ++ rest side := by
  induction h with
  | @raw name info text hname hne hfits =>
    intro count rest hrest
    exact .raw (fun side => @Pair.read_bytes (.raw name info) side (hfits side) (rest side)) hname hne hrest
  | @code name body number nested tail hname hbody hcount hnested hfits ih =>
    intro count rest hrest
    have hinner := delimited_bytesOfAll ih tail
    rw [hcount] at hinner
    have hread : ∀ side, CodeBody.read (Pair.info side side (.code name body number nested tail)) =
        .ok (body side, u16Bytes (number side) ++ (bytesOfAll side side nested ++ tail side)) := by
      intro side
      refine (CodeBody.inverts_read _ _ _).2 ⟨hbody side, ?_⟩
      simp [Pair.info]
    exact .code (fun side => Pair.read_bytes (hfits side) (rest side)) hname hread
      (fun side => (Reader.inverts_u16 _ _ _).2 ⟨trivial, rfl⟩) hinner hrest

/-- Bytes with attributes that end where they should are exactly those of methods in pairs. -/
theorem delimitedMethod_iff : DelimitedMethod pool bytes ↔
    ∃ method : MethodPair, method.Matched pool ∧ ∀ side, bytes side = method.bytes side side := by
  constructor
  · rintro ⟨header, rest, hheader, hattributes⟩
    obtain ⟨pairs, tail, hlength, hmatched, hrest⟩ := hattributes.exists_pairs
    choose count hcount hbytes using fun side => ParsedMethod.readHeader_eq_ok_iff.1 (hheader side)
    refine ⟨⟨fun side => (header side).accessFlags, fun side => (header side).nameIndex,
      fun side => (header side).descriptorIndex, count, pairs, tail⟩, ⟨?_, hmatched⟩, ?_⟩
    · rw [hlength, hcount, hcount]
    · intro side
      rw [hbytes side, hrest side]
      simp [MethodPair.bytes]
  · rintro ⟨method, ⟨hcount, hmatched⟩, hbytes⟩
    have hattributes := delimited_bytesOfAll (fun pair hpair => (hmatched pair hpair).delimited) method.tail
    rw [hcount] at hattributes
    refine ⟨fun side => ⟨method.accessFlags side, method.name side, method.descriptor side,
      (method.count side).toNat⟩, _, fun side => ?_, hattributes⟩
    refine ParsedMethod.readHeader_eq_ok_iff.2 ⟨method.count side, rfl, ?_⟩
    rw [hbytes side]
    simp [MethodPair.bytes]

/-- Aligning two methods whose attributes end where they should succeeds.  The two are methods in pairs, and the name,
the descriptor and the names of the pairs are copied from the base; all else of the patched method stays as it is. -/
theorem align_delimited (h : DelimitedMethod pool bytes) (log : Log) :
    ∃ method : MethodPair, method.Matched pool ∧ (∀ side, bytes side = method.bytes side side) ∧
      ∃ log', (align pool (bytes .patched) (bytes .base)).run log =
        ((.ok ⟨Pair.totalOf method.attributes + 2, method.differing, Pair.totalOf method.attributes⟩,
          method.bytes .base .patched), log') := by
  obtain ⟨method, hmatched, hbytes⟩ := delimitedMethod_iff.1 h
  refine ⟨method, hmatched, hbytes, ?_⟩
  rw [hbytes, hbytes]
  exact align_matched hmatched log

/-- A pool with the names of a method and its attributes. -/
def namesPool : Pool :=
  (((Pool.empty.push (.utf8 (.ofText "m"))).push (.utf8 (.ofText "()V"))).push (.utf8 (.ofText codeName))).push
    (.utf8 (.ofText "Deprecated"))

/-- Two methods with different instructions, handlers and numbers of attributes, and one pair of nested attributes. -/
def unequalMethod : MethodPair where
  accessFlags _ := 1
  name := sides 9 1
  descriptor _ := 2
  count := sides 1 2
  attributes :=
    [.code (sides 7 3) (sides ⟨1, 1, [0xB1], []⟩ ⟨0, 1, [0x00, 0xB1], [⟨0, 1, 1, 0⟩]⟩) (sides 1 2)
      [.raw (sides 3 4) (sides [1, 2] [])] (sides [] [0, 2, 0, 0, 0, 0])]
  tail := sides [] [0, 4, 0, 0, 0, 0]

private theorem unequalMethod_matched : unequalMethod.Matched namesPool := by
  refine ⟨by decide, fun pair hpair => ?_⟩
  rw [unequalMethod, List.mem_singleton] at hpair
  subst hpair
  refine .code (by decide +kernel) (fun side => ?_) (by decide) (fun pair hpair => ?_) (fun side => ?_)
  · cases side <;> exact ⟨by decide, by decide⟩
  · rw [List.mem_singleton] at hpair
    subst hpair
    refine @Pair.Matched.raw _ _ _ "Deprecated" (by decide +kernel) (by decide) fun side => ?_
    cases side <;> decide
  · cases side <;> decide

/-- Two methods are aligned although their codes and their numbers of attributes differ at both levels. -/
theorem align_delimited_unequalMethod :
    DelimitedMethod namesPool (fun side => unequalMethod.bytes side side) ∧
      ∃ method : MethodPair, method.Matched namesPool ∧
        (∀ side, unequalMethod.bytes side side = method.bytes side side) ∧
        ∃ log', (align namesPool (unequalMethod.bytes .patched .patched) (unequalMethod.bytes .base .base)).run #[] =
          ((.ok ⟨Pair.totalOf method.attributes + 2, method.differing, Pair.totalOf method.attributes⟩,
            method.bytes .base .patched), log') := by
  have hdelimited : DelimitedMethod namesPool fun side => unequalMethod.bytes side side :=
    delimitedMethod_iff.2 ⟨unequalMethod, unequalMethod_matched, fun _ => rfl⟩
  exact ⟨hdelimited, align_delimited hdelimited #[]⟩

end ClassGraft.Alignment
