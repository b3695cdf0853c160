import ClassGraft.Proofs.Frames
import ClassGraft.Proofs.Patch.Frame

/-!
# What is let through

When the frames are left alone, the check of a class is all that stands between a patch and its output.  It goes through
every attribute of every method, and is passed exactly by the classes that need no frames, or may have stale ones, and
whose code arrays are made up of instructions (`FrameRecomputer.eq_ok_unchanged_iff`).  So whatever has been put into a
class, the bytes that come out can be parsed and their code can be walked to its end (`unchanged_lets_through`).
-/

namespace ClassGraft

variable {allowStale : Bool} {bytes result : Bytes} {log : Log}

/-- Each code attribute in the methods of a class can be parsed as code, and instructions make up its code array. -/
def ClassFile.HasTiledCode (file : ClassFile) : Prop :=
  ∀ method ∈ file.methods, ∀ entry ∈ method.attributes, file.pool.text entry.nameIndex = .ok codeName →
    ∃ code, Returns (Code.parse entry.info) code ∧ Instruction.Tiled code.code

/-- Stale frames have to be allowed from the version on that needs them. -/
theorem Version.allowed_iff {version : Version} :
    (version.requiresFrames = true → allowStale = true) ↔ version.major ≤ 50 ∨ allowStale = true := by
  have hnone : ¬version.requiresFrames = true ↔ version.major ≤ 50 := by simp [requiresFrames]
  rw [imp_iff_not_or, hnone]

namespace FrameRecomputer

/-- The methods of a class are all let through when their code is made up of instructions. -/
theorem hasTiledCode_iff {file : ClassFile} :
    file.HasTiledCode ↔ ∀ method ∈ file.methods, Returns (checkMethod file.pool method) () := by
  refine forall₂_congr fun method _ => ?_
  rw [checkMethod, Returns.forM_iff (steady_checkAttribute file.pool method)]
  exact forall₂_congr fun entry _ => returns_checkAttribute_iff.symm

/-- Bytes that are let through can be parsed as a class. -/
theorem exists_parse_of_unchanged (h : ((unchanged allowStale bytes).run.run log).1 = .ok result) :
    ∃ file, Returns (ClassFile.parse bytes) file := by
  unfold unchanged at h
  rw [run_lift_bind] at h
  cases hparse : ((ClassFile.parse bytes).run.run log).1 with
  | error error =>
    rw [hparse] at h
    cases h
  | ok file => exact ⟨file, (ClassFile.steady_parse bytes).gives hparse⟩

/-- Leaving the frames alone gives back the bytes of a class that needs none, or may have stale ones, and whose code is
made up of instructions; it gives nothing else. -/
theorem eq_ok_unchanged_iff :
    ((unchanged allowStale bytes).run.run log).1 = .ok result ↔
      result = bytes ∧ ∃ file, Returns (ClassFile.parse bytes) file ∧
        (file.version.major ≤ 50 ∨ allowStale = true) ∧ file.HasTiledCode := by
  constructor
  · intro h
    obtain rfl : result = bytes := givesBack_unchanged allowStale bytes log result h
    obtain ⟨file, hparse⟩ := exists_parse_of_unchanged h
    have hreturns := (deterministic_unchanged allowStale result).gives h
    obtain ⟨hallowed, hmethods⟩ := (returns_unchanged_iff hparse).1 hreturns
    exact ⟨rfl, file, hparse, Version.allowed_iff.1 hallowed, hasTiledCode_iff.2 hmethods⟩
  · rintro ⟨rfl, file, hparse, hallowed, htiled⟩
    exact (returns_unchanged_iff hparse).2 ⟨Version.allowed_iff.2 hallowed, hasTiledCode_iff.1 htiled⟩ log

end FrameRecomputer

/-- Leaving the frames alone lets through the classes that need none, or may have stale ones, and whose code is made up
of instructions, byte for byte and no others; what a patch gives with frames left alone is such a class. -/
theorem unchanged_lets_through (allowStale : Bool) :
    (∀ bytes log result, ((FrameRecomputer.unchanged allowStale bytes).run.run log).1 = .ok result ↔
      result = bytes ∧ ∃ file, Returns (ClassFile.parse bytes) file ∧
        (file.version.major ≤ 50 ∨ allowStale = true) ∧ file.HasTiledCode) ∧
    ∀ request log outcome, ((applyPatch (.unchanged allowStale) request).run.run log).1 = .ok outcome →
      ∃ file, Returns (ClassFile.parse outcome.bytes) file ∧ file.HasTiledCode := by
  refine ⟨fun bytes log result => FrameRecomputer.eq_ok_unchanged_iff, fun request log outcome h => ?_⟩
  obtain ⟨target, pool, change, log', -, -, hframes⟩ := patched_of_applyPatch h
  obtain ⟨hbytes, file, hparse, -, htiled⟩ := FrameRecomputer.eq_ok_unchanged_iff.1 hframes
  rw [← hbytes] at hparse
  exact ⟨file, hparse, htiled⟩

/-- A class is let through, and so is the class that a patch makes of it. -/
theorem unchanged_lets_through_waiting :
    ((FrameRecomputer.unchanged false returningClass.bytes).run.run #[]).1 = .ok returningClass.bytes ∧
      returningClass.HasTiledCode ∧
      ((applyPatch (.unchanged false) editingRequest).run.run #[]).1 = .ok ⟨waitingClass.bytes, ⟨"m", "()V", true⟩⟩ ∧
      ∃ file, Returns (ClassFile.parse waitingClass.bytes) file ∧ file.HasTiledCode := by
  obtain ⟨hchecked, hpatched⟩ := unchanged_lets_through false
  have hreturning : ((FrameRecomputer.unchanged false returningClass.bytes).run.run #[]).1 =
      .ok returningClass.bytes := eq_ok_of_toOption (by decide +kernel)
  obtain ⟨-, file, hparse, -, htiled⟩ := (hchecked _ _ _).1 hreturning
  obtain rfl := hparse.unique parse_returningClass
  exact ⟨hreturning, htiled, applyPatch_editingRequest, hpatched _ _ _ applyPatch_editingRequest⟩

end ClassGraft
