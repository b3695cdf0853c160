import ClassGraft.Proofs.Hex.Reading
import ClassGraft.Proofs.Running

/-!
# Hex text is read back

The digits of bytes are read back as these bytes, strictly and leniently (`Hex.returns_decode_encode`), since none of
them is blank.
-/

namespace ClassGraft.Hex

theorem significant_encode (bytes : Bytes) : significant (encode bytes) = bytes.flatMap encodeByte := by
  have hdigit : ∀ value < 16, isBlank (digitChar value) = false := by decide
  rw [significant, encode, String.toList_ofList, List.filter_eq_self]
  intro c hmem
  obtain ⟨byte, -, hc⟩ := List.mem_flatMap.1 hmem
  have hbyte : byte.toNat < 256 := byte.toNat_lt
  rcases List.mem_pair.1 hc with rfl | rfl
  · rw [hdigit _ (by omega)]
    rfl
  · rw [hdigit _ (by omega)]
    rfl

theorem decodeStrict_encode (bytes : Bytes) : decodeStrict (encode bytes) = .ok bytes := by
  rw [decodeStrict_eq_ok_iff, significant_encode, SameUpToCase, encode, String.toList_ofList]

/-- Written bytes are read back in either way. -/
theorem returns_decode_encode (reading : HexReading) (bytes : Bytes) :
    Returns (decode reading (encode bytes)) bytes := by
  cases reading with
  | lenient =>
    have hnoted : Gives (noteAll .warning (overlooked (encode bytes))) () := fun _ => rfl
    refine .lift_bind hnoted ?_
    rw [decodeLenient_of_strict (decodeStrict_encode bytes)]
    exact .pure _
  | strict =>
    intro log
    exact decodeStrict_encode bytes

end ClassGraft.Hex
