import KhCommon.Crc
import KhCommon.Utilities

/-! What the checksum is good for. Two messages that differ within as many bits as
the checksum has never share it, when the polynomial is odd. And a message followed
by its own checksum has a checksum that depends on the parameters only. -/

namespace KhCommon

open ShiftRegister

theorem length_messageBits (value : List UInt8) :
    (messageBits value).length = 8 * value.length := by
  induction value with
  | nil => rfl
  | cons b value ih =>
    rw [messageBits, List.flatMap_cons, List.length_append, ← messageBits, ih, List.length_cons]
    simp [byteBits]
    omega

theorem messageBits_append (value value' : List UInt8) :
    messageBits (value ++ value') = messageBits value ++ messageBits value' :=
  List.flatMap_append

theorem byteBits_injective : Function.Injective byteBits := by
  intro b b' same
  apply UInt8.toNat_inj.mp
  apply Nat.eq_of_testBit_eq
  intro k
  by_cases hk : k < 8
  · have bit := congrArg (·[7 - k]?) same
    simpa [byteBits, show 7 - k < 8 by omega, show 7 - (7 - k) = k by omega] using bit
  · have beyond (n : UInt8) : n.toNat.testBit k = false :=
      Nat.testBit_lt_two_pow (n.toNat_lt.trans_le (Nat.pow_le_pow_right (by decide) (by omega)))
    rw [beyond, beyond]

theorem messageBits_injective : Function.Injective messageBits := by
  intro value value' same
  have lengths := congrArg List.length same
  rw [length_messageBits, length_messageBits] at lengths
  induction value generalizing value' with
  | nil =>
    rw [List.length_nil] at lengths
    exact (List.eq_nil_of_length_eq_zero (by omega)).symm
  | cons b value ih =>
    cases value' with
    | nil =>
      rw [List.length_cons, List.length_nil] at lengths
      omega
    | cons b' value' =>
      rw [List.length_cons, List.length_cons] at lengths
      obtain ⟨first, rest⟩ := List.append_inj same (by simp [byteBits])
      rw [byteBits_injective first, ih rest (by omega)]

/-! ## Burst errors -/

theorem getElem?_zipWith_xor {bits bits' : List Bool} (length : bits.length = bits'.length)
    (i : ℕ) : (List.zipWith xor bits bits')[i]? = some true ↔ bits[i]? ≠ bits'[i]? := by
  rw [List.getElem?_zipWith]
  by_cases inside : i < bits.length
  · rw [List.getElem?_eq_getElem inside, List.getElem?_eq_getElem (length ▸ inside)]
    simp
  · rw [List.getElem?_eq_none (not_lt.mp inside),
      List.getElem?_eq_none (length ▸ not_lt.mp inside)]
    simp

theorem bitwiseCRC_ne_of_burst {w : ℕ} {p : BitVec w} (odd : p.getLsbD 0 = true)
    (x out : BitVec w) {value value' : List UInt8} (length : value.length = value'.length)
    (other : value ≠ value') {k : ℕ}
    (burst : ∀ i, (messageBits value)[i]? ≠ (messageBits value')[i]? → k ≤ i ∧ i < k + w) :
    bitwiseCRC p x out value ≠ bitwiseCRC p x out value' := by
  have lengths : (messageBits value).length = (messageBits value').length := by
    rw [length_messageBits, length_messageBits, length]
  have differs : true ∈ List.zipWith xor (messageBits value) (messageBits value') := by
    by_contra none
    refine other (messageBits_injective (List.ext_getElem? fun i => ?_))
    by_contra differ
    exact none (List.mem_of_getElem? ((getElem?_zipWith_xor lengths i).mpr differ))
  have notEmpty := feeds_ne_zero_of_burst odd differs
    fun i hi => burst i ((getElem?_zipWith_xor lengths i).mp hi)
  intro same
  have registers : feeds p x (messageBits value) = feeds p x (messageBits value') :=
    (BitVec.xor_left_inj out).mp same
  have difference := feeds_xor p x x lengths
  rw [registers, BitVec.xor_self, BitVec.xor_self] at difference
  exact notEmpty difference

/-- An object with an odd polynomial gives different values for any two byte strings of one length
whose differing bits lie within a window of its width. -/
theorem crc_detects_burst {w : ℕ} (hw : 0 < w) (h8 : 8 ∣ w) {polynomial : ℕ}
    (odd : Odd polynomial) (initValue xorOut : Option ℕ) (hinit : ∀ v ∈ initValue, v < 2 ^ w)
    (hxor : ∀ v ∈ xorOut, v < 2 ^ w) :
    ∃ crc, CRC.init w polynomial initValue xorOut = .ok crc ∧
      ∀ value value' : List UInt8, value.length = value'.length → value ≠ value' →
        (∃ k, ∀ i, (messageBits value)[i]? ≠ (messageBits value')[i]? → k ≤ i ∧ i < k + w) →
          crc.call value ≠ crc.call value' := by
  obtain ⟨crc, built, same⟩ := CRC.init_call hw h8 polynomial initValue xorOut hinit hxor
  have lowest : (BitVec.ofNat w polynomial).getLsbD 0 = true := by
    rw [BitVec.getLsbD_ofNat, Nat.testBit_zero]
    simp [hw, Nat.odd_iff.mp odd]
  refine ⟨crc, built, fun value value' length other burst => ?_⟩
  obtain ⟨k, burst⟩ := burst
  rw [same, same]
  exact fun equal =>
    bitwiseCRC_ne_of_burst lowest _ _ length other burst (BitVec.eq_of_toNat_eq equal)

theorem crc_detects_burst_eight : ∃ crc, CRC.init 8 0x07 none none = .ok crc ∧
    crc.call [0x81] ≠ crc.call [0x00] := by
  have odd : Odd 0x07 := by decide
  obtain ⟨crc, built, detects⟩ := crc_detects_burst (w := 8) (by decide) (by decide) odd none none
    (by decide) (by decide)
  refine ⟨crc, built, detects [0x81] [0x00] rfl (by decide) ⟨0, fun i differ => ⟨i.zero_le, ?_⟩⟩⟩
  by_contra beyond
  exact differ (by simp [messageBits, byteBits, not_lt.mp beyond])

/-! ## The residue -/

theorem messageBits_toBytes (length integer : ℕ) :
    messageBits (toBytes length integer) =
      (List.range (8 * length)).map fun i => integer.testBit (8 * length - 1 - i) := by
  induction length generalizing integer with
  | zero => rfl
  | succ length ih =>
    have low : messageBits [UInt8.ofNat integer] =
        (List.range 8).map fun k => integer.testBit (7 - k) := by
      show byteBits _ ++ [] = _
      rw [List.append_nil, byteBits]
      refine List.map_congr_left fun k _ => ?_
      rw [UInt8.toNat_ofNat', Nat.testBit_mod_two_pow]
      simp [show 7 - k < 8 by omega]
    have quotient (i : ℕ) : (integer / 256).testBit i = integer.testBit (i + 8) :=
      Nat.testBit_div_two_pow (n := 8) integer i
    rw [toBytes, messageBits_append, ih, low, Nat.mul_succ, List.range_add, List.map_append,
      List.map_map]
    congr 1
    · refine List.map_congr_left fun i hi => ?_
      rw [List.mem_range] at hi
      rw [quotient, show 8 * length - 1 - i + 8 = 8 * length + 8 - 1 - i by omega]
    · refine List.map_congr_left fun k _ => ?_
      rw [Function.comp_apply, show 8 * length + 8 - 1 - (8 * length + k) = 7 - k by omega]

theorem load_toBytes {w : ℕ} (h8 : 8 ∣ w) (x : BitVec w) :
    load w (messageBits (toBytes (w / 8) x.toNat)) = x := by
  apply BitVec.eq_of_getLsbD_eq
  intro i hi
  rw [getLsbD_load, messageBits_toBytes, Nat.mul_div_cancel' h8,
    List.getD_eq_getElem _ _ (by simp; omega), List.getElem_map, List.getElem_range,
    show w - 1 - (w - 1 - i) = i by omega]
  simp [hi, BitVec.getLsbD]

theorem bitwiseCRC_append_self {w : ℕ} (h8 : 8 ∣ w) (p x out : BitVec w) (value : List UInt8) :
    bitwiseCRC p x out (value ++ toBytes (w / 8) (bitwiseCRC p x out value).toNat) =
      shifts p w out ^^^ out := by
  have width : (messageBits (toBytes (w / 8) (bitwiseCRC p x out value).toNat)).length = w := by
    rw [messageBits_toBytes, List.length_map, List.length_range, Nat.mul_div_cancel' h8]
  rw [bitwiseCRC, messageBits_append, feeds_append, feeds_eq_shifts _ _ _ width.le, width,
    load_toBytes h8, bitwiseCRC, ← BitVec.xor_assoc, BitVec.xor_self, BitVec.zero_xor]

/-- Every byte string followed by its own checksum, big-endian, has one and the same checksum. -/
theorem crc_residue {w : ℕ} (hw : 0 < w) (h8 : 8 ∣ w) (polynomial : ℕ)
    (initValue xorOut : Option ℕ) (hinit : ∀ v ∈ initValue, v < 2 ^ w)
    (hxor : ∀ v ∈ xorOut, v < 2 ^ w) :
    ∃ crc, CRC.init w polynomial initValue xorOut = .ok crc ∧ ∀ value value' : List UInt8,
      crc.call (value ++ toBytes (w / 8) (crc.call value)) =
        crc.call (value' ++ toBytes (w / 8) (crc.call value')) := by
  obtain ⟨crc, built, same⟩ := CRC.init_call hw h8 polynomial initValue xorOut hinit hxor
  refine ⟨crc, built, fun value value' => ?_⟩
  rw [same value, same value', same, same, bitwiseCRC_append_self h8, bitwiseCRC_append_self h8]

theorem crc_residue_eight : ∃ crc, CRC.init 8 0x07 none none = .ok crc ∧
    crc.call ([0x31] ++ toBytes 1 (crc.call [0x31])) =
      crc.call ([] ++ toBytes 1 (crc.call [])) := by
  obtain ⟨crc, built, residue⟩ := crc_residue (w := 8) (by decide) (by decide) 0x07 none none
    (by decide) (by decide)
  exact ⟨crc, built, residue [0x31] []⟩

end KhCommon
