import KhCommon.Lib.Rounding
import KhCommon.Utilities
import Mathlib.Data.Nat.Digits.Lemmas

/-! The integer codec of `kh_common.utilities`. The bytes of a number are its digits to
base 256, the highest first, so no zero leads them, and every byte string that no zero
leads is that of a number. How many there are goes through a float, which is exact as
long as the bit length fits its significand. -/

namespace KhCommon

open Binary

/-- `integer.to_bytes(length, 'big')`; none is its `OverflowError`. -/
def toBytes? (length integer : ℕ) : Option Bytes :=
  if integer < 256 ^ length then some (toBytes length integer) else none

/-- `int_to_bytes` with the float that `/` comes to; none is an `OverflowError`. -/
def intToBytes? (integer : ℕ) : Option Bytes :=
  (binary64.div integer.size 8).bind fun quotient => toBytes? ⌈quotient⌉₊ integer

def Minimal (bytestring : Bytes) : Prop := bytestring.head? ≠ some 0

/-! ## Digits -/

theorem two_pow_eight : 2 ^ 8 = 256 := rfl

theorem byteLength_eq_length_digits (integer : ℕ) :
    (integer.size + 7) / 8 = (Nat.digits 256 integer).length := by
  refine eq_of_forall_ge_iff fun length => ?_
  have bits : (integer.size + 7) / 8 ≤ length ↔ integer.size ≤ 8 * length := by omega
  rw [bits, Nat.size_le, Nat.digits_length_le_iff (by decide), pow_mul, two_pow_eight]

theorem toBytes_length_digits (integer : ℕ) :
    toBytes (Nat.digits 256 integer).length integer =
      ((Nat.digits 256 integer).map UInt8.ofNat).reverse := by
  induction integer using Nat.strong_induction_on with
  | _ integer ih =>
    rcases Nat.eq_zero_or_pos integer with rfl | pos
    · rfl
    · have low : UInt8.ofNat integer = UInt8.ofNat (integer % 256) :=
        UInt8.toNat_inj.mp (by simp)
      rw [Nat.digits_def' (by decide) pos, List.length_cons, toBytes, List.map_cons,
        List.reverse_cons, ih _ (Nat.div_lt_self pos (by decide)), low]

theorem intToBytes_eq_digits (integer : ℕ) :
    intToBytes integer = ((Nat.digits 256 integer).map UInt8.ofNat).reverse := by
  rw [intToBytes, byteLength_eq_length_digits, toBytes_length_digits]

theorem intFromBytes_eq_ofDigits (bytestring : Bytes) :
    intFromBytes bytestring = Nat.ofDigits 256 (bytestring.reverse.map UInt8.toNat) := by
  rw [Nat.ofDigits_eq_foldr, List.foldr_map, List.foldr_reverse, intFromBytes]
  congr 1
  funext n b
  simp [Nat.add_comm, Nat.mul_comm]

theorem digits_intToBytes (integer : ℕ) :
    (intToBytes integer).reverse.map UInt8.toNat = Nat.digits 256 integer := by
  rw [intToBytes_eq_digits, List.reverse_reverse, List.map_map]
  refine (List.map_congr_left fun digit mem => ?_).trans (List.map_id _)
  exact UInt8.toNat_ofNat_of_lt (Nat.digits_lt_base (by decide) mem)

theorem minimal_iff (bytestring : Bytes) :
    Minimal bytestring ↔ (bytestring.reverse.map UInt8.toNat).getLast? ≠ some 0 := by
  rw [Minimal, List.getLast?_map, List.getLast?_reverse]
  cases bytestring.head? <;> simp [← UInt8.toNat_inj]

/-! ## The bijection -/

theorem intToBytes_eq_nil_iff (integer : ℕ) : intToBytes integer = [] ↔ integer = 0 := by
  rw [intToBytes_eq_digits, List.reverse_eq_nil_iff, List.map_eq_nil_iff,
    Nat.digits_eq_nil_iff_eq_zero]

theorem minimal_intToBytes (integer : ℕ) : Minimal (intToBytes integer) := by
  rw [minimal_iff, digits_intToBytes]
  by_cases zero : integer = 0
  · simp [zero]
  · rw [List.getLast?_eq_some_getLast (Nat.digits_ne_nil_iff_ne_zero.mpr zero), ne_eq,
      Option.some.injEq]
    exact Nat.getLast_digit_ne_zero 256 zero

theorem intToBytes_intFromBytes {bytestring : Bytes} (minimal : Minimal bytestring) :
    intToBytes (intFromBytes bytestring) = bytestring := by
  have digits : Nat.digits 256 (intFromBytes bytestring) =
      bytestring.reverse.map UInt8.toNat := by
    rw [intFromBytes_eq_ofDigits]
    refine Nat.digits_ofDigits 256 (by decide) _ (fun digit mem => ?_) fun nonempty zero => ?_
    · obtain ⟨b, -, rfl⟩ := List.mem_map.mp mem
      exact b.toNat_lt
    · refine (minimal_iff bytestring).mp minimal ?_
      rw [List.getLast?_eq_some_getLast nonempty, zero]
  have bytes : UInt8.ofNat ∘ UInt8.toNat = id := by
    funext b
    simp
  rw [intToBytes_eq_digits, digits, List.map_map, bytes, List.map_id, List.reverse_reverse]

/-! ## The float -/

theorem div_eight {bits : ℕ} (fits : bits < 2 ^ 53) :
    binary64.div bits 8 = some ((bits : ℚ) / 8) := by
  refine Format.round_of_representable ⟨⟨bits, -3, ?_, ?_, by decide⟩, ?_⟩
  · norm_num [div_eq_mul_inv]
  · rw [abs_of_nonneg (Int.natCast_nonneg bits)]
    exact_mod_cast fits
  · have positive : (0 : ℚ) ≤ bits := Nat.cast_nonneg bits
    calc |((bits : ℤ) : ℚ) / (8 : ℤ)| = bits / 8 := by
          rw [Int.cast_natCast, abs_of_nonneg (div_nonneg positive (by norm_num))]
          rfl
      _ ≤ bits := div_le_self positive (by norm_num)
      _ < 2 ^ (53 : ℤ) := by exact_mod_cast fits
      _ ≤ 2 ^ binary64.limit := zpow_le_zpow_right₀ one_le_two (by decide)

theorem natCeil_div_eight (bits : ℕ) : ⌈(bits : ℚ) / 8⌉₊ = (bits + 7) / 8 := by
  refine eq_of_forall_ge_iff fun length => ?_
  have whole : (bits : ℚ) ≤ length * 8 ↔ bits ≤ length * 8 := by exact_mod_cast Iff.rfl
  rw [Nat.ceil_le, div_le_iff₀ (by norm_num), whole]
  omega

theorem intToBytes?_eq {integer : ℕ} (fits : integer.size < 2 ^ 53) :
    intToBytes? integer = some (intToBytes integer) := by
  rw [intToBytes?, div_eight fits, Option.bind_some, natCeil_div_eight, toBytes?,
    if_pos (intToBytes_fits integer), intToBytes]

theorem toBytes?_eq_none {length integer : ℕ} (short : 8 * length < integer.size) :
    toBytes? length integer = none := by
  have large : 256 ^ length ≤ integer := by
    rw [← two_pow_eight, ← pow_mul]
    exact Nat.lt_size.mp short
  rw [toBytes?, if_neg large.not_gt]

/-- The significand has no place for a bit length of `2 ^ 53 + 1`: its last bit is rounded off, and
the bytes are one too few. -/
theorem intToBytes?_eq_none {integer : ℕ} (bits : integer.size = 2 ^ 53 + 1) :
    intToBytes? integer = none := by
  have rounded : binary64.div (2 ^ 53 + 1 : ℕ) 8 = some ((2 ^ 50 : ℕ) : ℚ) := by decide +kernel
  rw [intToBytes?, bits, rounded, Option.bind_some, Nat.ceil_natCast]
  exact toBytes?_eq_none (by rw [bits]; norm_num)

/-- `int_to_bytes` and `int_from_bytes` are inverse to each other between the natural numbers and
the byte strings that no zero leads, where 0 has the empty one; and the float is exact as long as
the bit length is below `2 ^ 53`. -/
theorem intCodec_bijective :
    (∀ integer, intFromBytes (intToBytes integer) = integer ∧ Minimal (intToBytes integer) ∧
      (intToBytes integer = [] ↔ integer = 0)) ∧
    (∀ bytestring, Minimal bytestring → intToBytes (intFromBytes bytestring) = bytestring) ∧
    ∀ integer, integer.size < 2 ^ 53 →
      binary64.div integer.size 8 = some ((integer.size : ℚ) / 8) ∧
        intToBytes? integer = some (intToBytes integer) := by
  refine ⟨fun integer => ?_, fun bytestring => intToBytes_intFromBytes, fun integer fits => ?_⟩
  · exact ⟨intFromBytes_intToBytes integer, minimal_intToBytes integer,
      intToBytes_eq_nil_iff integer⟩
  · exact ⟨div_eight fits, intToBytes?_eq fits⟩

end KhCommon
