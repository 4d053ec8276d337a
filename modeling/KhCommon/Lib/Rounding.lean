import Mathlib.Algebra.Ring.Int.Parity
import Mathlib.Data.Int.Log
import Mathlib.Data.Rat.Floor

/-! Rounding of rationals to a binary floating-point format: to the nearest number
with a significand of so many bits, of two to the one with the even significand. A
result that is too large is none. What the format has a number for is left as it is. -/

namespace Binary

/-- The bits of a significand, the exponent of the last place of the smallest numbers, and the
power of two that every number is below. -/
structure Format where
  precision : ℕ
  minExponent : ℤ
  limit : ℤ

def binary64 : Format := ⟨53, -1074, 1024⟩

def nearestEven (x : ℚ) : ℤ :=
  if Int.fract x < 1 / 2 ∨ Int.fract x = 1 / 2 ∧ Even ⌊x⌋ then ⌊x⌋ else ⌊x⌋ + 1

@[simp]
theorem nearestEven_intCast (m : ℤ) : nearestEven m = m := by
  simp [nearestEven]

variable (f : Format)

def Format.exponent (x : ℚ) : ℤ := max (Int.log 2 |x| + 1 - f.precision) f.minExponent

def Format.round (x : ℚ) : Option ℚ :=
  let rounded : ℚ := nearestEven (x / 2 ^ f.exponent x) * 2 ^ f.exponent x
  if |rounded| < 2 ^ f.limit then some rounded else none

def Format.div (a b : ℤ) : Option ℚ := f.round (a / b)

structure Format.Representable (x : ℚ) : Prop where
  scaled : ∃ m e : ℤ, x = m * 2 ^ e ∧ |m| < 2 ^ f.precision ∧ f.minExponent ≤ e
  small : |x| < 2 ^ f.limit

variable {f} {x : ℚ}

theorem two_zpow_pos (e : ℤ) : (0 : ℚ) < 2 ^ e := zpow_pos two_pos e

theorem Format.exponent_le {m e : ℤ} (nonzero : x ≠ 0) (scaled : x = m * 2 ^ e)
    (bits : |m| < 2 ^ f.precision) (least : f.minExponent ≤ e) : f.exponent x ≤ e := by
  have magnitude : |x| < (2 : ℚ) ^ (f.precision + e) := by
    calc |x| = |(m : ℚ)| * 2 ^ e := by rw [scaled, abs_mul, abs_of_pos (two_zpow_pos e)]
      _ < 2 ^ f.precision * 2 ^ e := by
        refine mul_lt_mul_of_pos_right ?_ (two_zpow_pos e)
        exact_mod_cast bits
      _ = 2 ^ (f.precision + e) := by rw [zpow_add₀ two_ne_zero, zpow_natCast]
  have log : Int.log 2 |x| < f.precision + e :=
    (Int.lt_zpow_iff_log_lt one_lt_two (abs_pos.mpr nonzero)).mp (by exact_mod_cast magnitude)
  refine max_le ?_ least
  omega

theorem Format.round_of_representable (h : f.Representable x) : f.round x = some x := by
  by_cases zero : x = 0
  · have rounded : nearestEven 0 = 0 := nearestEven_intCast 0
    simp [round, zero, rounded, two_zpow_pos]
  · obtain ⟨m, e, scaled, bits, least⟩ := h.scaled
    obtain ⟨k, higher⟩ := Int.eq_ofNat_of_zero_le
      (Int.sub_nonneg_of_le (exponent_le zero scaled bits least))
    have unit := (two_zpow_pos (f.exponent x)).ne'
    have integer : x / 2 ^ f.exponent x = (m * 2 ^ k : ℤ) := by
      rw [div_eq_iff unit]
      calc x = m * 2 ^ ((k : ℤ) + f.exponent x) := by rw [← higher, Int.sub_add_cancel, ← scaled]
        _ = (m * 2 ^ k : ℤ) * 2 ^ f.exponent x := by
          rw [zpow_add₀ two_ne_zero, zpow_natCast, ← mul_assoc]
          push_cast
          rfl
    have same : (nearestEven (x / 2 ^ f.exponent x) : ℚ) * 2 ^ f.exponent x = x := by
      rw [integer, nearestEven_intCast, ← integer, div_mul_cancel₀ _ unit]
    rw [round, same, if_pos h.small]

end Binary
