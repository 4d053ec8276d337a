import KhCommon.Lib.Tally
import Mathlib.Algebra.Order.BigOperators.Group.List
import Mathlib.Algebra.Order.Ring.Unbundled.Basic
import Mathlib.Tactic.FieldSimp
import Mathlib.Tactic.Ring

/-! Means and sums of squared deviations, in two passes as they are defined and in one
pass as tallies. With a value in every round the two agree. Where some rounds supply
nothing the running mean is a weighted sum, and its weights are equal exactly when no
value comes after a round that supplied none. -/

namespace Statistics

open Tally

section Field

variable {F : Type*} [Field F]

def mean (xs : List F) : F := xs.sum / xs.length

def squares (xs : List F) : F := (xs.map fun x => (x - mean xs) ^ 2).sum

def average (n : ℕ) (avg x : F) : F := avg + (x - avg) / n

def moments (n : ℕ) (s : F × F) (x : F) : F × F :=
  (average n s.1 x, s.2 + (x - s.1) * (x - average n s.1 x))

/-! ## One pass and two -/

section Passes

variable [CharZero F]

theorem sum_eq_length_mul_mean (xs : List F) : xs.sum = xs.length * mean xs := by
  cases xs with
  | nil => simp
  | cons x xs =>
    have nonzero : ((x :: xs).length : F) ≠ 0 := Nat.cast_ne_zero.mpr (by simp)
    rw [mean, mul_div_cancel₀ _ nonzero]

theorem mean_concat (xs : List F) (x : F) :
    mean (xs ++ [x]) = average (xs.length + 1) (mean xs) x := by
  have nonzero : (xs.length : F) + 1 ≠ 0 := Nat.cast_add_one_ne_zero _
  rw [mean, average, List.sum_append, List.sum_singleton, sum_eq_length_mul_mean,
    List.length_append, List.length_singleton, Nat.cast_add, Nat.cast_one]
  field_simp
  ring

omit [CharZero F] in
theorem sum_sq_shift (xs : List F) (c d : F) :
    (xs.map fun x => (x - c) ^ 2).sum =
      (xs.map fun x => (x - d) ^ 2).sum + 2 * (d - c) * (xs.sum - xs.length * d) +
        xs.length * (d - c) ^ 2 := by
  induction xs with
  | nil => simp
  | cons x xs ih =>
    simp only [List.map_cons, List.sum_cons, ih, List.length_cons, Nat.cast_add, Nat.cast_one]
    ring

theorem sum_sq_sub (xs : List F) (c : F) :
    (xs.map fun x => (x - c) ^ 2).sum = squares xs + xs.length * (mean xs - c) ^ 2 := by
  rw [sum_sq_shift xs c (mean xs), ← sum_eq_length_mul_mean, sub_self, mul_zero, add_zero, squares]

theorem squares_concat (xs : List F) (x : F) :
    squares (xs ++ [x]) = squares xs + (x - mean xs) * (x - mean (xs ++ [x])) := by
  have nonzero : (xs.length : F) + 1 ≠ 0 := Nat.cast_add_one_ne_zero _
  rw [squares, List.map_append, List.sum_append, sum_sq_sub, List.map_singleton,
    List.sum_singleton, mean_concat, average, Nat.cast_add, Nat.cast_one]
  field_simp
  ring

theorem tally_moments (xs : List F) :
    tally moments (0, 0) (xs.map some) = (mean xs, squares xs) := by
  induction xs using List.reverseRecOn with
  | nil => simp [mean, squares]
  | append_singleton xs x ih =>
    rw [List.map_append, List.map_singleton, tally_concat, ih, List.length_map, squares_concat,
      mean_concat]
    rfl

end Passes

/-! ## The weights of a running mean -/

def pattern (column : List (Option F)) : List Bool := column.map Option.isSome

/-- The part that is left, at the end, of the running mean after `n` rounds. -/
def share : ℕ → List Bool → F
  | _, [] => 1
  | n, false :: rest => share (n + 1) rest
  | n, true :: rest => (1 - 1 / (n + 1 : ℕ)) * share (n + 1) rest

def weights : ℕ → List Bool → List F
  | _, [] => []
  | n, false :: rest => 0 :: weights (n + 1) rest
  | n, true :: rest => share (n + 1) rest / (n + 1 : ℕ) :: weights (n + 1) rest

/-- How much more than its equal part a round has that supplies a value. -/
def bias (supplied : List Bool) : List F :=
  List.zipWith (fun w b => if b then w - 1 / (supplied.count true : ℕ) else 0)
    (weights 0 supplied) supplied

def weigh (ws : List F) (column : List (Option F)) : F :=
  (List.zipWith (fun w value => w * value.getD 0) ws column).sum

theorem tallyFrom_average (n : ℕ) (avg : F) (column : List (Option F)) :
    tallyFrom average n avg column =
      share n (pattern column) * avg + weigh (weights n (pattern column)) column := by
  induction column generalizing n avg with
  | nil => simp [tallyFrom, share, pattern, weights, weigh]
  | cons value column ih =>
    cases value with
    | none =>
      rw [tallyFrom, ih]
      simp [pattern, share, weights, weigh]
    | some x =>
      rw [tallyFrom, ih, average]
      simp only [pattern, List.map_cons, Option.isSome_some, share, weights, weigh,
        List.zipWith_cons_cons, List.sum_cons, Option.getD_some]
      ring

theorem length_weights (n : ℕ) (supplied : List Bool) :
    (weights n supplied : List F).length = supplied.length := by
  induction supplied generalizing n with
  | nil => rfl
  | cons b supplied ih => cases b <;> simp [weights, ih]

omit [Field F] in
theorem count_pattern (column : List (Option F)) :
    (pattern column).count true = column.reduceOption.length := by
  induction column with
  | nil => rfl
  | cons value column ih =>
    rw [pattern] at ih
    cases value <;> simp [pattern, ih]

theorem weigh_sub (c : F) {ws : List F} {column : List (Option F)}
    (length : ws.length = column.length) :
    weigh (List.zipWith (fun w b => if b then w - c else 0) ws (pattern column)) column =
      weigh ws column - c * column.reduceOption.sum := by
  induction column generalizing ws with
  | nil => simp [weigh, pattern]
  | cons value column ih =>
    cases ws with
    | nil => simp at length
    | cons w ws =>
      have rest := ih (Nat.succ.inj length)
      simp only [weigh, pattern] at rest
      cases value with
      | none => simpa [weigh, pattern] using rest
      | some x =>
        simp only [weigh, pattern, List.map_cons, List.zipWith_cons_cons, List.sum_cons, rest]
        simp
        ring

theorem average_eq_mean_iff (column : List (Option F)) :
    tally average 0 column = mean column.reduceOption ↔
      weigh (bias (pattern column)) column = 0 := by
  have length : (weights 0 (pattern column) : List F).length = column.length := by
    rw [length_weights, pattern, List.length_map]
  rw [bias, weigh_sub _ length, tally, tallyFrom_average, mul_zero, zero_add, sub_eq_zero, mean,
    count_pattern, one_div_mul_eq_div]

def Early (supplied : List Bool) : Prop :=
  supplied.Pairwise fun earlier later => later = true → earlier = true

instance (supplied : List Bool) : Decidable (Early supplied) :=
  inferInstanceAs (Decidable (supplied.Pairwise _))

theorem tallyFrom_average_zero (n : ℕ) (supplied : List Bool) :
    tallyFrom average n (0 : F) (supplied.map fun b => if b then some 0 else none) = 0 := by
  induction supplied generalizing n with
  | nil => rfl
  | cons b supplied ih => cases b <;> simpa [tallyFrom, average] using ih (n + 1)

theorem average_of_early [CharZero F] {column : List (Option F)} (early : Early (pattern column)) :
    tally average 0 column = mean column.reduceOption := by
  induction column using List.reverseRecOn with
  | nil => simp [mean]
  | append_singleton column value ih =>
    rw [pattern, List.map_append, Early, List.pairwise_append] at early
    obtain ⟨before, -, last⟩ := early
    rw [tally_concat, ih before, List.reduceOption_append]
    cases value with
    | none => simp
    | some x =>
      have all : column.reduceOption.length = column.length := by
        rw [List.reduceOption_length_eq_iff]
        intro value hvalue
        exact last _ (List.mem_map_of_mem hvalue) true (by simp) rfl
      rw [Option.elim_some, ← all, List.reduceOption_singleton, Option.toList_some, mean_concat]

theorem all_of_mean [CharZero F] {supplied : List Bool}
    (means : ∀ column : List (Option F), pattern column = supplied ++ [true] →
      tally average 0 column = mean column.reduceOption) : ∀ b ∈ supplied, b = true := by
  let zeros : List (Option F) := supplied.map fun b => if b then some 0 else none
  have same : pattern zeros = supplied := by
    rw [pattern, List.map_map]
    exact (List.map_congr_left fun b _ => by cases b <;> rfl).trans (List.map_id _)
  have sum : zeros.reduceOption.sum = 0 := by
    apply List.sum_eq_zero
    intro x hx
    rw [List.reduceOption_mem_iff, List.mem_map] at hx
    obtain ⟨b, -, hb⟩ := hx
    cases b <;> simp_all
  have figure := means (zeros ++ [some 1]) (by rw [pattern, List.map_append, ← pattern, same]; rfl)
  rw [tally_concat, tally, tallyFrom_average_zero, Option.elim_some, average, zero_add, sub_zero,
    List.reduceOption_append, List.reduceOption_singleton, Option.toList_some, mean,
    List.sum_append, List.sum_singleton, sum, zero_add] at figure
  have rounds : (zeros.length + 1 : ℕ) = (zeros.reduceOption.length + 1 : ℕ) := by
    simpa using figure
  rw [← count_pattern, same, List.length_map] at rounds
  exact fun b hb => (List.count_eq_length.mp (Nat.succ.inj rounds).symm b hb).symm

theorem average_eq_mean_iff_early [CharZero F] (supplied : List Bool) :
    (∀ column : List (Option F), pattern column = supplied →
      tally average 0 column = mean column.reduceOption) ↔ Early supplied := by
  refine ⟨fun means => ?_, fun early column same => average_of_early (same ▸ early)⟩
  induction supplied using List.reverseRecOn with
  | nil => exact List.Pairwise.nil
  | append_singleton supplied b ih =>
    refine List.pairwise_append.mpr ⟨?_, List.pairwise_singleton _ _, ?_⟩
    · cases b with
      | false =>
        refine ih fun column same => ?_
        have longer := means (column ++ [none])
          (by rw [pattern, List.map_append, ← pattern, same]; rfl)
        rwa [tally_concat, Option.elim_none, List.reduceOption_append, List.reduceOption_singleton,
          Option.toList_none, List.append_nil] at longer
      | true =>
        have all := all_of_mean means
        exact List.pairwise_of_forall_mem_list fun a ha _ _ _ => all a ha
    · intro a ha later hlater supplies
      rw [List.mem_singleton.mp hlater] at supplies
      subst supplies
      exact all_of_mean means a ha

end Field

section Order

variable {F : Type*} [Field F] [LinearOrder F] [IsStrictOrderedRing F]

theorem moments_nonneg (n : ℕ) {s : F × F} (h : 0 ≤ s.2) (x : F) : 0 ≤ (moments (n + 1) s x).2 := by
  have positive : (0 : F) < (n + 1 : ℕ) := Nat.cast_pos.mpr n.succ_pos
  have product : (x - s.1) * (x - average (n + 1) s.1 x) = (x - s.1) ^ 2 * n / (n + 1 : ℕ) := by
    rw [average]
    field_simp
    push_cast
    ring
  rw [moments, product]
  exact add_nonneg h (div_nonneg (mul_nonneg (sq_nonneg _) n.cast_nonneg) positive.le)

theorem tally_moments_nonneg (column : List (Option F)) :
    0 ≤ (tally moments (0, 0) column).2 :=
  tally_inv (I := fun s : F × F => 0 ≤ s.2) le_rfl (fun n _ x h => moments_nonneg n h x) column

end Order

end Statistics
