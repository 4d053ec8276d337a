import Mathlib.Order.Nat
import Mathlib.Tactic.TypeStar

/-! A loop that attempts the same thing up to a bound and waits between attempts. An
attempt ends the loop, or the loop waits and goes on to the next one; a loop all of
whose attempts go on runs out. -/

namespace Retry

variable {α : Type*}

/-- How often the loop tried, the attempts it waited after, and the outcome that ended it; none when
it ran out. -/
structure Trace (α : Type*) where
  tries : ℕ
  waits : List ℕ
  last : Option α

variable (ends : ℕ → α → Bool) (attempt : ℕ → α)

def loop : (left i : ℕ) → Trace α
  | 0, _ => ⟨0, [], none⟩
  | left + 1, i =>
    if ends i (attempt i) then ⟨1, [], some (attempt i)⟩ else
      let rest := loop left (i + 1)
      ⟨rest.tries + 1, i :: rest.waits, rest.last⟩

structure FirstEnd (i k : ℕ) : Prop where
  le : i ≤ k
  stops : ends k (attempt k)
  earlier : ∀ j, i ≤ j → j < k → ¬ends j (attempt j)

variable {ends attempt} {i k : ℕ}

theorem FirstEnd.next (h : FirstEnd ends attempt i k) (goes_on : ¬ends i (attempt i)) :
    FirstEnd ends attempt (i + 1) k where
  le := by
    refine Nat.succ_le_of_lt (Nat.lt_of_le_of_ne h.le ?_)
    rintro rfl
    exact goes_on h.stops
  stops := h.stops
  earlier j hj := h.earlier j (Nat.le_of_succ_le hj)

theorem exists_firstEnd {m : ℕ} (le : i ≤ m) (stops : ends m (attempt m)) :
    ∃ k ≤ m, FirstEnd ends attempt i k := by
  have some_end : ∃ k, i ≤ k ∧ ends k (attempt k) := ⟨m, le, stops⟩
  refine ⟨Nat.find some_end, Nat.find_min' some_end ⟨le, stops⟩, (Nat.find_spec some_end).1,
    (Nat.find_spec some_end).2, fun j hj first stops => ?_⟩
  exact Nat.find_min some_end first ⟨hj, stops⟩

theorem loop_of_firstEnd (left : ℕ) (h : FirstEnd ends attempt i k) (inside : k < i + left) :
    loop ends attempt left i = ⟨k - i + 1, List.range' i (k - i), some (attempt k)⟩ := by
  induction left generalizing i with
  | zero => exact absurd h.le (Nat.not_le_of_lt inside)
  | succ left ih =>
    rw [loop]
    by_cases stops : ends i (attempt i)
    · have first : k = i := by
        by_contra other
        exact h.earlier i le_rfl (Nat.lt_of_le_of_ne h.le (Ne.symm other)) stops
      rw [if_pos stops, first, Nat.sub_self]
      rfl
    · have later := h.next stops
      have length : k - i = k - (i + 1) + 1 := by
        have := later.le
        omega
      rw [if_neg stops, ih later (by omega), length, List.range'_succ]

end Retry
