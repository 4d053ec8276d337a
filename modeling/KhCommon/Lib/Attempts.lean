import Mathlib.Order.Nat
import Mathlib.Tactic.TypeStar

/-! A loop that makes an attempt up to so many times and carries a state from one to
the next. An attempt ends the loop with a result or goes on. What the loop comes to
can often be read off the attempts without the state: which of them end it, and what
each one that goes on writes into a part of the state that is looked at later. Then the
first attempt that ends the loop gives its result, and if there is none, that part of the
state is what was written last. -/

namespace Attempts

variable {σ τ ρ ω : Type*}

inductive Attempt (σ ρ : Type*)
  | again (state : σ)
  | done (result : ρ)

/-- A state that goes on has `A`, a result has `D`. -/
def Attempt.Holds (A : σ → Prop) (D : ρ → Prop) : Attempt σ ρ → Prop
  | .again s => A s
  | .done r => D r

def loop (attempt : ℕ → σ → Attempt σ ρ) : (left i : ℕ) → σ → Attempt σ ρ
  | 0, _, s => .again s
  | left + 1, i, s =>
    match attempt i s with
    | .again s => loop attempt left (i + 1) s
    | .done r => .done r

/-- Which attempts end the loop, and what the others write, whatever the state. -/
structure Reads (attempt : ℕ → σ → Attempt σ ρ) (ends : ℕ → Option ω) (out : ρ → ω)
    (writes : ℕ → Option τ) (view : σ → τ) : Prop where
  done {i s r} : attempt i s = .done r → ends i = some (out r)
  again {i s s'} : attempt i s = .again s' →
    ends i = none ∧ view s' = (writes i).getD (view s)

def FirstEnd (ends : ℕ → Option ω) (n : ℕ) (r : ω) : Prop :=
  ∃ k < n, ends k = some r ∧ ∀ j < k, ends j = none

def LastWrite (P : τ → Prop) (writes : ℕ → Option τ) (n : ℕ) : Prop :=
  ∀ k < n, ∀ w, writes k = some w → (∀ j, k < j → j < n → writes j = none) → P w

/-! ## The loop and its attempts -/

variable {attempt : ℕ → σ → Attempt σ ρ} {ends : ℕ → Option ω} {out : ρ → ω}
  {writes : ℕ → Option τ} {view : σ → τ} {n : ℕ} {s s' : σ}

theorem loop_succ (attempt : ℕ → σ → Attempt σ ρ) (left i : ℕ) (s : σ) :
    loop attempt (left + 1) i s =
      match loop attempt left i s with
      | .again s => attempt (i + left) s
      | .done r => .done r := by
  induction left generalizing i s with
  | zero =>
    rw [loop, loop]
    dsimp only [Nat.add_zero]
    cases attempt i s <;> rfl
  | succ left ih =>
    rw [loop, loop]
    cases attempt i s with
    | done r => rfl
    | again s =>
      dsimp only
      rw [ih, Nat.add_right_comm, Nat.add_assoc i left 1]

theorem loop_congr {attempt' : ℕ → σ → Attempt σ ρ} {i : ℕ}
    (h : ∀ j, i ≤ j → j < i + n → ∀ s, attempt j s = attempt' j s) :
    loop attempt n i s = loop attempt' n i s := by
  induction n generalizing i s with
  | zero => rfl
  | succ n ih =>
    have rest (s : σ) : loop attempt n (i + 1) s = loop attempt' n (i + 1) s :=
      ih fun j above below => h j (by omega) (by omega)
    rw [loop, loop, h i le_rfl (by omega) s]
    cases attempt' i s with
    | again s => exact rest s
    | done r => rfl

theorem loop_done_of_le {m i : ℕ} {r : ρ} (h : loop attempt m i s = .done r) (le : m ≤ n) :
    loop attempt n i s = .done r := by
  induction n, le using Nat.le_induction with
  | base => exact h
  | succ n _ ih => rw [loop_succ, ih]

section Until

variable {p : ℕ → Bool} {f : σ → ρ}

theorem loop_until_of_exists {i : ℕ} (h : ∃ k < n, p (i + k)) :
    loop (fun i s => if p i then .done (f s) else .again s) n i s = .done (f s) := by
  induction n generalizing i with
  | zero =>
    obtain ⟨k, inside, -⟩ := h
    exact absurd inside (Nat.not_lt_zero k)
  | succ n ih =>
    rw [loop]
    by_cases now : p i
    · rw [if_pos now]
    · rw [if_neg now]
      obtain ⟨k, inside, hk⟩ := h
      cases k with
      | zero => exact absurd hk now
      | succ k => exact ih ⟨k, Nat.lt_of_succ_lt_succ inside, by rwa [Nat.add_right_comm]⟩

theorem loop_until_of_forall {i : ℕ} (h : ∀ k < n, ¬p (i + k)) :
    loop (fun i s => if p i then .done (f s) else .again s) n i s = .again s := by
  induction n generalizing i with
  | zero => rfl
  | succ n ih =>
    have now : ¬p i := h 0 (Nat.zero_lt_succ n)
    rw [loop, if_neg now]
    refine ih fun k inside => ?_
    rw [Nat.add_right_comm]
    exact h (k + 1) (Nat.succ_lt_succ inside)

end Until

theorem firstEnd_succ {r : ω} : FirstEnd ends (n + 1) r ↔
    FirstEnd ends n r ∨ ((∀ j < n, ends j = none) ∧ ends n = some r) := by
  constructor
  · rintro ⟨k, inside, hk, before⟩
    rcases Nat.lt_or_eq_of_le (Nat.le_of_lt_succ inside) with earlier | rfl
    · exact .inl ⟨k, earlier, hk, before⟩
    · exact .inr ⟨before, hk⟩
  · rintro (⟨k, inside, hk, before⟩ | ⟨before, hn⟩)
    · exact ⟨k, Nat.lt_succ_of_lt inside, hk, before⟩
    · exact ⟨n, Nat.lt_succ_self n, hn, before⟩

theorem FirstEnd.unique {r r' : ω} (h : FirstEnd ends n r) (h' : FirstEnd ends n r') : r = r' := by
  obtain ⟨k, -, hk, before⟩ := h
  obtain ⟨k', -, hk', before'⟩ := h'
  rcases Nat.lt_trichotomy k k' with lt | rfl | lt
  · simp [before' k lt] at hk
  · exact Option.some.inj (hk.symm.trans hk')
  · simp [before k' lt] at hk'

theorem FirstEnd.not_none {r : ω} (h : FirstEnd ends n r) : ¬∀ j < n, ends j = none := by
  obtain ⟨k, inside, hk, -⟩ := h
  intro none
  simp [none k inside] at hk

def Written (view : σ → τ) (writes : ℕ → Option τ) (n : ℕ) (s s' : σ) : Prop :=
  (∃ k < n, writes k = some (view s') ∧ ∀ j, k < j → j < n → writes j = none) ∨
    (view s' = view s ∧ ∀ j < n, writes j = none)

theorem Written.succ {s'' : σ} (h : Written view writes n s s')
    (step : view s'' = (writes n).getD (view s')) : Written view writes (n + 1) s s'' := by
  cases hn : writes n with
  | some w =>
    rw [hn, Option.getD_some] at step
    exact .inl ⟨n, Nat.lt_succ_self n, by rw [hn, step], fun j above below => by omega⟩
  | none =>
    rw [hn, Option.getD_none] at step
    have last {j : ℕ} (below : j < n + 1) : j < n ∨ j = n := by omega
    rcases h with ⟨k, inside, hk, after⟩ | ⟨same, unwritten⟩
    · refine .inl ⟨k, Nat.lt_succ_of_lt inside, by rw [step, hk], fun j above below => ?_⟩
      rcases last below with below | rfl
      · exact after j above below
      · exact hn
    · refine .inr ⟨by rw [step, same], fun j below => ?_⟩
      rcases last below with below | rfl
      · exact unwritten j below
      · exact hn

theorem Reads.of_attempt (h : ∀ i s, (attempt i s).Holds
    (fun s' => ends i = none ∧ view s' = (writes i).getD (view s)) fun r => ends i = some (out r)) :
    Reads attempt ends out writes view where
  done {i s r} result := by
    have here := h i s
    rwa [result] at here
  again {i s s'} result := by
    have here := h i s
    rwa [result] at here

theorem Reads.loop (h : Reads attempt ends out writes view) (n : ℕ) (s : σ) :
    (Attempts.loop attempt n 0 s).Holds
      (fun s' => (∀ j < n, ends j = none) ∧ Written view writes n s s')
      fun r => FirstEnd ends n (out r) := by
  induction n with
  | zero => exact ⟨fun j below => absurd below (Nat.not_lt_zero j), .inr ⟨rfl, by simp⟩⟩
  | succ n ih =>
    rw [loop_succ, Nat.zero_add]
    cases before : Attempts.loop attempt n 0 s with
    | done r =>
      rw [before] at ih
      exact firstEnd_succ.mpr (.inl ih)
    | again s' =>
      rw [before] at ih
      obtain ⟨going, written⟩ := ih
      dsimp only
      cases next : attempt n s' with
      | done r => exact firstEnd_succ.mpr (.inr ⟨going, h.done next⟩)
      | again s'' =>
        obtain ⟨goes, step⟩ := h.again next
        refine ⟨fun j below => ?_, written.succ step⟩
        rcases Nat.lt_or_eq_of_le (Nat.le_of_lt_succ below) with earlier | rfl
        · exact going j earlier
        · exact goes

theorem Written.iff {P : τ → Prop} (h : Written view writes n s s') (start : P (view s)) :
    P (view s') ↔ LastWrite P writes n := by
  rcases h with ⟨k, inside, hk, after⟩ | ⟨same, unwritten⟩
  · refine ⟨fun holds k' inside' w hk' after' => ?_, fun last => last k inside _ hk after⟩
    rcases Nat.lt_trichotomy k k' with lt | rfl | lt
    · simp [after k' lt inside'] at hk'
    · rw [hk, Option.some.injEq] at hk'
      exact hk' ▸ holds
    · simp [after' k lt inside] at hk
  · refine iff_of_true (same ▸ start) fun k inside w hk => ?_
    simp [unwritten k inside] at hk

theorem Reads.loop_iff {A : τ → Prop} {D : ω → Prop} (h : Reads attempt ends out writes view)
    (n : ℕ) (start : A (view s)) :
    (Attempts.loop attempt n 0 s).Holds (fun s' => A (view s')) (fun r => D (out r)) ↔
      ((∀ j < n, ends j = none) → LastWrite A writes n) ∧ ∀ r, FirstEnd ends n r → D r := by
  have run := h.loop n s
  cases result : Attempts.loop attempt n 0 s with
  | done r =>
    rw [result] at run
    refine ⟨fun holds => ⟨fun none => absurd none run.not_none, fun r' first => ?_⟩,
      fun all => all.2 _ run⟩
    exact run.unique first ▸ holds
  | again s' =>
    rw [result] at run
    refine ⟨fun holds => ⟨fun _ => (run.2.iff start).mp holds, fun r first => ?_⟩,
      fun all => (run.2.iff start).mpr (all.1 run.1)⟩
    exact absurd run.1 first.not_none

end Attempts
