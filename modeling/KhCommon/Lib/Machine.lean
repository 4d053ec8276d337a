import Mathlib.Data.List.Forall2
import Mathlib.Order.Basic
import Mathlib.Tactic.TypeStar

/-! Runs of a deterministic machine `step : σ → ι → ο × σ`: one input gives one
output and the next state. The rules below carry a fact about one step to every
step of every run: an invariant rule, its variant for inputs stamped with the
readings of a clock that never runs backwards, equality of the outputs of two
machines, and acceptance of a run by an abstract transition relation. -/

namespace Machine

variable {σ τ ι ο κ T : Type*}

def run (step : σ → ι → ο × σ) : σ → List ι → σ
  | s, [] => s
  | s, i :: is => run step (step s i).2 is

def outputs (step : σ → ι → ο × σ) : σ → List ι → List ο
  | _, [] => []
  | s, i :: is => (step s i).1 :: outputs step (step s i).2 is

/-- `Q` holds of every step of the run: of the state before it, its input and its output. -/
def Always (step : σ → ι → ο × σ) (Q : σ → ι → ο → Prop) : σ → List ι → Prop
  | _, [] => True
  | s, i :: is => Q s i (step s i).1 ∧ Always step Q (step s i).2 is

/-- Every input opens no earlier than the input before it closed. -/
def Clocked [LE T] (opens closes : ι → T) : T → List ι → Prop
  | _, [] => True
  | t, i :: is => t ≤ opens i ∧ opens i ≤ closes i ∧ Clocked opens closes (closes i) is

def lastReading (closes : ι → T) : T → List ι → T
  | t, [] => t
  | _, i :: is => lastReading closes (closes i) is

def Accepts (A : τ → ι → ο → τ → Prop) : τ → List ι → List ο → Prop
  | _, [], [] => True
  | t, i :: is, o :: os => ∃ t', A t i o t' ∧ Accepts A t' is os
  | _, _, _ => False

/-- `P` holds at every input of the list, seen with the inputs before it. -/
def Throughout (P : List ι → ι → Prop) (is : List ι) : Prop :=
  ∀ before i, before ++ [i] <+: is → P before i

section Runs

variable {step : σ → ι → ο × σ}

@[simp] theorem run_nil (s : σ) : run step s [] = s := rfl

@[simp] theorem run_cons (s : σ) (i : ι) (is : List ι) :
    run step s (i :: is) = run step (step s i).2 is := rfl

theorem run_append (s : σ) (is js : List ι) :
    run step s (is ++ js) = run step (run step s is) js := by
  induction is generalizing s with
  | nil => rfl
  | cons i is ih => exact ih _

theorem outputs_append (s : σ) (is js : List ι) :
    outputs step s (is ++ js) = outputs step s is ++ outputs step (run step s is) js := by
  induction is generalizing s with
  | nil => rfl
  | cons i is ih => rw [List.cons_append, outputs, outputs, ih, List.cons_append, run_cons]

@[simp] theorem length_outputs (s : σ) (is : List ι) : (outputs step s is).length = is.length := by
  induction is generalizing s with
  | nil => rfl
  | cons i is ih => rw [outputs, List.length_cons, ih, List.length_cons]

theorem always_append {Q : σ → ι → ο → Prop} {s : σ} {is js : List ι} :
    Always step Q s (is ++ js) ↔ Always step Q s is ∧ Always step Q (run step s is) js := by
  induction is generalizing s with
  | nil => simp [Always]
  | cons i is ih => simp only [List.cons_append, Always, run_cons, ih, and_assoc]

theorem always_of_forall_mem {Q : σ → ι → ο → Prop} {is : List ι}
    (h : ∀ i ∈ is, ∀ s, Q s i (step s i).1) (s : σ) : Always step Q s is := by
  induction is generalizing s with
  | nil => trivial
  | cons i is ih =>
    rw [List.forall_mem_cons] at h
    exact ⟨h.1 s, ih h.2 _⟩

theorem always_congr {P Q : σ → ι → ο → Prop} {s : σ} {is : List ι}
    (h : Always step (fun s i o => P s i o ↔ Q s i o) s is) :
    Always step P s is ↔ Always step Q s is := by
  induction is generalizing s with
  | nil => exact Iff.rfl
  | cons i is ih => exact and_congr h.1 (ih h.2)

theorem always_iff_forall_outputs {P : ο → Prop} {s : σ} {is : List ι} :
    Always step (fun _ _ o => P o) s is ↔ ∀ o ∈ outputs step s is, P o := by
  induction is generalizing s with
  | nil => simp [Always, outputs]
  | cons i is ih => rw [Always, outputs, List.forall_mem_cons, ih]

theorem always_of_inv {I : σ → Prop} {C : ι → Prop} {Q : σ → ι → ο → Prop}
    (preserve : ∀ s i, I s → C i → Q s i (step s i).1 ∧ I (step s i).2)
    {s : σ} (start : I s) {is : List ι} (admitted : ∀ i ∈ is, C i) : Always step Q s is := by
  induction is generalizing s with
  | nil => trivial
  | cons i is ih =>
    rw [List.forall_mem_cons] at admitted
    obtain ⟨now, next⟩ := preserve s i start admitted.1
    exact ⟨now, ih next admitted.2⟩

theorem run_inv {I : σ → Prop} {C : σ → ι → ο → Prop}
    (preserve : ∀ s i, I s → C s i (step s i).1 → I (step s i).2)
    {s : σ} (start : I s) {is : List ι} (admitted : Always step C s is) :
    I (run step s is) := by
  induction is generalizing s with
  | nil => exact start
  | cons i is ih => exact ih (preserve s i start admitted.1) admitted.2

/-- The rule for invariants that speak of the outputs so far. -/
theorem outputs_inv {I : List ο → σ → Prop} {C : σ → ι → ο → Prop}
    (preserve : ∀ os s i, I os s → C s i (step s i).1 → I (os ++ [(step s i).1]) (step s i).2)
    {os : List ο} {s : σ} (start : I os s) {is : List ι} (admitted : Always step C s is) :
    I (os ++ outputs step s is) (run step s is) := by
  induction is generalizing os s with
  | nil => rwa [outputs, List.append_nil]
  | cons i is ih =>
    rw [outputs, List.append_cons]
    exact ih (preserve os s i start admitted.1) admitted.2

/-- The rule for clocked inputs: `I t s` speaks of the state after the reading `t`,
`C` is assumed of every step and `Q` is concluded of every step. -/
theorem always_of_clocked [Preorder T] {opens closes : ι → T} {I : T → σ → Prop}
    {C Q : σ → ι → ο → Prop}
    (preserve : ∀ t s i, I t s → t ≤ opens i → opens i ≤ closes i → C s i (step s i).1 →
      Q s i (step s i).1 ∧ I (closes i) (step s i).2)
    {t : T} {s : σ} (start : I t s) {is : List ι} (clock : Clocked opens closes t is)
    (admitted : Always step C s is) :
    Always step Q s is ∧ I (lastReading closes t is) (run step s is) := by
  induction is generalizing t s with
  | nil => exact ⟨trivial, start⟩
  | cons i is ih =>
    obtain ⟨hopen, hclose, clock⟩ := clock
    obtain ⟨hq, hinv⟩ := preserve t s i start hopen hclose admitted.1
    obtain ⟨hrest, hlast⟩ := ih hinv clock admitted.2
    exact ⟨⟨hq, hrest⟩, hlast⟩

theorem outputs_eq_map {I : σ → Prop} {g : ι → ο} {is : List ι}
    (answer : ∀ s, ∀ i ∈ is, I s → (step s i).1 = g i ∧ I (step s i).2) {s : σ} (start : I s) :
    outputs step s is = is.map g := by
  induction is generalizing s with
  | nil => rfl
  | cons i is ih =>
    obtain ⟨hout, hinv⟩ := answer s i List.mem_cons_self start
    rw [outputs, List.map_cons, hout,
      ih (fun s j hj => answer s j (List.mem_cons_of_mem i hj)) hinv]

end Runs

theorem clocked_append [LE T] {opens closes : ι → T} {t : T} {is js : List ι} :
    Clocked opens closes t (is ++ js) ↔
      Clocked opens closes t is ∧ Clocked opens closes (lastReading closes t is) js := by
  induction is generalizing t with
  | nil => simp [Clocked, lastReading]
  | cons i is ih => simp only [List.cons_append, Clocked, lastReading, ih, and_assoc]

theorem lastReading_append {closes : ι → T} {t : T} {is js : List ι} :
    lastReading closes t (is ++ js) = lastReading closes (lastReading closes t is) js := by
  induction is generalizing t with
  | nil => rfl
  | cons i is ih => exact ih

theorem Clocked.le_lastReading [Preorder T] {opens closes : ι → T} {t : T} {is : List ι}
    (clock : Clocked opens closes t is) : t ≤ lastReading closes t is := by
  induction is generalizing t with
  | nil => exact le_rfl
  | cons i is ih =>
    obtain ⟨hopen, hclose, clock⟩ := clock
    exact (hopen.trans hclose).trans (ih clock)

@[simp] theorem throughout_nil (P : List ι → ι → Prop) : Throughout P [] := by
  rintro before i ⟨rest, h⟩
  simp at h

theorem throughout_cons {P : List ι → ι → Prop} {i : ι} {is : List ι} :
    Throughout P (i :: is) ↔ P [] i ∧ Throughout (fun before => P (i :: before)) is := by
  constructor
  · intro h
    exact ⟨h [] i ⟨is, rfl⟩, fun before j ⟨rest, hrest⟩ =>
      h (i :: before) j ⟨rest, by simp [← hrest]⟩⟩
  · rintro ⟨first, others⟩ before j ⟨rest, hrest⟩
    rcases before with _ | ⟨k, before⟩
    · obtain ⟨rfl, -⟩ := List.cons.inj hrest
      exact first
    · obtain ⟨rfl, hrest⟩ := List.cons.inj hrest
      exact others before j ⟨rest, by simpa using hrest⟩

theorem throughout_congr {P Q : List ι → ι → Prop} {is : List ι}
    (h : ∀ before i, before ++ [i] <+: is → (P before i ↔ Q before i)) :
    Throughout P is ↔ Throughout Q is :=
  forall_congr' fun before => forall_congr' fun i => forall_congr' (h before i)

theorem outputs_eq_of_simulation [Preorder T] {opens closes : ι → T}
    {step₁ : σ → ι → ο × σ} {step₂ : τ → ι → ο × τ} {R : T → σ → τ → Prop}
    (simulate : ∀ t s s' i, R t s s' → t ≤ opens i → opens i ≤ closes i →
      (step₁ s i).1 = (step₂ s' i).1 ∧ R (closes i) (step₁ s i).2 (step₂ s' i).2)
    {t : T} {s : σ} {s' : τ} (start : R t s s') {is : List ι} (clock : Clocked opens closes t is) :
    outputs step₁ s is = outputs step₂ s' is ∧
      R (lastReading closes t is) (run step₁ s is) (run step₂ s' is) := by
  induction is generalizing t s s' with
  | nil => exact ⟨rfl, start⟩
  | cons i is ih =>
    obtain ⟨hopen, hclose, clock⟩ := clock
    obtain ⟨hout, hrel⟩ := simulate t s s' i start hopen hclose
    obtain ⟨houts, hlast⟩ := ih hrel clock
    exact ⟨by simp only [outputs, hout, houts], hlast⟩

/-- Two machines side by side. If a related pair of steps is as wanted exactly when the second
machine's output is good, and stays related then, so is it for whole runs. -/
theorem forall₂_outputs_iff {step₁ : σ → ι → ο × σ} {step₂ : τ → ι → κ × τ} {R : σ → τ → Prop}
    {A : ι → Prop} {P : ο → κ → Prop} {G : κ → Prop}
    (simulate : ∀ s t i, R s t → A i → (P (step₁ s i).1 (step₂ t i).1 ↔ G (step₂ t i).1) ∧
      (G (step₂ t i).1 → R (step₁ s i).2 (step₂ t i).2))
    {s : σ} {t : τ} (start : R s t) {is : List ι} (admitted : ∀ i ∈ is, A i) :
    (List.Forall₂ P (outputs step₁ s is) (outputs step₂ t is) ↔ ∀ o ∈ outputs step₂ t is, G o) ∧
      ((∀ o ∈ outputs step₂ t is, G o) → R (run step₁ s is) (run step₂ t is)) := by
  induction is generalizing s t with
  | nil => exact ⟨by simp [outputs], fun _ => start⟩
  | cons i is ih =>
    rw [List.forall_mem_cons] at admitted
    obtain ⟨now, next⟩ := simulate s t i start admitted.1
    rw [outputs, outputs, List.forall₂_cons, List.forall_mem_cons, now]
    refine ⟨and_congr_right fun good => (ih (next good) admitted.2).1, ?_⟩
    exact fun ⟨good, rest⟩ => (ih (next good) admitted.2).2 rest

/-- A forward simulation: every run of the machine is a run of the abstract relation. -/
theorem accepts_of_simulation {step : σ → ι → ο × σ} {A : τ → ι → ο → τ → Prop} {R : σ → τ → Prop}
    (simulate : ∀ s t i, R s t → ∃ t', A t i (step s i).1 t' ∧ R (step s i).2 t')
    {s : σ} {t : τ} (start : R s t) (is : List ι) : Accepts A t is (outputs step s is) := by
  induction is generalizing s t with
  | nil => trivial
  | cons i is ih =>
    obtain ⟨t', hstep, hrel⟩ := simulate s t i start
    exact ⟨t', hstep, ih hrel⟩

end Machine
