import KhCommon.Lib.Machine
import Mathlib.Data.List.Infix

/-! A queue read in sessions. A session reads the first few items of the queue and
then commits all of them, which removes them, or none of them. Over any number of
sessions, and with items arriving all the time, what was committed and what is
left is what there was, in order; and a session that reads good items only never
gets past a bad one. -/

namespace CommitQueue

open Machine

variable {σ ι ο α : Type*}

structure Reading (α : Type*) where
  items : List α
  committed : Bool

/-- One session on a queue: the first items are read, and stay there unless they are committed. -/
def Serves (queue : List α) (reading : Reading α) (queue' : List α) : Prop :=
  ∃ rest, queue = reading.items ++ rest ∧ queue' = if reading.committed then rest else queue

structure Queue (step : σ → ι → ο × σ) where
  pending : σ → List α
  arrives : ι → List α
  reading : ο → Reading α
  serves : ∀ s i, Serves (pending s ++ arrives i) (reading (step s i).1) (pending (step s i).2)

def committed (readings : List (Reading α)) : List α :=
  (readings.filter Reading.committed).flatMap Reading.items

theorem committed_cons (reading : Reading α) (readings : List (Reading α)) :
    committed (reading :: readings) =
      (if reading.committed then reading.items else []) ++ committed readings := by
  unfold committed
  cases h : reading.committed <;> simp [h]

theorem committed_map (f : ο → Reading α) (os : List ο) :
    committed (os.map f) = (os.filter fun o => (f o).committed).flatMap fun o => (f o).items := by
  rw [committed, List.filter_map, List.flatMap_map]
  rfl

theorem committed_eq_flatMap {readings : List (Reading α)}
    (all : ∀ reading ∈ readings, reading.items ≠ [] → reading.committed) :
    committed readings = readings.flatMap Reading.items := by
  induction readings with
  | nil => rfl
  | cons reading readings ih =>
    rw [List.forall_mem_cons] at all
    rw [committed_cons, ih all.2, List.flatMap_cons]
    congr 1
    split
    · rfl
    · case isFalse open' =>
      by_contra some
      exact open' (all.1 (Ne.symm some))

variable {step : σ → ι → ο × σ}

namespace Queue

variable (q : Queue (α := α) step)

def readings (s : σ) (is : List ι) : List (Reading α) := (outputs step s is).map q.reading

theorem conserved (s : σ) (is : List ι) : q.pending s ++ is.flatMap q.arrives =
    committed (q.readings s is) ++ q.pending (run step s is) := by
  induction is generalizing s with
  | nil => simp [readings, outputs, committed]
  | cons i is ih =>
    obtain ⟨rest, read, left⟩ := q.serves s i
    have later := ih (step s i).2
    rw [left] at later
    rw [readings, outputs, List.map_cons, committed_cons, List.flatMap_cons, run_cons,
      List.append_assoc, ← readings, ← later, ← List.append_assoc (q.pending s), read]
    split <;> simp

theorem again (s : σ) (i : ι) (not_committed : ¬(q.reading (step s i).1).committed) :
    (q.reading (step s i).1).items <+: q.pending (step s i).2 := by
  obtain ⟨rest, read, left⟩ := q.serves s i
  rw [left, if_neg not_committed, read]
  exact List.prefix_append _ _

theorem blocked {P : α → Prop} (good : ∀ s i, ∀ item ∈ (q.reading (step s i).1).items, P item)
    {bad : α} (is_bad : ¬P bad) {before after : List α} (s : σ) (is : List ι)
    (all : q.pending s ++ is.flatMap q.arrives = before ++ bad :: after) :
    (∀ reading ∈ q.readings s is, reading.items <:+: before) ∧
      ∃ stuck, q.pending (run step s is) = stuck ++ bad :: after := by
  induction is generalizing s before with
  | nil =>
    refine ⟨by simp [readings, outputs], before, ?_⟩
    simpa using all
  | cons i is ih =>
    obtain ⟨rest, read, left⟩ := q.serves s i
    have stream : (q.reading (step s i).1).items ++ (rest ++ is.flatMap q.arrives) =
        before ++ bad :: after := by
      rw [← all, List.flatMap_cons, ← List.append_assoc (q.pending s), read, List.append_assoc]
    -- the session stops before the bad item
    obtain ⟨tail, rfl, behind⟩ : ∃ tail, before = (q.reading (step s i).1).items ++ tail ∧
        rest ++ is.flatMap q.arrives = tail ++ bad :: after := by
      rcases List.append_eq_append_iff.mp stream with ⟨tail, hbefore, hrest⟩ | ⟨tail, hitems, hbad⟩
      · exact ⟨tail, hbefore, hrest⟩
      · cases tail with
        | nil => exact ⟨[], by simpa using hitems.symm, by simpa using hbad.symm⟩
        | cons item tail =>
          obtain ⟨rfl, -⟩ := List.cons.inj hbad
          exact absurd (good s i bad (by simp [hitems])) is_bad
    rw [readings, outputs, List.map_cons, List.forall_mem_cons, ← readings, run_cons]
    by_cases done : (q.reading (step s i).1).committed
    · rw [if_pos done] at left
      have later : q.pending (step s i).2 ++ is.flatMap q.arrives = tail ++ bad :: after := by
        rw [left, behind]
      obtain ⟨others, stuck⟩ := ih (step s i).2 later
      exact ⟨⟨(List.prefix_append _ _).isInfix,
        fun reading mem => (others reading mem).trans (List.suffix_append _ _).isInfix⟩, stuck⟩
    · rw [if_neg done, read] at left
      obtain ⟨others, stuck⟩ := ih (step s i).2 (by
        rw [left, List.append_assoc, behind, List.append_assoc])
      exact ⟨⟨(List.prefix_append _ _).isInfix, others⟩, stuck⟩

end Queue

end CommitQueue
