import Mathlib.Algebra.Order.Ring.Int
import Mathlib.Data.List.Infix

/-! A log whose entries carry strictly increasing integer keys, read in batches from
an offset. A batch is a prefix of what is pending at the offset, and the next
offset is one past the last key of the batch. What has been read is then always
what lies below the offset, whatever is appended meanwhile. -/

namespace OffsetLog

variable {α : Type*} (key : α → ℤ)

def Increasing (log : List α) : Prop := log.Pairwise fun a b => key a < key b

def below (offset : ℤ) (log : List α) : List α := log.filter fun a => key a < offset

def pending (offset : ℤ) (log : List α) : List α := log.filter fun a => offset ≤ key a

/-- The offset is not past the key that follows the last one of the log. -/
def Reached (offset : ℤ) (log : List α) : Prop := ∃ a ∈ log, offset ≤ key a + 1

variable {key} {offset : ℤ} {log : List α}

theorem filter_eq_left {p : α → Bool} {xs ys : List α} (hx : ∀ x ∈ xs, p x = true)
    (hy : ∀ y ∈ ys, p y = false) : (xs ++ ys).filter p = xs := by
  have none : ys.filter p = [] := List.filter_eq_nil_iff.mpr fun y h => by simp [hy y h]
  rw [List.filter_append, List.filter_eq_self.mpr hx, none, List.append_nil]

theorem below_append_pending (increasing : Increasing key log) (offset : ℤ) :
    below key offset log ++ pending key offset log = log := by
  induction log with
  | nil => rfl
  | cons a log ih =>
    obtain ⟨first, rest⟩ := List.pairwise_cons.mp increasing
    by_cases read : key a < offset
    · have here : below key offset (a :: log) = a :: below key offset log := by
        simp [below, read]
      have later : pending key offset (a :: log) = pending key offset log := by
        simp [pending, not_le.mpr read]
      rw [here, later, List.cons_append, ih rest]
    · -- the key is not below, so none behind it is
      have none : below key offset (a :: log) = [] := by
        refine List.filter_eq_nil_iff.mpr fun b hb => ?_
        rcases List.mem_cons.mp hb with rfl | hb
        · simpa using read
        · simpa using (not_lt.mp read).trans (first b hb).le
      have all : pending key offset (a :: log) = a :: log := by
        refine List.filter_eq_self.mpr fun b hb => ?_
        rcases List.mem_cons.mp hb with rfl | hb
        · simpa using read
        · simpa using (not_lt.mp read).trans (first b hb).le
      rw [none, all, List.nil_append]

theorem below_batch (increasing : Increasing key log) {batch : List α}
    (answered : batch <+: pending key offset log) {last : α} (hlast : batch.getLast? = some last) :
    below key (key last + 1) log = below key offset log ++ batch := by
  obtain ⟨rest, hrest⟩ := answered
  obtain ⟨front, rfl⟩ := List.getLast?_eq_some_iff.mp hlast
  have split : (below key offset log ++ (front ++ [last])) ++ rest = log := by
    rw [List.append_assoc, hrest, below_append_pending increasing]
  have sorted := increasing
  rw [← split, Increasing, ← List.append_assoc, List.append_assoc _ [last],
    List.pairwise_append] at sorted
  obtain ⟨-, tail, cross⟩ := sorted
  obtain ⟨above, -⟩ := List.pairwise_cons.mp tail
  rw [below]
  conv_lhs => rw [← split]
  refine filter_eq_left (fun a ha => ?_) fun a ha => ?_
  · rw [← List.append_assoc] at ha
    rcases List.mem_append.mp ha with ha | ha
    · exact decide_eq_true (Int.lt_add_one_of_le (cross a ha last List.mem_cons_self).le)
    · simp [List.mem_singleton.mp ha]
  · exact decide_eq_false (not_lt.mpr (Int.add_one_le_of_lt (above a ha)))

theorem Reached.ahead {new : List α} (reached : Reached key offset log)
    (increasing : Increasing key (log ++ new)) : ∀ b ∈ new, offset ≤ key b := by
  intro b hb
  obtain ⟨a, ha, hoffset⟩ := reached
  have later := (List.pairwise_append.mp increasing).2.2 a ha b hb
  exact hoffset.trans (Int.add_one_le_of_lt later)

theorem below_append_new {new : List α} (ahead : ∀ b ∈ new, offset ≤ key b) :
    below key offset (log ++ new) = below key offset log := by
  have none : below key offset new = [] :=
    List.filter_eq_nil_iff.mpr fun b hb => by simpa using ahead b hb
  rw [below, List.filter_append]
  exact (congrArg _ none).trans (List.append_nil _)

end OffsetLog
