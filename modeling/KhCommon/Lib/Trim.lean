import Mathlib.Data.List.DropRight
import Mathlib.Tactic.TypeStar

/-! Taking blanks off both ends of a list, as `str.strip` does. Dropping from the front
leaves the result alone exactly if blanks are all that is dropped. The second part is
about a piece of a list that is looked for too far to the right: it is found there, and
what follows is the same up to blanks, only if the piece is blank itself. -/

namespace Trim

variable {α : Type*} {blank : α → Bool}

def trim (blank : α → Bool) (s : List α) : List α := (s.dropWhile blank).rdropWhile blank

theorem length_rdropWhile_append (s t : List α) :
    (t.rdropWhile blank).length ≤ ((s ++ t).rdropWhile blank).length := by
  rw [List.rdropWhile, List.rdropWhile, List.reverse_append, List.dropWhile_append,
    List.length_reverse, List.length_reverse]
  split_ifs with none
  · rw [List.isEmpty_iff] at none
    simp [none]
  · simp

theorem length_trim_drop (blank : α → Bool) (s : List α) (k : ℕ) :
    (trim blank (s.drop k)).length ≤ (s.rdropWhile blank).length := by
  obtain ⟨front, rest⟩ := (List.dropWhile_suffix blank).trans (List.drop_suffix k s)
  calc (trim blank (s.drop k)).length
      ≤ ((front ++ (s.drop k).dropWhile blank).rdropWhile blank).length :=
        length_rdropWhile_append _ _
    _ = (s.rdropWhile blank).length := by rw [rest]

theorem trim_isInfix (s : List α) : trim blank s <:+: s :=
  (List.rdropWhile_prefix blank _).isInfix.trans (List.dropWhile_suffix blank).isInfix

theorem head?_trim {s : List α} {x : α} (h : x ∈ (trim blank s).head?) : blank x = false := by
  have front : x ∈ (s.dropWhile blank).head? := by
    obtain ⟨rest, split⟩ := List.rdropWhile_prefix blank (s.dropWhile blank)
    rw [trim] at h
    rw [← split, List.head?_append, Option.mem_def.mp h]
    rfl
  have kept := List.head?_dropWhile_not blank s
  rwa [Option.mem_def.mp front] at kept

theorem getLast?_trim {s : List α} {x : α} (h : x ∈ (trim blank s).getLast?) :
    blank x = false := by
  obtain ⟨some, rfl⟩ := List.mem_getLast?_eq_getLast h
  exact Bool.eq_false_iff.mpr (List.rdropWhile_last_not blank _ some)

theorem trim_eq_self {s : List α} (head : ∀ x ∈ s.head?, blank x = false)
    (last : ∀ x ∈ s.getLast?, blank x = false) : trim blank s = s := by
  cases s with
  | nil => rfl
  | cons x s =>
    have first : blank x = false := head x rfl
    have final := last _ (List.getLast?_eq_some_getLast (List.cons_ne_nil x s))
    rw [trim, List.dropWhile_cons_of_neg (by simp [first]), List.rdropWhile_eq_self_iff]
    exact fun _ => by simp [final]

theorem rdropWhile_cons_of_not {x : α} (h : ¬blank x) (s : List α) :
    (x :: s).rdropWhile blank = x :: s.rdropWhile blank := by
  induction s using List.reverseRecOn with
  | nil => simp [h]
  | append_singleton s y ih =>
    rw [← List.cons_append, List.rdropWhile_concat, List.rdropWhile_concat]
    split_ifs
    · exact ih
    · rfl

theorem trim_drop_iff (s : List α) (k : ℕ) :
    trim blank (s.drop k) = trim blank s ↔ ∀ x ∈ s.take k, blank x := by
  induction k generalizing s with
  | zero => simp
  | succ k ih =>
    cases s with
    | nil => simp
    | cons x s =>
      rw [List.drop_succ_cons, List.take_succ_cons, List.forall_mem_cons]
      by_cases hx : blank x
      · have skip : trim blank (x :: s) = trim blank s := by
          rw [trim, List.dropWhile_cons_of_pos hx, trim]
        rw [skip, ih]
        exact (and_iff_right hx).symm
      · refine iff_of_false (fun same => ?_) fun h => hx h.1
        have length := congrArg List.length same
        rw [trim, trim, List.dropWhile_cons_of_neg hx, rdropWhile_cons_of_not hx,
          List.length_cons] at length
        have bound := length_trim_drop blank s k
        rw [trim] at bound
        omega

/-! ## A piece found too far to the right -/

section Shifted

variable {piece after : List α} {k m : ℕ}

theorem blank_of_shifted (same : ((piece ++ after).drop k).take m = piece) (pos : 0 < k)
    (blanks : ∀ x ∈ after.take k, blank x) : ∀ x ∈ piece, blank x := by
  have here (n : ℕ) : ∀ i, piece.length - i ≤ n → ∀ x, piece[i]? = some x → blank x := by
    induction n with
    | zero =>
      intro i out x hx
      have := (List.getElem?_eq_some_iff.mp hx).1
      omega
    | succ n ih =>
      intro i left x hx
      have inside := (List.getElem?_eq_some_iff.mp hx).1
      rw [← same, List.getElem?_take] at hx
      split_ifs at hx
      rw [List.getElem?_drop] at hx
      by_cases within : k + i < piece.length
      · rw [List.getElem?_append_left within] at hx
        exact ih (k + i) (by omega) x hx
      · rw [List.getElem?_append_right (by omega)] at hx
        refine blanks x (List.mem_of_getElem? (i := k + i - piece.length) ?_)
        rw [List.getElem?_take, if_pos (by omega), hx]
  intro x hx
  obtain ⟨i, hi⟩ := List.mem_iff_getElem?.mp hx
  exact here _ i le_rfl x hi

theorem shifted_iff {l : ℕ} (solid : (∀ x ∈ piece, blank x) → l = 0) :
    ((piece ++ after).drop k).take (piece.length + l) = piece ∧
        trim blank (after.drop (k + l)) = trim blank after ↔
      (k = 0 ∧ (l = 0 ∨ after = [])) ∨
        ((∀ x ∈ (piece ++ after).take (piece.length + k), blank x) ∧
          ((piece ++ after).drop k).take piece.length = piece) := by
  rw [trim_drop_iff, List.take_length_add_append]
  constructor
  · rintro ⟨same, blanks⟩
    rcases Nat.eq_zero_or_pos k with rfl | pos
    · refine .inl ⟨rfl, ?_⟩
      rw [List.drop_zero, List.take_length_add_append, List.append_right_eq_self,
        List.take_eq_nil_iff] at same
      exact same
    · have first : ∀ x ∈ after.take k, blank x :=
        fun x hx => blanks x (List.take_subset_take_left after (Nat.le_add_right k l) hx)
      have blank_piece := blank_of_shifted same pos first
      rw [solid blank_piece, Nat.add_zero] at same
      exact .inr ⟨List.forall_mem_append.mpr ⟨blank_piece, first⟩, same⟩
  · rintro (⟨rfl, short⟩ | ⟨blanks, same⟩)
    · rw [List.drop_zero, List.take_length_add_append]
      rcases short with rfl | rfl <;> simp
    · rw [List.forall_mem_append] at blanks
      rw [solid blanks.1, Nat.add_zero, Nat.add_zero]
      exact ⟨same, blanks.2⟩

end Shifted

end Trim
