import Mathlib.Data.List.Induction
import Mathlib.Data.List.ReduceOption
import Mathlib.Algebra.BigOperators.Group.List.Basic
import Mathlib.Tactic.TypeStar

/-! A running figure that is kept under a key. A column has a place for every round, and
the value that the round supplied for the key, if it did. The figure is brought up to
date with each value and with the number of the round, which counts the rounds that
supplied nothing too. -/

namespace Tally

variable {F T : Type*}

/-- The figure behind the column, from `t` after `n` rounds. -/
def tallyFrom (next : ℕ → T → F → T) : ℕ → T → List (Option F) → T
  | _, t, [] => t
  | n, t, none :: column => tallyFrom next (n + 1) t column
  | n, t, some x :: column => tallyFrom next (n + 1) (next (n + 1) t x) column

def tally (next : ℕ → T → F → T) (zero : T) (column : List (Option F)) : T :=
  tallyFrom next 0 zero column

def entry (next : ℕ → T → F → T) (zero : T) (column : List (Option F)) : Option T :=
  if column.reduceOption = [] then none else some (tally next zero column)

variable {next : ℕ → T → F → T} {zero : T}

theorem tallyFrom_append (n : ℕ) (t : T) (column later : List (Option F)) :
    tallyFrom next n t (column ++ later) =
      tallyFrom next (n + column.length) (tallyFrom next n t column) later := by
  induction column generalizing n t with
  | nil => rfl
  | cons value column ih =>
    cases value <;> simp only [List.cons_append, tallyFrom, ih, List.length_cons] <;>
      rw [Nat.add_assoc, Nat.add_comm 1]

theorem tallyFrom_of_omitted {column : List (Option F)} (omitted : column.reduceOption = []) (n : ℕ)
    (t : T) : tallyFrom next n t column = t := by
  induction column generalizing n with
  | nil => rfl
  | cons value column ih =>
    cases value with
    | none => exact ih (by simpa using omitted) (n + 1)
    | some x => simp at omitted

@[simp] theorem tally_nil : tally next zero [] = zero := rfl

theorem tally_concat (column : List (Option F)) (value : Option F) :
    tally next zero (column ++ [value]) =
      value.elim (tally next zero column) (next (column.length + 1) (tally next zero column)) := by
  rw [tally, tallyFrom_append, Nat.zero_add]
  cases value <;> rfl

theorem map_some_reduceOption {column : List (Option F)} (all : ∀ value ∈ column, value.isSome) :
    column.reduceOption.map some = column := by
  induction column with
  | nil => rfl
  | cons value column ih =>
    rw [List.forall_mem_cons] at all
    obtain ⟨x, rfl⟩ := Option.isSome_iff_exists.mp all.1
    rw [List.reduceOption_cons_of_some, List.map_cons, ih all.2]

theorem entry_of_supplied {column : List (Option F)} (supplied : column.reduceOption ≠ []) :
    entry next zero column = some (tally next zero column) := if_neg supplied

theorem entry_getD (column : List (Option F)) :
    (entry next zero column).getD zero = tally next zero column := by
  rw [entry]
  split
  case isTrue omitted => exact (tallyFrom_of_omitted omitted 0 zero).symm
  case isFalse => rfl

theorem entry_concat (column : List (Option F)) (value : Option F) :
    entry next zero (column ++ [value]) =
      value.elim id (fun x t => some (next (column.length + 1) (t.getD zero) x))
        (entry next zero column) := by
  cases value with
  | none =>
    rw [entry, tally_concat]
    simp [List.reduceOption_append, entry]
  | some x =>
    rw [entry_of_supplied (by simp [List.reduceOption_append]), tally_concat]
    simp [entry_getD]

/-! ## Figures that do not look at the number of the round -/

theorem tally_add [AddMonoid F] (column : List (Option F)) :
    tally (fun _ t x => t + x) (0 : F) column = column.reduceOption.sum := by
  induction column using List.reverseRecOn with
  | nil => rfl
  | append_singleton column value ih =>
    rw [tally_concat, ih]
    cases value <;> simp [List.reduceOption_append]

theorem tally_inv {I : T → Prop} (start : I zero) (round : ∀ n t x, I t → I (next (n + 1) t x))
    (column : List (Option F)) : I (tally next zero column) := by
  induction column using List.reverseRecOn with
  | nil => exact start
  | append_singleton column value ih =>
    rw [tally_concat]
    cases value with
    | none => exact ih
    | some x => exact round _ _ x ih

end Tally
