import Mathlib.Data.List.DropRight
import Mathlib.Tactic.TypeStar

/-! Splitting a list at a separator, as the string methods do: at the first
occurrence, at the last, at the first `n`, and into words at runs of blanks. Each
result is characterised by how the pieces make up the list and by which of them are
free of the separator. A separator of several elements is looked for from the end. -/

namespace Split

variable {α : Type*} [DecidableEq α] {c : α}

def first (c : α) : List α → Option (List α × List α)
  | [] => none
  | x :: xs => if x = c then some ([], xs) else (first c xs).map fun p => (x :: p.1, p.2)

def last (c : α) (s : List α) : Option (List α × List α) :=
  (first c s.reverse).map fun p => (p.2.reverse, p.1.reverse)

/-- The pieces between the first `n` occurrences of `c`, and the rest. -/
def upTo (c : α) : (n : ℕ) → List α → List (List α)
  | 0, s => [s]
  | n + 1, s =>
    match first c s with
    | some (piece, rest) => piece :: upTo c n rest
    | none => [s]

theorem first_eq_some_iff {s before after : List α} :
    first c s = some (before, after) ↔ s = before ++ c :: after ∧ c ∉ before := by
  induction s generalizing before with
  | nil => simp [first]
  | cons x xs ih =>
    unfold first
    split_ifs with hx
    · subst hx
      cases before <;> simp_all
    · cases before with
      | nil => simp [hx]
      | cons y ys =>
        have other : c ≠ x := Ne.symm hx
        simp only [Option.map_eq_some_iff, Prod.mk.injEq, List.cons.injEq, List.cons_append,
          List.mem_cons, not_or]
        constructor
        · rintro ⟨⟨a, b⟩, hp, ⟨rfl, rfl⟩, rfl⟩
          obtain ⟨hs, ha⟩ := ih.mp hp
          exact ⟨⟨rfl, hs⟩, other, ha⟩
        · rintro ⟨⟨rfl, hs⟩, -, hys⟩
          exact ⟨(ys, after), ih.mpr ⟨hs, hys⟩, ⟨rfl, rfl⟩, rfl⟩

theorem first_eq_none_iff {s : List α} : first c s = none ↔ c ∉ s := by
  induction s with
  | nil => simp [first]
  | cons x xs ih =>
    unfold first
    split_ifs with hx
    · simp [hx]
    · simp [ih, Ne.symm hx]

theorem last_eq_some_iff {s before after : List α} :
    last c s = some (before, after) ↔ s = before ++ c :: after ∧ c ∉ after := by
  simp only [last, Option.map_eq_some_iff, Prod.exists, Prod.mk.injEq, first_eq_some_iff]
  constructor
  · rintro ⟨a, b, ⟨hs, ha⟩, rfl, rfl⟩
    refine ⟨?_, by simpa using ha⟩
    rw [← List.reverse_reverse s, hs]
    simp
  · rintro ⟨rfl, hafter⟩
    exact ⟨after.reverse, before.reverse, ⟨by simp, by simpa using hafter⟩, by simp, by simp⟩

theorem upTo_eq_cons_cons_iff {n : ℕ} {s piece next : List α} {pieces : List (List α)} :
    upTo c (n + 1) s = piece :: next :: pieces ↔
      ∃ rest, (s = piece ++ c :: rest ∧ c ∉ piece) ∧ upTo c n rest = next :: pieces := by
  rw [upTo]
  cases h : first c s with
  | none =>
    have absent := first_eq_none_iff.mp h
    simp only [List.cons.injEq, reduceCtorEq, and_false, false_iff, not_exists, not_and]
    rintro rest ⟨rfl, -⟩
    simp at absent
  | some p =>
    obtain ⟨a, b⟩ := p
    rw [first_eq_some_iff] at h
    simp only [List.cons.injEq]
    constructor
    · rintro ⟨rfl, hrest⟩
      exact ⟨b, h, hrest⟩
    · rintro ⟨rest, hs, hrest⟩
      have same : some (a, b) = some (piece, rest) :=
        (first_eq_some_iff.mpr h).symm.trans (first_eq_some_iff.mpr hs)
      cases same
      exact ⟨rfl, hrest⟩

@[simp] theorem upTo_zero (s : List α) : upTo c 0 s = [s] := rfl

theorem solid_of_not_mem {s : List α} (h : c ∉ s) : ∀ x ∈ s, (x == c) = false := by
  intro x hx
  rw [beq_eq_false_iff_ne]
  rintro rfl
  exact h hx

theorem splitOn_of_not_mem {s : List α} (h : c ∉ s) : s.splitOn c = [s] := by
  rw [List.splitOn_eq_splitOnP]
  exact List.splitOnP_eq_singleton (solid_of_not_mem h)

theorem splitOn_append_cons {before : List α} (h : c ∉ before) (after : List α) :
    (before ++ c :: after).splitOn c = before :: after.splitOn c := by
  rw [List.splitOn_eq_splitOnP, List.splitOn_eq_splitOnP]
  exact List.splitOnP_append_cons_of_forall_mem (solid_of_not_mem h) c (beq_self_eq_true c) after

/-! ## Words -/

section Words

variable {α : Type*} {blank : α → Bool} {s w : List α}

def words (blank : α → Bool) (s : List α) : List (List α) :=
  (s.splitOnP blank).filter fun piece => !piece.isEmpty

/-- Only blanks follow the word, and a blank, if anything, precedes it. -/
structure LastWord (blank : α → Bool) (s w : List α) : Prop where
  nonempty : w ≠ []
  solid : ∀ c ∈ w, blank c = false
  placed : ∃ before after, s = before ++ (w ++ after) ∧ (∀ c ∈ after, blank c) ∧
    ∀ c ∈ before.getLast?, blank c

theorem words_append_cons (s t : List α) {c : α} (hc : blank c) :
    words blank (s ++ c :: t) = words blank s ++ words blank t := by
  rw [words, List.splitOnP_append_cons s t hc, List.filter_append]
  rfl

theorem words_of_solid (nonempty : w ≠ []) (solid : ∀ c ∈ w, blank c = false) :
    words blank w = [w] := by
  rw [words, List.splitOnP_eq_singleton solid]
  simp [nonempty]

theorem words_of_blank (h : ∀ c ∈ s, blank c) : words blank s = [] := by
  induction s with
  | nil => rfl
  | cons c s ih =>
    rw [List.forall_mem_cons] at h
    rw [← List.nil_append (c :: s), words_append_cons [] s h.1, ih h.2]
    rfl

theorem solid_of_mem_words (h : w ∈ words blank s) : ∀ c ∈ w, blank c = false := by
  have piece : w ∈ s.splitOnP blank := (List.mem_filter.mp h).1
  clear h
  induction s generalizing w with
  | nil =>
    rw [List.splitOnP_nil, List.mem_singleton] at piece
    subst piece
    nofun
  | cons x s ih =>
    rw [List.splitOnP_cons_eq_if_modifyHead] at piece
    split_ifs at piece with hx
    · rcases List.mem_cons.mp piece with rfl | rest
      · nofun
      · exact ih rest
    · cases split : s.splitOnP blank with
      | nil => exact absurd split (List.splitOnP_ne_nil blank s)
      | cons first pieces =>
        rw [split] at piece ih
        rcases List.mem_cons.mp piece with rfl | rest
        · rw [List.forall_mem_cons]
          exact ⟨Bool.eq_false_iff.mpr hx, ih List.mem_cons_self⟩
        · exact ih (List.mem_cons_of_mem first rest)

theorem LastWord.getLast?_words (h : LastWord blank s w) : (words blank s).getLast? = some w := by
  obtain ⟨before, after, rfl, hafter, hbefore⟩ := h.placed
  have tail : words blank (w ++ after) = [w] := by
    cases after with
    | nil => rw [List.append_nil, words_of_solid h.nonempty h.solid]
    | cons c after =>
      rw [List.forall_mem_cons] at hafter
      rw [words_append_cons w after hafter.1, words_of_solid h.nonempty h.solid,
        words_of_blank hafter.2, List.append_nil]
  cases before using List.reverseRecOn with
  | nil => rw [List.nil_append, tail, List.getLast?_singleton]
  | append_singleton before c =>
    have hc : blank c := hbefore c (by simp)
    rw [List.append_assoc, List.singleton_append, words_append_cons before _ hc, tail,
      List.getLast?_concat]

theorem blank_or_lastWord (blank : α → Bool) (s : List α) :
    (∀ c ∈ s, blank c) ∨ ∃ w, LastWord blank s w := by
  by_cases hrest : s.rdropWhile blank = []
  · exact .inl (List.rdropWhile_eq_nil_iff.mp hrest)
  · right
    set rest := s.rdropWhile blank
    refine ⟨rest.rtakeWhile (! blank ·), fun none => ?_, fun c hc => ?_,
      rest.rdropWhile (! blank ·), s.rtakeWhile blank, ?_, fun c => List.mem_rtakeWhile_imp,
      fun c hc => ?_⟩
    · have solid := List.rdropWhile_last_not blank s hrest
      exact List.rtakeWhile_eq_nil_iff.mp none hrest (by simpa using solid)
    · simpa using List.mem_rtakeWhile_imp hc
    · rw [← List.append_assoc, List.rdropWhile_append_rtakeWhile,
        List.rdropWhile_append_rtakeWhile]
    · obtain ⟨some, rfl⟩ := List.mem_getLast?_eq_getLast hc
      simpa using List.rdropWhile_last_not (! blank ·) rest some

theorem getLast?_words_eq_some_iff : (words blank s).getLast? = some w ↔ LastWord blank s w := by
  refine ⟨fun h => ?_, LastWord.getLast?_words⟩
  rcases blank_or_lastWord blank s with allBlank | ⟨w', hw'⟩
  · simp [words_of_blank allBlank] at h
  · rw [hw'.getLast?_words, Option.some.injEq] at h
    exact h ▸ hw'

end Words

/-! ## Separators of several elements -/

def lastAt (p : List α) : List α → Option ℕ
  | [] => if p = [] then some 0 else none
  | x :: xs =>
    match lastAt p xs with
    | some i => some (i + 1)
    | none => if p.isPrefixOf (x :: xs) then some 0 else none

def Occurs (p s : List α) (i : ℕ) : Prop :=
  ∃ before after, s = before ++ p ++ after ∧ before.length = i

def LastOccurs (p s : List α) (i : ℕ) : Prop := Occurs p s i ∧ ∀ j, Occurs p s j → j ≤ i

omit [DecidableEq α] in
theorem occurs_nil_iff {p : List α} {i : ℕ} : Occurs p [] i ↔ i = 0 ∧ p = [] := by
  constructor
  · rintro ⟨before, after, split, rfl⟩
    obtain ⟨front, -⟩ := List.append_eq_nil_iff.mp split.symm
    obtain ⟨rfl, rfl⟩ := List.append_eq_nil_iff.mp front
    exact ⟨rfl, rfl⟩
  · rintro ⟨rfl, rfl⟩
    exact ⟨[], [], rfl, rfl⟩

omit [DecidableEq α] in
theorem occurs_cons_iff {p xs : List α} {x : α} {i : ℕ} :
    Occurs p (x :: xs) i ↔ (i = 0 ∧ p <+: x :: xs) ∨ ∃ j, i = j + 1 ∧ Occurs p xs j := by
  constructor
  · rintro ⟨before, after, split, rfl⟩
    rcases before with _ | ⟨y, before⟩
    · exact .inl ⟨rfl, after, split.symm⟩
    · obtain ⟨rfl, rest⟩ := List.cons.inj split
      exact .inr ⟨_, rfl, before, after, rest, rfl⟩
  · rintro (⟨rfl, after, split⟩ | ⟨j, rfl, before, after, rfl, rfl⟩)
    · exact ⟨[], after, split.symm, rfl⟩
    · exact ⟨x :: before, after, rfl, rfl⟩

omit [DecidableEq α] in
theorem Occurs.add_length_le {p s : List α} {i : ℕ} (h : Occurs p s i) :
    i + p.length ≤ s.length := by
  obtain ⟨before, after, rfl, rfl⟩ := h
  simp

omit [DecidableEq α] in
theorem LastOccurs.unique {p s : List α} {i j : ℕ} (hi : LastOccurs p s i)
    (hj : LastOccurs p s j) : i = j :=
  Nat.le_antisymm (hj.2 i hi.1) (hi.2 j hj.1)

theorem lastAt_eq_none_iff {p s : List α} : lastAt p s = none ↔ ∀ i, ¬Occurs p s i := by
  induction s with
  | nil => simp [lastAt, occurs_nil_iff]
  | cons x xs ih =>
    unfold lastAt
    cases hrest : lastAt p xs with
    | some i =>
      rw [hrest] at ih
      have found : ∃ j, Occurs p xs j := by simpa using ih
      obtain ⟨j, hj⟩ := found
      exact iff_of_false (by simp) fun none =>
        none (j + 1) (occurs_cons_iff.mpr (.inr ⟨j, rfl, hj⟩))
    | none =>
      have absent := ih.mp hrest
      by_cases here : p.isPrefixOf (x :: xs)
      · simp only [here, if_true, reduceCtorEq, false_iff, not_forall, not_not]
        exact ⟨0, occurs_cons_iff.mpr (.inl ⟨rfl, List.isPrefixOf_iff_prefix.mp here⟩)⟩
      · have elsewhere : ∀ i, ¬Occurs p (x :: xs) i := by
          intro i h
          rcases occurs_cons_iff.mp h with ⟨-, pre⟩ | ⟨j, -, hj⟩
          · exact here (List.isPrefixOf_iff_prefix.mpr pre)
          · exact absent j hj
        simpa [here] using elsewhere

theorem lastOccurs_of_lastAt {p s : List α} {i : ℕ} (h : lastAt p s = some i) :
    LastOccurs p s i := by
  induction s generalizing i with
  | nil =>
    unfold lastAt at h
    split_ifs at h with none
    cases h
    exact ⟨occurs_nil_iff.mpr ⟨rfl, none⟩, fun j hj => (occurs_nil_iff.mp hj).1.le⟩
  | cons x xs ih =>
    unfold lastAt at h
    cases hrest : lastAt p xs with
    | some j =>
      simp only [hrest, Option.some.injEq] at h
      subst h
      obtain ⟨occurs, last⟩ := ih hrest
      refine ⟨occurs_cons_iff.mpr (.inr ⟨j, rfl, occurs⟩), fun k hk => ?_⟩
      rcases occurs_cons_iff.mp hk with ⟨rfl, -⟩ | ⟨l, rfl, hl⟩
      · exact Nat.zero_le _
      · exact Nat.succ_le_succ (last l hl)
    | none =>
      simp only [hrest] at h
      split_ifs at h with here
      cases h
      refine ⟨occurs_cons_iff.mpr (.inl ⟨rfl, List.isPrefixOf_iff_prefix.mp here⟩),
        fun k hk => ?_⟩
      rcases occurs_cons_iff.mp hk with ⟨rfl, -⟩ | ⟨l, rfl, hl⟩
      · exact le_rfl
      · exact absurd hl (lastAt_eq_none_iff.mp hrest l)

theorem lastAt_eq_some_iff {p s : List α} {i : ℕ} : lastAt p s = some i ↔ LastOccurs p s i := by
  refine ⟨lastOccurs_of_lastAt, fun h => ?_⟩
  cases found : lastAt p s with
  | none => exact absurd h.1 (lastAt_eq_none_iff.mp found i)
  | some j => rw [(lastOccurs_of_lastAt found).unique h]

end Split
