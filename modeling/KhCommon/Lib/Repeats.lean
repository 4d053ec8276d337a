import Mathlib.Data.List.Chain
import Mathlib.Data.List.Flatten
import Mathlib.Data.List.Infix
import Mathlib.Data.Nat.Find

/-! Blocks that stand several times in a row. `shorten` goes through a list from the
left: at the first place where a block stands more than `keep` times, it takes the
shortest such block, leaves `keep` copies of it and goes on behind all of them.
This never joins what was apart, and it changes a list exactly if there is
something to shorten; but the result may have repetitions that the list had not. -/

namespace Repeats

variable {α : Type*}

def power (block : List α) (n : ℕ) : List α := (List.replicate n block).flatten

@[simp] theorem power_zero (block : List α) : power block 0 = [] := rfl

theorem power_succ (block : List α) (n : ℕ) : power block (n + 1) = block ++ power block n := by
  rw [power, List.replicate_succ, List.flatten_cons, power]

theorem power_add (block : List α) (m n : ℕ) :
    power block (m + n) = power block m ++ power block n := by
  rw [power, List.replicate_add, List.flatten_append, power, power]

theorem power_le (block : List α) {m n : ℕ} (h : m ≤ n) : power block m <+: power block n := by
  obtain ⟨k, rfl⟩ := Nat.exists_eq_add_of_le h
  rw [power_add]
  exact List.prefix_append _ _

theorem length_power (block : List α) (n : ℕ) : (power block n).length = n * block.length := by
  simp [power]

theorem getLast?_power {block : List α} (nonempty : block ≠ []) {n : ℕ} (pos : 0 < n) :
    (power block n).getLast? = block.getLast? := by
  obtain ⟨m, rfl⟩ := Nat.exists_eq_add_one_of_ne_zero (Nat.pos_iff_ne_zero.mp pos)
  rw [power_add, power_succ, power_zero, List.append_nil, List.getLast?_append_of_ne_nil _ nonempty]

theorem head?_power {block : List α} (nonempty : block ≠ []) {n : ℕ} (pos : 0 < n) :
    (power block n).head? = block.head? := by
  obtain ⟨m, rfl⟩ := Nat.exists_eq_add_one_of_ne_zero (Nat.pos_iff_ne_zero.mp pos)
  rw [power_succ, List.head?_append_of_ne_nil _ nonempty]

/-- No block of word characters stands anywhere more than `keep` times in a row. -/
def Free (word : α → Bool) (keep : ℕ) (s : List α) : Prop :=
  ∀ block ≠ [], (∀ c ∈ block, word c) → ¬power block (keep + 1) <:+: s

theorem free_nil (word : α → Bool) (keep : ℕ) : Free word keep [] := by
  intro block nonempty _ inside
  rw [power_succ, List.infix_nil, List.append_eq_nil_iff] at inside
  exact nonempty inside.1

variable [DecidableEq α]

/-- How often the block stands in front, and what follows. -/
def copies (block : List α) : (fuel : ℕ) → List α → ℕ × List α
  | 0, s => (0, s)
  | fuel + 1, s =>
    if block <+: s then
      let (n, rest) := copies block fuel (s.drop block.length)
      (n + 1, rest)
    else (0, s)

/-- The shortest block of word characters that stands in front more than `keep` times. -/
def blockAt (word : α → Bool) (keep : ℕ) (s : List α) : Option (List α) :=
  ((List.range' 1 s.length).map s.take).find? fun block =>
    block.all word && keep < (copies block s.length s).1

/-- One pass over the list, which is no longer than `fuel`. -/
def shortenFrom (word : α → Bool) (keep : ℕ) : (fuel : ℕ) → List α → List α
  | 0, _ => []
  | _ + 1, [] => []
  | fuel + 1, c :: s =>
    match blockAt word keep (c :: s) with
    | some block =>
      power block keep ++ shortenFrom word keep fuel (copies block (s.length + 1) (c :: s)).2
    | none => c :: shortenFrom word keep fuel s

def shorten (word : α → Bool) (keep : ℕ) (s : List α) : List α :=
  shortenFrom word keep s.length s

/-! ## What is found -/

variable {word : α → Bool} {keep : ℕ} {block s t : List α}

theorem copies_split (block : List α) (fuel : ℕ) (s : List α) :
    power block (copies block fuel s).1 ++ (copies block fuel s).2 = s := by
  induction fuel generalizing s with
  | zero => rfl
  | succ fuel ih =>
    rw [copies]
    split_ifs with front
    · obtain ⟨rest, rfl⟩ := front
      rw [List.drop_left]
      dsimp only
      rw [power_succ, List.append_assoc, ih]
    · rfl

theorem le_copies_iff (nonempty : block ≠ []) {fuel m : ℕ} (enough : s.length ≤ fuel) :
    m ≤ (copies block fuel s).1 ↔ power block m <+: s := by
  have length := List.length_pos_iff.mpr nonempty
  induction fuel generalizing s m with
  | zero =>
    obtain rfl := List.length_eq_zero_iff.mp (Nat.le_zero.mp enough)
    rw [List.prefix_nil, copies, ← List.length_eq_zero_iff, length_power, Nat.mul_eq_zero,
      Nat.le_zero]
    exact (or_iff_left length.ne').symm
  | succ fuel ih =>
    rw [copies]
    cases m with
    | zero => simp
    | succ m =>
      rw [power_succ]
      split_ifs with front
      · obtain ⟨rest, rfl⟩ := front
        rw [List.length_append] at enough
        rw [List.drop_left, List.prefix_append_right_inj]
        have behind : m ≤ (copies block fuel rest).1 ↔ power block m <+: rest := ih (by omega)
        exact Nat.add_le_add_iff_right.trans behind
      · refine iff_of_false (Nat.not_succ_le_zero m) fun h => front ?_
        exact (List.prefix_append _ _).trans h

omit [DecidableEq α] in
theorem take_ne_nil {k : ℕ} (hk : k ∈ List.range' 1 s.length) : s.take k ≠ [] := by
  rw [List.mem_range'_1] at hk
  rw [ne_eq, List.take_eq_nil_iff]
  rintro (rfl | rfl)
  · omega
  · rw [List.length_nil] at hk
    omega

theorem blockAt_eq_some (h : blockAt word keep s = some block) :
    block ≠ [] ∧ (∀ c ∈ block, word c) ∧ ∃ n, keep < n ∧
      s = power block n ++ (copies block s.length s).2 := by
  rw [blockAt] at h
  have found := List.find?_some h
  obtain ⟨k, hk, rfl⟩ := List.mem_map.mp (List.mem_of_find?_eq_some h)
  rw [Bool.and_eq_true, List.all_eq_true, decide_eq_true_eq] at found
  exact ⟨take_ne_nil hk, found.1, _, found.2, (copies_split _ _ s).symm⟩

theorem blockAt_eq_none_iff : blockAt word keep s = none ↔
    ∀ block ≠ [], (∀ c ∈ block, word c) → ¬power block (keep + 1) <+: s := by
  rw [blockAt, List.find?_eq_none]
  constructor
  · intro none block nonempty words front
    have first : block <+: s := by
      rw [power_succ] at front
      exact (List.prefix_append _ _).trans front
    have length := first.length_le
    have pos := List.length_pos_iff.mpr nonempty
    refine none block (List.mem_map.mpr ⟨block.length, ?_, ?_⟩) ?_
    · rw [List.mem_range'_1]
      omega
    · exact (List.prefix_iff_eq_take.mp first).symm
    · rw [Bool.and_eq_true, List.all_eq_true, decide_eq_true_eq]
      exact ⟨words, (le_copies_iff nonempty le_rfl).mpr front⟩
  · intro free block mem found
    obtain ⟨k, hk, rfl⟩ := List.mem_map.mp mem
    rw [Bool.and_eq_true, List.all_eq_true, decide_eq_true_eq] at found
    have nonempty := take_ne_nil hk
    exact free _ nonempty found.1 ((le_copies_iff nonempty le_rfl).mp found.2)

/-! ## What a pass does -/

/-- The pass as a relation: it leaves an element where nothing begins that is repeated too
often, and what is repeated too often it cuts down to `keep` copies. -/
inductive Shortens (word : α → Bool) (keep : ℕ) : List α → List α → Prop
  | nil : Shortens word keep [] []
  | leave {c s t} (none : blockAt word keep (c :: s) = none) (rest : Shortens word keep s t) :
      Shortens word keep (c :: s) (c :: t)
  | cut {block n s t} (nonempty : block ≠ []) (words : ∀ c ∈ block, word c) (more : keep < n)
      (rest : Shortens word keep s t) :
      Shortens word keep (power block n ++ s) (power block keep ++ t)

theorem shortenFrom_shortens {fuel : ℕ} (enough : s.length ≤ fuel) :
    Shortens word keep s (shortenFrom word keep fuel s) := by
  induction fuel generalizing s with
  | zero =>
    obtain rfl := List.length_eq_zero_iff.mp (Nat.le_zero.mp enough)
    exact .nil
  | succ fuel ih =>
    cases s with
    | nil => exact .nil
    | cons c s =>
      rw [List.length_cons, Nat.add_le_add_iff_right] at enough
      rw [shortenFrom]
      cases found : blockAt word keep (c :: s) with
      | none => exact .leave found (ih enough)
      | some block =>
        obtain ⟨nonempty, words, n, more, split⟩ := blockAt_eq_some found
        rw [List.length_cons] at split
        dsimp only
        generalize (copies block (s.length + 1) (c :: s)).2 = behind at split ⊢
        have length := congrArg List.length split
        rw [List.length_append, length_power, List.length_cons] at length
        have taken : 1 ≤ n * block.length :=
          Nat.mul_pos (Nat.zero_lt_of_lt more) (List.length_pos_iff.mpr nonempty)
        rw [split]
        exact .cut nonempty words more (ih (by omega))

theorem shorten_shortens (word : α → Bool) (keep : ℕ) (s : List α) :
    Shortens word keep s (shorten word keep s) :=
  shortenFrom_shortens (Nat.le_refl _)

theorem free_cons_iff {c : α} :
    Free word keep (c :: s) ↔ blockAt word keep (c :: s) = none ∧ Free word keep s := by
  simp only [Free, blockAt_eq_none_iff, List.infix_cons_iff, not_or]
  constructor
  · intro free
    exact ⟨fun b h h' => (free b h h').1, fun b h h' => (free b h h').2⟩
  · rintro ⟨front, behind⟩ b h h'
    exact ⟨front b h h', behind b h h'⟩

namespace Shortens

theorem length_le (h : Shortens word keep s t) : t.length ≤ s.length := by
  induction h with
  | nil => exact Nat.le_refl _
  | leave none rest ih => exact Nat.succ_le_succ ih
  | @cut block n s t nonempty words more rest ih =>
    rw [List.length_append, List.length_append, length_power, length_power]
    exact Nat.add_le_add (Nat.mul_le_mul_right _ more.le) ih

theorem length_cut_lt {n : ℕ} (nonempty : block ≠ []) (more : keep < n)
    (rest : Shortens word keep s t) :
    (power block keep ++ t).length < (power block n ++ s).length := by
  rw [List.length_append, List.length_append, length_power, length_power]
  have fewer : keep * block.length < n * block.length :=
    Nat.mul_lt_mul_of_pos_right more (List.length_pos_iff.mpr nonempty)
  exact Nat.add_lt_add_of_lt_of_le fewer rest.length_le

theorem eq_iff_free (h : Shortens word keep s t) : t = s ↔ Free word keep s := by
  induction h with
  | nil => exact iff_of_true rfl (free_nil word keep)
  | leave none rest ih =>
    rw [List.cons.injEq, free_cons_iff, ih, and_iff_right rfl, and_iff_right none]
  | @cut block n s t nonempty words more rest ih =>
    refine iff_of_false (fun eq => ?_) (fun free => free block nonempty words ?_)
    · exact (length_cut_lt nonempty more rest).ne (congrArg List.length eq)
    · exact ((power_le block more).trans (List.prefix_append _ _)).isInfix

theorem eq_or_length_lt (h : Shortens word keep s t) : t = s ∨ t.length < s.length := by
  induction h with
  | nil => exact .inl rfl
  | leave none rest ih => exact ih.imp (congrArg _) Nat.succ_lt_succ
  | cut nonempty words more rest ih => exact .inr (length_cut_lt nonempty more rest)

theorem mem {c : α} (h : Shortens word keep s t) (hc : c ∈ t) : c ∈ s := by
  induction h with
  | nil => exact hc
  | leave none rest ih => exact List.mem_cons.mpr ((List.mem_cons.mp hc).imp id ih)
  | @cut block n s t nonempty words more rest ih =>
    have fewer := (power_le block more.le).subset
    exact List.mem_append.mpr ((List.mem_append.mp hc).imp (fun hc => fewer hc) ih)

variable (pos : 0 < keep)
include pos

theorem head?_eq (h : Shortens word keep s t) : t.head? = s.head? := by
  induction h with
  | nil => rfl
  | leave none rest ih => rfl
  | @cut block n s t nonempty words more rest ih =>
    rw [List.head?_append, List.head?_append, head?_power nonempty pos,
      head?_power nonempty (pos.trans more), ih]

theorem getLast?_eq (h : Shortens word keep s t) : t.getLast? = s.getLast? := by
  induction h with
  | nil => rfl
  | leave none rest ih => rw [List.getLast?_cons, List.getLast?_cons, ih]
  | @cut block n s t nonempty words more rest ih =>
    rw [List.getLast?_append, List.getLast?_append, getLast?_power nonempty pos,
      getLast?_power nonempty (pos.trans more), ih]

theorem isChain {R : α → α → Prop} (h : Shortens word keep s t) (chain : s.IsChain R) :
    t.IsChain R := by
  induction h with
  | nil => exact chain
  | leave none rest ih =>
    rw [List.isChain_cons] at chain ⊢
    rw [rest.head?_eq pos]
    exact ⟨chain.1, ih chain.2⟩
  | @cut block n s t nonempty words more rest ih =>
    rw [List.isChain_append, getLast?_power nonempty (pos.trans more)] at chain
    rw [List.isChain_append, getLast?_power nonempty pos, rest.head?_eq pos]
    obtain ⟨cut, split⟩ := power_le block more.le
    have front := chain.1
    rw [← split] at front
    exact ⟨front.left_of_append, ih chain.2.1, chain.2.2⟩

end Shortens

theorem shorten_eq_iff : shorten word keep s = s ↔ Free word keep s :=
  (shorten_shortens word keep s).eq_iff_free

theorem exists_iterate_free (word : α → Bool) (keep : ℕ) (s : List α) :
    ∃ n ≤ s.length, Free word keep ((shorten word keep)^[n] s) := by
  induction hn : s.length using Nat.strong_induction_on generalizing s with
  | _ k ih =>
    subst hn
    rcases (shorten_shortens word keep s).eq_or_length_lt with same | shorter
    · exact ⟨0, Nat.zero_le _, shorten_eq_iff.mp same⟩
    · obtain ⟨n, hn, free⟩ := ih _ shorter _ rfl
      exact ⟨n + 1, by omega, free⟩

end Repeats
