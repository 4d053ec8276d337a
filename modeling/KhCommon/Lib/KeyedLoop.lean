import KhCommon.Lib.OrderedDict

/-! A loop over the items of a dictionary whose body may raise, and then leaves what
the rounds before it have done. Since the keys are distinct, a body that touches
what belongs to its own key only can be read off key by key, in any order of the
items. -/

namespace KeyedLoop

variable {K V S T E : Type*}

/-- `for k, v in items: body`. -/
def loop (body : K → V → S → Except E Unit × S) : List (K × V) → S → Except E Unit × S
  | [], s => (.ok (), s)
  | (k, v) :: items, s =>
    match body k v s with
    | (.ok (), s) => loop body items s
    | (.error e, s) => (.error e, s)

variable {body : K → V → S → Except E Unit × S}

theorem loop_append {front : List (K × V)} {s s' : S} (done : loop body front s = (.ok (), s'))
    (back : List (K × V)) : loop body (front ++ back) s = loop body back s' := by
  induction front generalizing s with
  | nil =>
    obtain ⟨-, rfl⟩ := Prod.mk.inj done
    rfl
  | cons e front ih =>
    obtain ⟨k, v⟩ := e
    rw [loop] at done
    rw [List.cons_append, loop]
    cases first : body k v s with
    | mk outcome s₁ =>
      rw [first] at done
      cases outcome with
      | ok => exact ih done
      | error e =>
        have raised := congrArg Prod.fst done
        simp at raised

theorem loop_raise {k : K} {v : V} {s s' : S} {e : E} (raise : body k v s = (.error e, s'))
    (back : List (K × V)) : loop body ((k, v) :: back) s = (.error e, s') := by
  rw [loop, raise]

theorem loop_returns {G : V → Prop} (round : ∀ k v s, G v → (body k v s).1 = .ok ())
    {items : List (K × V)} (good : ∀ e ∈ items, G e.2) (s : S) :
    ∃ s', loop body items s = (.ok (), s') := by
  induction items generalizing s with
  | nil => exact ⟨s, rfl⟩
  | cons e items ih =>
    obtain ⟨k, v⟩ := e
    rw [List.forall_mem_cons] at good
    obtain ⟨s', done⟩ := ih good.2 (body k v s).2
    have first : body k v s = (.ok (), (body k v s).2) := Prod.ext (round k v s good.1) rfl
    refine ⟨s', ?_⟩
    rw [loop, first]
    exact done

theorem exists_first {G : V → Prop} {items : List (K × V)} (bad : ∃ e ∈ items, ¬G e.2) :
    ∃ front k v back, items = front ++ (k, v) :: back ∧ (∀ e ∈ front, G e.2) ∧ ¬G v := by
  induction items with
  | nil => simp at bad
  | cons e items ih =>
    by_cases good : G e.2
    · rw [List.exists_mem_cons_iff, or_iff_right (not_not.mpr good)] at bad
      obtain ⟨front, k, v, back, rfl, before, first⟩ := ih bad
      exact ⟨e :: front, k, v, back, rfl, List.forall_mem_cons.mpr ⟨good, before⟩, first⟩
    · exact ⟨[], e.1, e.2, items, rfl, by simp, good⟩

/-- What belongs to a key after the loop, over items with `G`: the rounds keep `I`, and the round
of a key relates what belongs to it before and after by `r` and leaves the other keys alone. -/
theorem loop_view [DecidableEq K] {I : S → Prop} {G : K → V → Prop} (view : S → K → T)
    (r : K → V → T → T → Prop)
    (round : ∀ k v s, I s → G k v → ∃ s', body k v s = (.ok (), s') ∧ I s' ∧
      r k v (view s k) (view s' k) ∧ ∀ k' ≠ k, view s' k' = view s k')
    {items : List (K × V)} (distinct : (items.map Prod.fst).Nodup)
    (good : ∀ e ∈ items, G e.1 e.2) {s : S} (start : I s) :
    ∃ s', loop body items s = (.ok (), s') ∧ I s' ∧
      ∀ k, (items.lookup k).elim (view s' k = view s k) fun v => r k v (view s k) (view s' k) := by
  induction items generalizing s with
  | nil => exact ⟨s, rfl, start, fun _ => rfl⟩
  | cons e items ih =>
    obtain ⟨k, v⟩ := e
    rw [List.map_cons, List.nodup_cons] at distinct
    rw [List.forall_mem_cons] at good
    obtain ⟨s₁, first, kept, own, others⟩ := round k v s start good.1
    obtain ⟨s₂, rest, kept, later⟩ := ih distinct.2 good.2 kept
    refine ⟨s₂, by rw [loop, first]; exact rest, kept, fun k' => ?_⟩
    have at_key := later k'
    rw [List.lookup_cons]
    by_cases same : k' = k
    · subst same
      rw [OrderedDict.lookup_eq_none distinct.1] at at_key
      have untouched : view s₂ k' = view s₁ k' := at_key
      rw [beq_self_eq_true, untouched]
      exact own
    · rw [beq_false_of_ne same, ← others k' same]
      exact at_key

end KeyedLoop
