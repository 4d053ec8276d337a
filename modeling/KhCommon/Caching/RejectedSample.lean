import KhCommon.Caching.Aggregator

/-! An update with a value that is not a number raises `TypeError` at the first such value,
in the order in which the dictionary is gone through. What comes before it has been
accepted by then, with the count, and its own key has been read. -/

namespace KhCommon.Caching

open KeyedLoop

variable {A : Type*}

/-! ## The key of the rejected value, which reading it stores -/

def SumAggregator.touch (k : String) (s : SumAggregator ℚ) : SumAggregator ℚ :=
  ⟨(s.data.getDefault 0 k).2⟩

def AverageAggregator.touch (k : String) (s : AverageAggregator) : AverageAggregator :=
  { s with data := (s.data.getDefault 0 k).2 }

def StandardDeviationAggregator.touch (k : String) (s : StandardDeviationAggregator) :
    StandardDeviationAggregator :=
  { s with avg := (s.avg.getDefault 0 k).2 }

theorem loop_rejected {S : Type*} {body : String → Arg ℚ A → S → Except AggregatorError Unit × S}
    {touch : String → S → S} (num : ∀ k x s, (body k (.num x) s).1 = .ok ())
    (other : ∀ k a s, body k (.other a) s = (.error .typeError, touch k s))
    {front : List (String × Arg ℚ A)} (numeric : ∀ e ∈ front, e.2.IsNum) (k : String) (a : A)
    (back : List (String × Arg ℚ A)) (s : S) :
    ∃ s', loop body front s = (.ok (), s') ∧
      loop body (front ++ (k, .other a) :: back) s = (.error .typeError, touch k s') := by
  obtain ⟨s', done⟩ := loop_returns (G := Arg.IsNum)
    (fun k v s good => by obtain ⟨x, rfl⟩ := good; exact num k x s) numeric s
  exact ⟨s', done, (loop_append done _).trans (loop_raise (other k a s') back)⟩

/-- The state after a rejected update is that after the entries before the rejected one, as an
update of their own, with an entry for its key. -/
theorem update_rejected {data : OrderedDict String (Arg ℚ A)} (rejected : ¬Numeric data) :
    ∃ (front : OrderedDict String (Arg ℚ A)) (k : String) (a : A) (back : _),
      data.items = front.items ++ (k, .other a) :: back ∧ Numeric front ∧
      (∀ s : SumAggregator ℚ, ∃ s', s.update front = (.ok (), s') ∧
        s.update data = (.error .typeError, s'.touch k)) ∧
      (∀ s : AverageAggregator, ∃ s', s.update front = (.ok (), s') ∧
        s.update data = (.error .typeError, s'.touch k)) ∧
      ∀ s : StandardDeviationAggregator, ∃ s', s.update front = (.ok (), s') ∧
        s.update data = (.error .typeError, s'.touch k) := by
  have bad : ∃ e ∈ data.items, ¬e.2.IsNum := by
    simpa only [Numeric, not_forall, exists_prop] using rejected
  obtain ⟨front, k, v, back, items, numeric, other⟩ := exists_first bad
  obtain ⟨a, rfl⟩ : ∃ a, v = .other a := by
    cases v with
    | num x => exact absurd ⟨x, rfl⟩ other
    | other a => exact ⟨a, rfl⟩
  let before : OrderedDict String (Arg ℚ A) :=
    data.restrict front (items ▸ List.sublist_append_left front _)
  refine ⟨before, k, a, back, items, numeric, fun s => ?_, fun s => ?_, fun s => ?_⟩
  · rw [SumAggregator.update, SumAggregator.update, items]
    exact loop_rejected (fun _ _ _ => rfl) (fun _ _ _ => rfl) numeric k a back s
  · rw [AverageAggregator.update, AverageAggregator.update, items]
    exact loop_rejected (fun _ _ _ => rfl) (fun _ _ _ => rfl) numeric k a back _
  · rw [StandardDeviationAggregator.update, StandardDeviationAggregator.update, items]
    exact loop_rejected (fun _ _ _ => rfl) (fun _ _ _ => rfl) numeric k a back _

theorem update_rejected_second :
    let data : OrderedDict String (Arg ℚ Unit) := ⟨[("a", .num 1), ("b", .other ())], by decide⟩
    ∃ k s', AverageAggregator.update data .init =
      (.error .typeError, AverageAggregator.touch k s') := by
  intro data
  have rejected : ¬Numeric data := by decide
  obtain ⟨front, k, a, back, -, -, -, average, -⟩ := update_rejected rejected
  obtain ⟨s', -, rejected⟩ := average .init
  exact ⟨k, s', rejected⟩

/-- The value before the rejected one is in the figures, and the update is counted. -/
theorem update_not_restored :
    let data : OrderedDict String (Arg ℚ Unit) := ⟨[("a", .num 1), ("b", .other ())], by decide⟩
    let sum := SumAggregator.update data (.init : SumAggregator ℚ)
    let average := AverageAggregator.update data .init
    let deviation := StandardDeviationAggregator.update data .init
    (sum.1 = .error .typeError ∧ sum.2 ≠ .init ∧ sum.2.data.items = [("a", 1), ("b", 0)]) ∧
    (average.1 = .error .typeError ∧ average.2 ≠ .init ∧ average.2.count = 1 ∧
      average.2.data.items = [("a", 1), ("b", 0)]) ∧
    deviation.1 = .error .typeError ∧ deviation.2 ≠ .init ∧ deviation.2.count = 1 ∧
      deviation.2.avg.items = [("a", 1), ("b", 0)] ∧ deviation.2.variance.items = [("a", 0)] := by
  intro data sum average deviation
  have sum_items : sum.2.data.items = [("a", 1), ("b", 0)] := by decide +kernel
  have average_count : average.2.count = 1 := by decide
  have deviation_count : deviation.2.count = 1 := by decide
  refine ⟨⟨rfl, fun same => ?_, sum_items⟩, ⟨rfl, fun same => ?_, average_count, by decide +kernel⟩,
    rfl, fun same => ?_, deviation_count, by decide +kernel, by decide +kernel⟩
  · rw [same] at sum_items
    exact List.cons_ne_nil _ _ sum_items.symm
  · rw [same] at average_count
    exact Nat.zero_ne_one average_count
  · rw [same] at deviation_count
    exact Nat.zero_ne_one deviation_count

end KhCommon.Caching
