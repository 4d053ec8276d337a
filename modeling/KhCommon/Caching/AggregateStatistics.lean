import KhCommon.Caching.Aggregate
import Mathlib.Tactic.Linarith
import Mathlib.Tactic.NormNum

/-! Averages and standard deviations. Both aggregators count the updates once for all
keys, so a mean is the mean of what was supplied for the key as long as no call omits the
key before one that supplies it. A standard deviation needs two calls in its window. -/

namespace KhCommon.Caching

open Machine KeyedLoop Tally Statistics Aggregate

variable {A : Type*} {updates : List (OrderedDict String (Arg ℚ A))}

/-! ## Averages -/

theorem average_figures : Figures (Aggregator.average : Aggregator (Arg ℚ A) ℚ _) Numeric
    AverageAggregator.Holds (fun _ => True)
    fun updates value => ∀ k, value.get? k = entry average 0 (column updates k) where
  init := AverageAggregator.init_holds
  update numeric holds := AverageAggregator.update_holds numeric holds
  result holds _ _ := ⟨_, rfl, holds.data⟩
  fail _ _ bad := absurd trivial bad

/-- The value that the function receives at the end of a window is the mean of what the window
supplied for the key exactly if the values weighted with the biases of their calls cancel. The
biases depend on which calls supply the key, and cancel whatever the values are exactly if no call
supplies it after one that does not. -/
theorem aggregate_average_iff (self : Aggregate) (now : ℚ) (calls : List (Sample (Arg ℚ A)))
    (numbers : ∀ call ∈ calls, self.Numbers call) :
    let average : Aggregator (Arg ℚ A) ℚ AverageAggregator := .average
    List.Forall₂ (fun out window => ∀ calls ∈ window, ∀ k ∉ self.exclusions,
        (self.samples calls k).reduceOption ≠ [] →
          (aggregated? k out = some (mean (self.samples calls k).reduceOption) ↔
            weigh (bias (pattern (self.samples calls k))) (self.samples calls k) = 0))
      (outputs (self.wrapper average) (self.start average now) calls)
      (outputs self.window (now + self.ttl, []) calls) ∧
    ∀ supplied, (∀ column : List (Option ℚ), pattern column = supplied →
      weigh (bias supplied) column = 0) ↔ Early supplied := by
  refine ⟨(outputs_handOver average_figures now numbers).1.imp ?_, fun supplied => ?_⟩
  · rintro out _ handsOver calls rfl k included supplied
    obtain ⟨call, kwargs, -, rfl, args⟩ := handsOver
    rw [aggregated?, args, if_neg included, entry_of_supplied supplied, ← average_eq_mean_iff]
    simp
  · rw [← average_eq_mean_iff_early (F := ℚ)]
    refine forall_congr' fun column => forall_congr' fun same => ?_
    rw [average_eq_mean_iff, same]

/-- The second call supplies a key that the first one omits. -/
theorem aggregate_average_not_mean :
    let self : Aggregate := ⟨10, ["self"], ["a", "b"]⟩
    let order : SetOrder := ⟨id, fun keys => .refl keys⟩
    let calls : List (Sample (Arg ℚ Unit)) :=
      [⟨[.num 1], ∅, 1, order⟩, ⟨[.num 1, .num 4], ∅, 20, order⟩]
    let average : Aggregator (Arg ℚ Unit) ℚ AverageAggregator := .average
    outputs self.window (0 + self.ttl, []) calls = [none, some calls] ∧
      (outputs (self.wrapper average) (self.start average 0) calls).map (aggregated? "b") =
        [none, some 2] ∧
      mean (self.samples calls "b").reduceOption = 4 := by
  exact ⟨by norm_num [outputs, Window.step], by decide +kernel, by decide +kernel⟩

theorem aggregate_average_iff_early :
    let self : Aggregate := ⟨10, ["self"], ["a", "b"]⟩
    let order : SetOrder := ⟨id, fun keys => .refl keys⟩
    let calls : List (Sample (Arg ℚ Unit)) :=
      [⟨[.num 1, .num 4], ∅, 1, order⟩, ⟨[.num 1], ∅, 20, order⟩]
    let average : Aggregator (Arg ℚ Unit) ℚ AverageAggregator := .average
    ∃ out ∈ outputs (self.wrapper average) (self.start average 0) calls,
      aggregated? "b" out = some 4 := by
  intro self order calls average
  have numbers : ∀ call ∈ calls, self.Numbers call := by decide
  have means := (aggregate_average_iff self 0 calls numbers).1
  have windows : outputs self.window (0 + self.ttl, []) calls = [none, some calls] := by
    norm_num [outputs, Window.step, self, calls]
  rw [windows] at means
  obtain ⟨_, _, -, others, outs⟩ := List.forall₂_cons_right_iff.mp means
  obtain ⟨out, _, closed, -, rfl⟩ := List.forall₂_cons_right_iff.mp others
  refine ⟨out, outs ▸ by simp, ?_⟩
  have mean_b := (closed calls rfl "b" (by decide) (by decide)).mpr (by decide +kernel)
  exact mean_b.trans (congrArg some (by decide +kernel))

/-! ## Standard deviations -/

/-- The object of a mean and a sum of squared deviations over `n` updates. -/
structure StandardDeviation.Of (n : ℕ) (m : ℚ × ℚ) (value : StandardDeviation) : Prop where
  count : value.count = n
  average : value.average = m.1
  variance : value.variance = m.2 / (n - 1)
  deviation : value.deviation.radicand = value.variance

theorem StandardDeviation.Of.nonneg {n : ℕ} {m : ℚ × ℚ} {value : StandardDeviation}
    (h : value.Of n m) : 0 ≤ value.variance := h.deviation ▸ value.deviation.nonneg

theorem StandardDeviation.init_two {n : ℕ} (two : 2 ≤ n) {m : ℚ × ℚ} (nonneg : 0 ≤ m.2) :
    ∃ value, StandardDeviation.init n m.1 m.2 = .ok value ∧ value.Of n m := by
  have positive : (0 : ℚ) < n - 1 := by
    have : (2 : ℚ) ≤ n := by exact_mod_cast two
    linarith
  have variance : 0 ≤ m.2 / ((n : ℚ) - 1) := div_nonneg nonneg positive.le
  refine ⟨⟨m.1, n, m.2 / (n - 1), ⟨m.2 / (n - 1), variance⟩⟩, ?_, rfl, rfl, rfl, rfl⟩
  have root : sqrt (m.2 / (n - 1)) = .ok ⟨_, variance⟩ := dif_pos variance
  rw [StandardDeviation.init, if_neg positive.ne']
  show (sqrt (m.2 / (n - 1)) >>= _) = _
  rw [root]
  rfl

theorem StandardDeviation.init_one (avg qValue : ℚ) :
    StandardDeviation.init 1 avg qValue = .error .zeroDivisionError := if_pos (by norm_num)

namespace StandardDeviationAggregator

def Sufficient (updates : List (OrderedDict String (Arg ℚ A))) : Prop :=
  2 ≤ updates.length ∨ ∀ k, (column updates k).reduceOption = []

def Results (updates : List (OrderedDict String (Arg ℚ A)))
    (value : OrderedDict String StandardDeviation) : Prop :=
  ∀ k, ((column updates k).reduceOption = [] → value.get? k = none) ∧
    ((column updates k).reduceOption ≠ [] → ∃ deviation, value.get? k = some deviation ∧
      deviation.Of updates.length (tally moments (0, 0) (column updates k)))

theorem Holds.of_mem {s : StandardDeviationAggregator} (h : Holds updates s) {k : String} {avg : ℚ}
    (held : (k, avg) ∈ s.avg.items) : (column updates k).reduceOption ≠ [] ∧
      avg = (tally moments (0, 0) (column updates k)).1 ∧
      s.variance.get? k = some (tally moments (0, 0) (column updates k)).2 := by
  have stored := OrderedDict.get?_eq_some_iff.mpr held
  rw [h.avg, Option.map_eq_some_iff] at stored
  obtain ⟨m, hm, same⟩ := stored
  have supplied : (column updates k).reduceOption ≠ [] := by
    intro omitted
    rw [entry, if_pos omitted] at hm
    simp at hm
  have variance := h.variance k
  rw [entry_of_supplied supplied] at hm variance
  exact ⟨supplied, by rw [Option.some.inj hm, same], variance⟩

theorem Holds.lookup {s : StandardDeviationAggregator} (h : Holds updates s) (k : String) :
    s.avg.items.lookup k = (entry moments (0, 0) (column updates k)).map Prod.fst := h.avg k

theorem result_two {s : StandardDeviationAggregator} (h : Holds updates s)
    (two : 2 ≤ updates.length) :
    ∃ value, s.result = (.ok value, init) ∧ Results updates value := by
  let deviationOf (k : String) (avg : ℚ) : Option StandardDeviation :=
    (StandardDeviation.init s.count avg ((s.variance.get? k).getD 0)).toOption
  have computed {k : String} {avg : ℚ} (held : (k, avg) ∈ s.avg.items) :
      ∃ deviation, StandardDeviation.init s.count avg
          (tally moments (0, 0) (column updates k)).2 = .ok deviation ∧
        deviationOf k avg = some deviation ∧
        deviation.Of updates.length (tally moments (0, 0) (column updates k)) := by
    obtain ⟨-, rfl, squares⟩ := h.of_mem held
    obtain ⟨deviation, built, of⟩ := StandardDeviation.init_two two
      (tally_moments_nonneg (column updates k))
    rw [← h.count] at built
    refine ⟨deviation, built, ?_, of⟩
    simp only [deviationOf, squares, Option.getD_some, built, Except.toOption]
  have round (k : String) (avg : ℚ)
      (t : OrderedDict String ℚ × OrderedDict String StandardDeviation) (ht : t.1 = s.variance)
      (held : (k, avg) ∈ s.avg.items) :
      ∃ t', entryOf s.count k avg t = (.ok (), t') ∧ t'.1 = s.variance ∧
        t'.2.get? k = deviationOf k avg ∧ ∀ k' ≠ k, t'.2.get? k' = t.2.get? k' := by
    obtain ⟨-, -, squares⟩ := h.of_mem held
    obtain ⟨deviation, built, value, -⟩ := computed held
    refine ⟨(s.variance, t.2.assign k deviation), ?_, rfl, ?_, fun k' other => ?_⟩
    · rw [entryOf, ht, OrderedDict.getDefault_of_some squares]
      simp only [built]
    · rw [OrderedDict.get?_assign_self, value]
    · exact OrderedDict.get?_assign_of_ne _ other _
  obtain ⟨t, done, -, after⟩ := loop_view
    (fun (t : OrderedDict String ℚ × OrderedDict String StandardDeviation) k => t.2.get? k)
    (fun k avg _ value => value = deviationOf k avg) round s.avg.nodup (fun e he => he)
    (s := (s.variance, ∅)) rfl
  refine ⟨t.2, by rw [result, done]; rfl, fun k => ⟨fun omitted => ?_, fun supplied => ?_⟩⟩
  · have at_key := after k
    rw [h.lookup, entry, if_pos omitted] at at_key
    exact at_key
  · have lookup := h.lookup k
    have at_key := after k
    rw [entry_of_supplied supplied] at lookup
    rw [lookup] at at_key
    obtain ⟨deviation, -, value, of⟩ := computed (OrderedDict.get?_eq_some_iff.mp lookup)
    exact ⟨deviation, Eq.trans at_key value, of⟩

theorem result_empty {s : StandardDeviationAggregator} (h : Holds updates s)
    (omitted : ∀ k, (column updates k).reduceOption = []) :
    ∃ value, s.result = (.ok value, init) ∧ Results updates value := by
  have empty : s.avg.items = [] := List.eq_nil_iff_forall_not_mem.mpr
    fun e held => (h.of_mem held).1 (omitted e.1)
  refine ⟨∅, by rw [result, empty]; rfl, fun k => ⟨fun _ => rfl, fun supplied => ?_⟩⟩
  exact absurd (omitted k) supplied

theorem result_one {s : StandardDeviationAggregator} (h : Holds updates s)
    (one : updates.length = 1) {k : String} (supplied : (column updates k).reduceOption ≠ []) :
    ∃ s', s.result = (.error .zeroDivisionError, s') := by
  have lookup := h.lookup k
  rw [entry_of_supplied supplied] at lookup
  have held := OrderedDict.get?_eq_some_iff.mp lookup
  cases items : s.avg.items with
  | nil =>
    rw [items] at held
    simp at held
  | cons e rest =>
    have raise : entryOf s.count e.1 e.2 (s.variance, ∅) =
        (.error .zeroDivisionError, (s.variance.getDefault 0 e.1).2, ∅) := by
      simp only [entryOf, h.count, one, StandardDeviation.init_one]
    exact ⟨_, by rw [result, items, loop_raise raise]⟩

end StandardDeviationAggregator

open StandardDeviationAggregator

theorem standardDeviation_figures :
    Figures (Aggregator.standardDeviation : Aggregator (Arg ℚ A) StandardDeviation _) Numeric
      StandardDeviationAggregator.Holds Sufficient Results where
  init := StandardDeviationAggregator.init_holds
  update numeric holds := StandardDeviationAggregator.update_holds numeric holds
  result holds _ sufficient :=
    sufficient.elim (fun two => result_two holds two) fun omitted => result_empty holds omitted
  fail {updates _} holds some_update bad := by
    obtain ⟨few, key⟩ := not_or.mp bad
    obtain ⟨k, supplied⟩ := not_forall.mp key
    have positive := List.length_pos_iff.mpr some_update
    obtain ⟨s', raised⟩ := result_one holds (by omega) supplied
    exact ⟨_, s', raised⟩

theorem isSome_of_numeric {data : OrderedDict String (Arg ℚ A)} (numeric : Numeric data)
    {k : String} : ((data.get? k).bind Arg.num?).isSome ↔ k ∈ data := by
  rw [OrderedDict.mem_iff_get?]
  cases held : data.get? k with
  | none => simp
  | some v =>
    obtain ⟨x, rfl⟩ : v.IsNum := numeric (k, v) (OrderedDict.get?_eq_some_iff.mp held)
    simp [Arg.num?]

/-- The same keys in two updates at least: under every key the number of updates, the mean of the
values and their sample variance, and then the aggregator is as at first. -/
theorem standardDeviation_sampleStatistics (updates : List (OrderedDict String (Arg ℚ A)))
    (two : 2 ≤ updates.length) (numeric : ∀ data ∈ updates, Numeric data)
    (same : ∀ data ∈ updates, ∀ data' ∈ updates, ∀ k, k ∈ data ↔ k ∈ data') :
    let step := fun s data => StandardDeviationAggregator.update (A := A) data s
    (∀ out ∈ outputs step .init updates, out = .ok ()) ∧
      ∃ value, (run step .init updates).result = (.ok value, .init) ∧
        ∀ k, ((∃ data ∈ updates, k ∈ data) → k ∈ value) ∧
          ∀ deviation, value.get? k = some deviation →
            let xs := (column updates k).reduceOption
            xs.length = updates.length ∧ deviation.count = updates.length ∧
              deviation.average = mean xs ∧
              deviation.variance = squares xs / (updates.length - 1) ∧
              0 ≤ deviation.variance ∧ deviation.deviation.radicand = deviation.variance := by
  intro step
  obtain ⟨returned, holds⟩ := standardDeviation_figures.run_holds numeric
  obtain ⟨value, result, values⟩ := result_two holds two
  refine ⟨returned, value, result, fun k => ⟨?_, fun deviation held => ?_⟩⟩
  · rintro ⟨data, hdata, hk⟩
    have supplied : (column updates k).reduceOption ≠ [] := by
      have number := (isSome_of_numeric (numeric data hdata)).mpr hk
      obtain ⟨x, hx⟩ := Option.isSome_iff_exists.mp number
      have sample : some x ∈ column updates k := List.mem_map.mpr ⟨data, hdata, hx⟩
      exact List.ne_nil_of_mem (List.reduceOption_mem_iff.mpr sample)
    obtain ⟨deviation, held, -⟩ := (values k).2 supplied
    exact OrderedDict.mem_iff_get?.mpr ⟨deviation, held⟩
  · intro xs
    have supplied : xs ≠ [] := by
      intro omitted
      rw [(values k).1 omitted] at held
      simp at held
    obtain ⟨x, hx⟩ := List.exists_mem_of_ne_nil _ supplied
    obtain ⟨data, hdata, sample⟩ := List.mem_map.mp (List.reduceOption_mem_iff.mp hx)
    have hk : k ∈ data := (isSome_of_numeric (numeric data hdata)).mp (by rw [sample]; rfl)
    -- one update has the key, so every update has it
    have all : xs.map some = column updates k := by
      refine map_some_reduceOption fun value hvalue => ?_
      obtain ⟨data', hdata', rfl⟩ := List.mem_map.mp hvalue
      exact (isSome_of_numeric (numeric data' hdata')).mpr ((same data hdata data' hdata' k).mp hk)
    have count : xs.length = updates.length := by
      rw [← List.length_map (f := some), all, column, List.length_map]
    obtain ⟨deviation', held', of⟩ := (values k).2 supplied
    obtain rfl : deviation' = deviation := Option.some.inj (held'.symm.trans held)
    rw [← all, tally_moments] at of
    exact ⟨count, of.count, of.average, of.variance, of.nonneg, of.deviation⟩

theorem standardDeviation_sampleStatistics_pair :
    let updates : List (OrderedDict String (Arg ℚ Unit)) :=
      [⟨[("a", .num 1)], by decide⟩, ⟨[("a", .num 3)], by decide⟩]
    let step := fun s data => StandardDeviationAggregator.update data s
    ∃ value, (run step .init updates).result = (.ok value, .init) ∧
      ∀ deviation, value.get? "a" = some deviation → deviation.average = 2 := by
  intro updates step
  have same : ∀ data ∈ updates, ∀ data' ∈ updates, ∀ k, k ∈ data ↔ k ∈ data' := by
    simp [updates, OrderedDict.mem_def]
  obtain ⟨-, value, result, statistics⟩ :=
    standardDeviation_sampleStatistics updates (by decide) (by decide) same
  refine ⟨value, result, fun deviation held => ?_⟩
  obtain ⟨-, -, average, -⟩ := (statistics "a").2 deviation held
  exact average.trans (by decide +kernel)

/-- A call that closes no window returns, and one that does calls the function with a standard
deviation of all the samples of the window under every key that has any. -/
def Reaches (self : Aggregate)
    (out : Handed (Arg ℚ A) StandardDeviation) :
    Option (List (Sample (Arg ℚ A))) → Prop
  | none => out = .ok none
  | some calls => ∃ kwargs, out = .ok (some kwargs) ∧ ∀ k ∉ self.exclusions,
    (self.samples calls k).reduceOption ≠ [] → ∃ deviation : StandardDeviation,
      kwargs.get? k = some (.aggregated deviation) ∧
        deviation.Of calls.length (tally moments (0, 0) (self.samples calls k))

theorem reaches_of_delivers {self : Aggregate}
    {out : Handed (Arg ℚ A) StandardDeviation}
    {window : Option (List (Sample (Arg ℚ A)))} (h : self.Delivers Results out window) :
    Reaches self out window := by
  cases window with
  | none => exact h
  | some calls =>
    obtain ⟨call, value, -, results, rfl⟩ := h
    refine ⟨_, rfl, fun k included supplied => ?_⟩
    have own := (results k).2
    rw [column_data, if_neg included, List.length_map] at own
    obtain ⟨deviation, held, of⟩ := own supplied
    exact ⟨deviation, by rw [get?_pass, held]; rfl, of⟩

/-- No call raises and all samples reach the function, exactly if every window that is closed has
two calls or no sample. -/
theorem aggregate_standardDeviation_iff (self : Aggregate) (now : ℚ)
    (calls : List (Sample (Arg ℚ A))) (numbers : ∀ call ∈ calls, self.Numbers call) :
    let deviation : Aggregator (Arg ℚ A) StandardDeviation _ := .standardDeviation
    List.Forall₂ (Reaches self)
        (outputs (self.wrapper deviation) (self.start deviation now) calls)
        (outputs self.window (now + self.ttl, []) calls) ↔
      ∀ window ∈ outputs self.window (now + self.ttl, []) calls, ∀ calls ∈ window,
        2 ≤ calls.length ∨ ∀ k ∉ self.exclusions, (self.samples calls k).reduceOption = [] := by
  intro deviation
  refine (self.outputs_iff standardDeviation_figures (fun _ => Numbers.data)
    (fun _ _ _ => reaches_of_delivers) (by simp [Reaches]) now numbers).1.trans ?_
  refine forall₂_congr fun window _ => forall₂_congr fun calls _ => ?_
  rw [Sufficient, List.length_map]
  refine or_congr_right (forall_congr' fun k => ?_)
  rw [column_data]
  by_cases excluded : k ∈ self.exclusions
  · simp [excluded, List.reduceOption]
  · simp [excluded]

theorem aggregate_standardDeviation_iff_pair :
    let self : Aggregate := ⟨10, ["self"], ["a"]⟩
    let order : SetOrder := ⟨id, fun keys => .refl keys⟩
    let calls : List (Sample (Arg ℚ Unit)) :=
      [⟨[.num 1], ∅, 1, order⟩, ⟨[.num 3], ∅, 20, order⟩]
    let deviation : Aggregator (Arg ℚ Unit) StandardDeviation _ := .standardDeviation
    List.Forall₂ (Reaches self)
      (outputs (self.wrapper deviation) (self.start deviation 0) calls)
      (outputs self.window (0 + self.ttl, []) calls) := by
  intro self order calls deviation
  have numbers : ∀ call ∈ calls, self.Numbers call := by decide
  refine (aggregate_standardDeviation_iff self 0 calls numbers).mpr ?_
  have windows : outputs self.window (0 + self.ttl, []) calls = [none, some calls] := by
    norm_num [outputs, Window.step, self, calls]
  rw [windows]
  simp [calls]

def errorOf {E α : Type*} : Except E α → Option E
  | .error e => some e
  | .ok _ => none

/-- A call that is alone in its window. -/
theorem aggregate_standardDeviation_raises :
    let self : Aggregate := ⟨10, ["self"], ["a"]⟩
    let order : SetOrder := ⟨id, fun keys => .refl keys⟩
    let calls : List (Sample (Arg ℚ Unit)) := [⟨[.num 1], ∅, 20, order⟩]
    let deviation : Aggregator (Arg ℚ Unit) StandardDeviation _ := .standardDeviation
    let outs := outputs (self.wrapper deviation) (self.start deviation 0) calls
    outs.map errorOf = [some .zeroDivisionError] ∧
      ¬List.Forall₂ (Reaches self) outs (outputs self.window (0 + self.ttl, []) calls) := by
  intro self order calls deviation outs
  have raised : outs.map errorOf = [some .zeroDivisionError] := by decide +kernel
  refine ⟨raised, fun reaches => ?_⟩
  have windows : outputs self.window (0 + self.ttl, []) calls = [some calls] := by
    norm_num [outputs, Window.step, self, calls]
  rw [windows] at reaches
  obtain ⟨out, _, ⟨kwargs, rfl, -⟩, -, all⟩ := List.forall₂_cons_right_iff.mp reaches
  rw [all] at raised
  simp [errorOf] at raised

end KhCommon.Caching
