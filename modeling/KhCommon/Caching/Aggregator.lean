import KhCommon.Lib.KeyedLoop
import KhCommon.Lib.Statistics

/-! `SumAggregator`, `AverageAggregator` and `StandardDeviationAggregator`: what they
hold under a key after any number of updates is the tally of the values supplied for
the key. Numbers are exact. An update may hold something else than a number, and then
raises in the middle of its loop. -/

namespace KhCommon.Caching

open KeyedLoop Tally Statistics

inductive Arg (F A : Type*)
  | num (x : F)
  | other (a : A)
  deriving DecidableEq

def Arg.num? {F A : Type*} : Arg F A → Option F
  | .num x => some x
  | .other _ => none

def Arg.IsNum {F A : Type*} (v : Arg F A) : Prop := ∃ x, v = .num x

instance {F A : Type*} : (v : Arg F A) → Decidable v.IsNum
  | .num x => isTrue ⟨x, rfl⟩
  | .other a => isFalse (by rintro ⟨x, h⟩; cases h)

inductive AggregatorError
  | typeError
  | zeroDivisionError
  | valueError
  deriving DecidableEq

/-- What `Aggregate` uses of an aggregator. A method that raises leaves what it has done. -/
structure Aggregator (V R S : Type*) where
  init : S
  update : OrderedDict String V → S → Except AggregatorError Unit × S
  result : S → Except AggregatorError (OrderedDict String R) × S

variable {F A : Type*}

/-! ## The three classes -/

structure SumAggregator (F : Type*) where
  data : OrderedDict String F

namespace SumAggregator

variable [AddMonoid F]

def init : SumAggregator F := ⟨∅⟩

/-- `self.data[k] += v`. The key is read, and stored if it is new, before the addition. -/
def add (k : String) (v : Arg F A) (self : SumAggregator F) :
    Except AggregatorError Unit × SumAggregator F :=
  let (old, data) := self.data.getDefault 0 k
  match v with
  | .num x => (.ok (), ⟨data.assign k (old + x)⟩)
  | .other _ => (.error .typeError, ⟨data⟩)

def update (data : OrderedDict String (Arg F A)) (self : SumAggregator F) :
    Except AggregatorError Unit × SumAggregator F :=
  loop add data.items self

def result (self : SumAggregator F) :
    Except AggregatorError (OrderedDict String F) × SumAggregator F :=
  (.ok self.data, ⟨∅⟩)

end SumAggregator

structure AverageAggregator where
  data : OrderedDict String ℚ
  count : ℕ

namespace AverageAggregator

def init : AverageAggregator := ⟨∅, 0⟩

/-- `self.data[k] += (v - self.data[k]) / self.count`. The count is positive here. -/
def add (k : String) (v : Arg ℚ A) (self : AverageAggregator) :
    Except AggregatorError Unit × AverageAggregator :=
  let (old, data) := self.data.getDefault 0 k
  match v with
  | .num x => (.ok (), { self with data := data.assign k (old + (x - old) / self.count) })
  | .other _ => (.error .typeError, { self with data := data })

def update (data : OrderedDict String (Arg ℚ A)) (self : AverageAggregator) :
    Except AggregatorError Unit × AverageAggregator :=
  loop add data.items { self with count := self.count + 1 }

def result (self : AverageAggregator) :
    Except AggregatorError (OrderedDict String ℚ) × AverageAggregator :=
  (.ok self.data, ⟨∅, 0⟩)

end AverageAggregator

structure Root where
  radicand : ℚ
  nonneg : 0 ≤ radicand

def sqrt (x : ℚ) : Except AggregatorError Root :=
  if h : 0 ≤ x then .ok ⟨x, h⟩ else .error .valueError

structure StandardDeviation where
  average : ℚ
  count : ℕ
  variance : ℚ
  deviation : Root

def StandardDeviation.init (count : ℕ) (avg qValue : ℚ) :
    Except AggregatorError StandardDeviation :=
  if (count : ℚ) - 1 = 0 then .error .zeroDivisionError
  else do
    let variance := qValue / (count - 1)
    let deviation ← sqrt variance
    return ⟨avg, count, variance, deviation⟩

structure StandardDeviationAggregator where
  avg : OrderedDict String ℚ
  variance : OrderedDict String ℚ
  count : ℕ

namespace StandardDeviationAggregator

def init : StandardDeviationAggregator := ⟨∅, ∅, 0⟩

/-- The body of the loop of `update`. -/
def add (k : String) (v : Arg ℚ A) (self : StandardDeviationAggregator) :
    Except AggregatorError Unit × StandardDeviationAggregator :=
  let (prevAvg, avg) := self.avg.getDefault 0 k
  match v with
  | .num x =>
    let newAvg := prevAvg + (x - prevAvg) / self.count
    let (q, variance) := self.variance.getDefault 0 k
    (.ok (), { self with
      avg := avg.assign k newAvg
      variance := variance.assign k (q + (x - prevAvg) * (x - newAvg)) })
  | .other _ => (.error .typeError, { self with avg := avg })

def update (data : OrderedDict String (Arg ℚ A)) (self : StandardDeviationAggregator) :
    Except AggregatorError Unit × StandardDeviationAggregator :=
  loop add data.items { self with count := self.count + 1 }

/-- One entry of the dictionary that `result` builds, with `self.variance` and what is built. -/
def entryOf (count : ℕ) (k : String) (avg : ℚ)
    (s : OrderedDict String ℚ × OrderedDict String StandardDeviation) :
    Except AggregatorError Unit × OrderedDict String ℚ × OrderedDict String StandardDeviation :=
  let (q, variance) := s.1.getDefault 0 k
  match StandardDeviation.init count avg q with
  | .ok deviation => (.ok (), variance, s.2.assign k deviation)
  | .error e => (.error e, variance, s.2)

def result (self : StandardDeviationAggregator) :
    Except AggregatorError (OrderedDict String StandardDeviation) × StandardDeviationAggregator :=
  match loop (entryOf self.count) self.avg.items (self.variance, ∅) with
  | (.ok (), _, value) => (.ok value, ⟨∅, ∅, 0⟩)
  | (.error e, variance, _) => (.error e, { self with variance := variance })

end StandardDeviationAggregator

namespace Aggregator

def sum [AddMonoid F] : Aggregator (Arg F A) F (SumAggregator F) :=
  ⟨SumAggregator.init, SumAggregator.update, SumAggregator.result⟩

def average : Aggregator (Arg ℚ A) ℚ AverageAggregator :=
  ⟨AverageAggregator.init, AverageAggregator.update, AverageAggregator.result⟩

def standardDeviation : Aggregator (Arg ℚ A) StandardDeviation StandardDeviationAggregator :=
  ⟨StandardDeviationAggregator.init, StandardDeviationAggregator.update,
    StandardDeviationAggregator.result⟩

end Aggregator

/-! ## What an aggregator holds -/

def column (updates : List (OrderedDict String (Arg F A))) (k : String) : List (Option F) :=
  updates.map fun data => (data.get? k).bind Arg.num?

def Numeric (data : OrderedDict String (Arg F A)) : Prop := ∀ e ∈ data.items, e.2.IsNum

instance (data : OrderedDict String (Arg F A)) : Decidable (Numeric data) :=
  inferInstanceAs (Decidable (∀ e ∈ data.items, e.2.IsNum))

variable {updates : List (OrderedDict String (Arg F A))} {data : OrderedDict String (Arg F A)}

theorem entry_column_concat {T : Type*} {next : ℕ → T → F → T} {zero : T} (k : String) :
    entry next zero (column (updates ++ [data]) k) =
      ((data.items.lookup k).elim id fun v => v.num?.elim id fun x t =>
        some (next (updates.length + 1) (t.getD zero) x)) (entry next zero (column updates k)) := by
  rw [column, List.map_append, List.map_singleton, entry_concat, List.length_map, ← column,
    OrderedDict.get?]
  cases data.items.lookup k <;> rfl

/-- The loop of an update with numbers only, in an aggregator that holds tallies: `view` is what it
holds under a key, and `hold` how the tally of the key is held. -/
theorem loop_tally {S T U : Type*} {body : String → Arg F A → S → Except AggregatorError Unit × S}
    {I : S → Prop} (view : S → String → U) (hold : Option T → U) {next : ℕ → T → F → T} {zero : T}
    (round : ∀ k x s, I s → ∃ s', body k (.num x) s = (.ok (), s') ∧ I s' ∧
      (∀ t, view s k = hold t →
        view s' k = hold (some (next (updates.length + 1) (t.getD zero) x))) ∧
      ∀ k' ≠ k, view s' k' = view s k')
    (numeric : Numeric data) {s : S} (start : I s)
    (holds : ∀ k, view s k = hold (entry next zero (column updates k))) :
    ∃ s', loop body data.items s = (.ok (), s') ∧ I s' ∧
      ∀ k, view s' k = hold (entry next zero (column (updates ++ [data]) k)) := by
  have num_round (k : String) (v : Arg F A) (s : S) (hs : I s) (good : v.IsNum) :
      ∃ s', body k v s = (.ok (), s') ∧ I s' ∧
        (∀ t, view s k = hold t → view s' k = hold (v.num?.elim id (fun x t =>
          some (next (updates.length + 1) (t.getD zero) x)) t)) ∧
        ∀ k' ≠ k, view s' k' = view s k' := by
    obtain ⟨x, rfl⟩ := good
    exact round k x s hs
  obtain ⟨s', done, kept, after⟩ := loop_view (G := fun _ => Arg.IsNum) view
    (fun _ v u u' => ∀ t, u = hold t → u' = hold (v.num?.elim id (fun x t =>
      some (next (updates.length + 1) (t.getD zero) x)) t)) num_round data.nodup numeric start
  refine ⟨s', done, kept, fun k => ?_⟩
  have at_key := after k
  rw [entry_column_concat]
  cases found : data.items.lookup k with
  | none =>
    rw [found] at at_key
    have untouched : view s' k = view s k := at_key
    exact untouched.trans (holds k)
  | some v =>
    rw [found] at at_key
    exact at_key _ (holds k)

namespace SumAggregator

variable [AddMonoid F]

theorem add_num (k : String) (x : F) (s : SumAggregator F) :
    add k (.num x : Arg F A) s =
      (.ok (), ⟨(s.data.getDefault 0 k).2.assign k ((s.data.get? k).getD 0 + x)⟩) := by
  rw [← OrderedDict.getDefault_fst]
  rfl

def Holds (updates : List (OrderedDict String (Arg F A))) (s : SumAggregator F) : Prop :=
  ∀ k, s.data.get? k = entry (fun _ t x => t + x) 0 (column updates k)

theorem init_holds : Holds ([] : List (OrderedDict String (Arg F A))) init := fun _ => rfl

theorem update_holds (numeric : Numeric data) {s : SumAggregator F} (h : Holds updates s) :
    ∃ s', update data s = (.ok (), s') ∧ Holds (updates ++ [data]) s' := by
  have round (k : String) (x : F) (s : SumAggregator F) (_ : True) :
      ∃ s', add k (.num x : Arg F A) s = (.ok (), s') ∧ True ∧
        (∀ t, s.data.get? k = id t → s'.data.get? k = id (some (t.getD 0 + x))) ∧
        ∀ k' ≠ k, s'.data.get? k' = s.data.get? k' := by
    refine ⟨_, add_num k x s, trivial, fun t ht => ?_, fun k' other => ?_⟩
    · simp [ht]
    · simp [OrderedDict.get?_getDefault_assign, other]
  obtain ⟨s', done, -, holds⟩ := loop_tally (fun (s : SumAggregator F) k => s.data.get? k) id
    round numeric trivial h
  exact ⟨s', done, holds⟩

end SumAggregator

namespace AverageAggregator

theorem add_num (k : String) (x : ℚ) (s : AverageAggregator) :
    add k (.num x : Arg ℚ A) s = (.ok (), { s with
      data := (s.data.getDefault 0 k).2.assign k
        (average s.count ((s.data.get? k).getD 0) x) }) := by
  rw [← OrderedDict.getDefault_fst]
  rfl

structure Holds (updates : List (OrderedDict String (Arg ℚ A))) (s : AverageAggregator) : Prop where
  count : s.count = updates.length
  data : ∀ k, s.data.get? k = entry average 0 (column updates k)

theorem init_holds : Holds ([] : List (OrderedDict String (Arg ℚ A))) init := ⟨rfl, fun _ => rfl⟩

theorem update_holds {updates : List (OrderedDict String (Arg ℚ A))}
    {data : OrderedDict String (Arg ℚ A)} (numeric : Numeric data) {s : AverageAggregator}
    (h : Holds updates s) :
    ∃ s', update data s = (.ok (), s') ∧ Holds (updates ++ [data]) s' := by
  have round (k : String) (x : ℚ) (s : AverageAggregator) (count : s.count = updates.length + 1) :
      ∃ s', add k (.num x : Arg ℚ A) s = (.ok (), s') ∧ s'.count = updates.length + 1 ∧
        (∀ t, s.data.get? k = id t →
          s'.data.get? k = id (some (average (updates.length + 1) (t.getD 0) x))) ∧
        ∀ k' ≠ k, s'.data.get? k' = s.data.get? k' := by
    refine ⟨_, add_num k x s, count, fun t ht => ?_, fun k' other => ?_⟩
    · simp [ht, count]
    · simp [OrderedDict.get?_getDefault_assign, other]
  obtain ⟨s', done, count, holds⟩ := loop_tally (fun (s : AverageAggregator) k => s.data.get? k) id
    round numeric (s := { s with count := s.count + 1 }) (congrArg (· + 1) h.count) h.data
  exact ⟨s', done, by rw [count, List.length_append, List.length_singleton], holds⟩

end AverageAggregator

namespace StandardDeviationAggregator

theorem add_num (k : String) (x : ℚ) (s : StandardDeviationAggregator) :
    add k (.num x : Arg ℚ A) s =
      let next := moments s.count ((s.avg.get? k).getD 0, (s.variance.get? k).getD 0) x
      (.ok (), { s with
        avg := (s.avg.getDefault 0 k).2.assign k next.1
        variance := (s.variance.getDefault 0 k).2.assign k next.2 }) := by
  rw [← OrderedDict.getDefault_fst, ← OrderedDict.getDefault_fst]
  rfl

def view (s : StandardDeviationAggregator) (k : String) : Option ℚ × Option ℚ :=
  (s.avg.get? k, s.variance.get? k)

def hold (t : Option (ℚ × ℚ)) : Option ℚ × Option ℚ := (t.map Prod.fst, t.map Prod.snd)

structure Holds (updates : List (OrderedDict String (Arg ℚ A))) (s : StandardDeviationAggregator) :
    Prop where
  count : s.count = updates.length
  avg : ∀ k, s.avg.get? k = (entry moments (0, 0) (column updates k)).map Prod.fst
  variance : ∀ k, s.variance.get? k = (entry moments (0, 0) (column updates k)).map Prod.snd

theorem init_holds : Holds ([] : List (OrderedDict String (Arg ℚ A))) init :=
  ⟨rfl, fun _ => rfl, fun _ => rfl⟩

theorem update_holds {updates : List (OrderedDict String (Arg ℚ A))}
    {data : OrderedDict String (Arg ℚ A)} (numeric : Numeric data) {s : StandardDeviationAggregator}
    (h : Holds updates s) :
    ∃ s', update data s = (.ok (), s') ∧ Holds (updates ++ [data]) s' := by
  have round (k : String) (x : ℚ) (s : StandardDeviationAggregator)
      (count : s.count = updates.length + 1) :
      ∃ s', add k (.num x : Arg ℚ A) s = (.ok (), s') ∧ s'.count = updates.length + 1 ∧
        (∀ t, view s k = hold t →
          view s' k = hold (some (moments (updates.length + 1) (t.getD (0, 0)) x))) ∧
        ∀ k' ≠ k, view s' k' = view s k' := by
    refine ⟨_, add_num k x s, count, fun t ht => ?_, fun k' other => ?_⟩
    · obtain ⟨avg, variance⟩ := Prod.mk.inj ht
      cases t <;> simp [view, hold, avg, variance, count]
    · simp [view, OrderedDict.get?_getDefault_assign, other]
  obtain ⟨s', done, count, holds⟩ := loop_tally view hold round numeric
    (s := { s with count := s.count + 1 }) (congrArg (· + 1) h.count)
    fun k => Prod.ext (h.avg k) (h.variance k)
  exact ⟨s', done, by rw [count, List.length_append, List.length_singleton],
    fun k => congrArg Prod.fst (holds k), fun k => congrArg Prod.snd (holds k)⟩

end StandardDeviationAggregator

end KhCommon.Caching
