import KhCommon.Lib.Window
import KhCommon.Caching.Aggregator

/-! `Aggregate`: every call gives what it is called with to the aggregator, and the first
call behind `decorator.expire` hands the result to the function in place of its own
arguments. The async wrapper does all of this before its only await, so it is the same.
The sums handed on are the sums of what was supplied, window by window. -/

namespace KhCommon.Caching

open Machine Tally

variable {F A V R S : Type*}

/-- The order in which Python goes through a set of keys, which may be any. -/
structure SetOrder where
  iter : List String → List String
  perm : ∀ keys, (iter keys).Perm keys

structure Sample (V : Type*) where
  args : List V
  kwargs : OrderedDict String V
  now : ℚ
  order : SetOrder

inductive Passed (V R : Type*)
  | given (value : V)
  | aggregated (value : R)

/-- What a call of the wrapper comes to: an exception of the aggregator, no call of the function,
or a call with these keyword arguments. -/
abbrev Handed (V R : Type*) := Except AggregatorError (Option (OrderedDict String (Passed V R)))

/-- What `Aggregate` is called with, and `arg_spec.args` of the function it wraps. -/
structure Aggregate where
  ttl : ℚ
  exclusions : List String := ["self"]
  args : List String

namespace Aggregate

structure State (S : Type*) where
  aggregator : S
  expire : ℚ

variable (self : Aggregate)

def start (aggregator : Aggregator V R S) (now : ℚ) : State S := ⟨aggregator.init, now + self.ttl⟩

/-- `kwargs.update(zip(arg_spec.args, args))`. -/
def supplied (call : Sample V) : OrderedDict String V :=
  call.kwargs.update (self.args.zip call.args)

/-- `{ key: kwargs[key] for key in kwargs.keys() - exclusions }`. -/
def data (call : Sample V) : OrderedDict String V :=
  (self.supplied call).select
    (call.order.iter ((self.supplied call).keys.filter (· ∉ self.exclusions)))

/-- `kwargs.update(aggregator.result())`. -/
def pass (kwargs : OrderedDict String V) (value : OrderedDict String R) :
    OrderedDict String (Passed V R) :=
  (kwargs.mapValues .given).update (value.mapValues .aggregated).items

/-- The wrapper up to the call of the function, whose keyword arguments it gives if there is
one. `decorator.expire` moves on before the result is asked for. -/
def wrapper (aggregator : Aggregator V R S) (s : State S) (call : Sample V) :
    Handed V R × State S :=
  let kwargs := self.supplied call
  match aggregator.update (self.data call) s.aggregator with
  | (.error e, state) => (.error e, ⟨state, s.expire⟩)
  | (.ok (), state) =>
    if call.now > s.expire then
      let expire := call.now + self.ttl
      match aggregator.result state with
      | (.error e, state) => (.error e, ⟨state, expire⟩)
      | (.ok value, state) => (.ok (some (pass kwargs value)), ⟨state, expire⟩)
    else (.ok none, ⟨state, s.expire⟩)

theorem get?_data (call : Sample V) (k : String) :
    (self.data call).get? k =
      if k ∈ self.exclusions then none else (self.supplied call).get? k := by
  rw [data, OrderedDict.get?_select]
  simp only [(call.order.perm _).mem_iff, List.mem_filter, decide_eq_true_eq]
  by_cases excluded : k ∈ self.exclusions
  · simp [excluded]
  · by_cases held : k ∈ self.supplied call
    · exact (if_pos ⟨held, excluded⟩).trans (if_neg excluded).symm
    · rw [if_neg excluded, OrderedDict.get?_eq_none_iff.mpr held, ite_self]

theorem get?_pass (kwargs : OrderedDict String V) (value : OrderedDict String R) (k : String) :
    (pass kwargs value).get? k =
      ((value.get? k).map Passed.aggregated).or ((kwargs.get? k).map Passed.given) := by
  rw [pass, OrderedDict.get?_update (OrderedDict.nodup _), ← OrderedDict.get?,
    OrderedDict.get?_mapValues, OrderedDict.get?_mapValues]

/-! ## Any aggregator -/

/-- What is relied on of an aggregator: what its state `Holds` after the updates since it was
empty, on which of them its result exists, and what the result is then. -/
structure Figures (aggregator : Aggregator V R S) (Accepts : OrderedDict String V → Prop)
    (Holds : List (OrderedDict String V) → S → Prop) (Good : List (OrderedDict String V) → Prop)
    (Post : List (OrderedDict String V) → OrderedDict String R → Prop) : Prop where
  init : Holds [] aggregator.init
  update : ∀ {updates data s}, Accepts data → Holds updates s →
    ∃ s', aggregator.update data s = (.ok (), s') ∧ Holds (updates ++ [data]) s'
  result : ∀ {updates s}, Holds updates s → updates ≠ [] → Good updates →
    ∃ value, aggregator.result s = (.ok value, aggregator.init) ∧ Post updates value
  fail : ∀ {updates s}, Holds updates s → updates ≠ [] → ¬Good updates →
    ∃ e s', aggregator.result s = (.error e, s')

def Delivers (Post : List (OrderedDict String V) → OrderedDict String R → Prop)
    (out : Handed V R) :
    Option (List (Sample V)) → Prop
  | none => out = .ok none
  | some calls => ∃ call value, calls.getLast? = some call ∧ Post (calls.map self.data) value ∧
    out = .ok (some (pass (self.supplied call) value))

abbrev window : ℚ × List (Sample V) → Sample V → Option (List (Sample V)) × ℚ × List (Sample V) :=
  Window.step self.ttl Sample.now

structure Related (decorator : Aggregate) (Holds : List (OrderedDict String V) → S → Prop)
    (Q : Sample V → Prop) (s : State S) (t : ℚ × List (Sample V)) : Prop where
  expire : s.expire = t.1
  holds : Holds (t.2.map decorator.data) s.aggregator
  calls : ∀ call ∈ t.2, Q call

variable {aggregator : Aggregator V R S} {Accepts : OrderedDict String V → Prop}
  {Holds : List (OrderedDict String V) → S → Prop} {Good : List (OrderedDict String V) → Prop}
  {Post : List (OrderedDict String V) → OrderedDict String R → Prop} {Q : Sample V → Prop}

theorem wrapper_open (figures : Figures aggregator Accepts Holds Good Post) {s : State S}
    {t : ℚ × List (Sample V)} (related : self.Related Holds Q s t) {call : Sample V}
    (accepts : Accepts (self.data call)) (hcall : Q call) (early : ¬call.now > t.1) :
    (self.wrapper aggregator s call).1 = .ok none ∧
      self.Related Holds Q (self.wrapper aggregator s call).2 (t.1, t.2 ++ [call]) := by
  obtain ⟨s', updated, holds⟩ := figures.update accepts related.holds
  have out : self.wrapper aggregator s call = (.ok none, ⟨s', s.expire⟩) := by
    simp only [wrapper, updated, related.expire, early, if_false]
  rw [out]
  refine ⟨rfl, related.expire, ?_, List.forall_mem_append.mpr ⟨related.calls, by simpa using hcall⟩⟩
  rwa [List.map_append, List.map_singleton]

theorem wrapper_close (figures : Figures aggregator Accepts Holds Good Post) {s : State S}
    {t : ℚ × List (Sample V)} (related : self.Related Holds Q s t) {call : Sample V}
    (accepts : Accepts (self.data call)) (late : call.now > t.1) :
    (Good ((t.2 ++ [call]).map self.data) → ∃ value,
      Post ((t.2 ++ [call]).map self.data) value ∧ self.wrapper aggregator s call =
        (.ok (some (pass (self.supplied call) value)), self.start aggregator call.now)) ∧
    (¬Good ((t.2 ++ [call]).map self.data) →
      ∃ e, (self.wrapper aggregator s call).1 = .error e) := by
  obtain ⟨s', updated, holds⟩ := figures.update accepts related.holds
  have collected : t.2.map self.data ++ [self.data call] = (t.2 ++ [call]).map self.data := by
    rw [List.map_append, List.map_singleton]
  rw [collected] at holds
  constructor
  · intro good
    obtain ⟨value, result, post⟩ := figures.result holds (by simp) good
    refine ⟨value, post, ?_⟩
    simp only [wrapper, updated, related.expire, late, if_true, result, start]
  · intro bad
    obtain ⟨e, s'', result⟩ := figures.fail holds (by simp) bad
    refine ⟨e, ?_⟩
    simp only [wrapper, updated, related.expire, late, if_true, result]

theorem outputs_iff (figures : Figures aggregator Accepts Holds Good Post)
    (accepts : ∀ call, Q call → Accepts (self.data call))
    {P : Handed V R →
      Option (List (Sample V)) → Prop}
    (delivered : ∀ out window, (∀ calls ∈ window, ∀ call ∈ calls, Q call) →
      self.Delivers Post out window → P out window)
    (raised : ∀ e calls, ¬P (.error e) (some calls)) (now : ℚ) {calls : List (Sample V)}
    (admitted : ∀ call ∈ calls, Q call) :
    (List.Forall₂ P (outputs (self.wrapper aggregator) (self.start aggregator now) calls)
        (outputs self.window (now + self.ttl, []) calls) ↔
      ∀ o ∈ outputs self.window (now + self.ttl, []) calls, ∀ calls ∈ o,
        Good (calls.map self.data)) ∧
    ((∀ o ∈ outputs self.window (now + self.ttl, []) calls, ∀ calls ∈ o,
        Good (calls.map self.data)) →
      self.Related Holds Q (run (self.wrapper aggregator) (self.start aggregator now) calls)
        (run self.window (now + self.ttl, []) calls)) := by
  have empty (now : ℚ) : self.Related Holds Q (self.start aggregator now) (now + self.ttl, []) :=
    ⟨rfl, figures.init, by simp⟩
  refine forall₂_outputs_iff (A := Q) (fun s t call related hcall => ?_) (empty now) admitted
  by_cases late : call.now > t.1
  · have closed : self.window t call = (some (t.2 ++ [call]), call.now + self.ttl, []) :=
      if_pos late
    obtain ⟨value, error⟩ := self.wrapper_close figures related (accepts call hcall) late
    simp only [closed, Option.mem_some_iff, forall_eq']
    by_cases good : Good ((t.2 ++ [call]).map self.data)
    · obtain ⟨value, post, out⟩ := value good
      rw [out]
      refine ⟨iff_of_true (delivered _ _ ?_ ⟨call, value, by simp, post, rfl⟩) good,
        fun _ => empty call.now⟩
      intro calls h
      rw [← Option.some.inj h]
      exact List.forall_mem_append.mpr ⟨related.calls, by simpa using hcall⟩
    · obtain ⟨e, out⟩ := error good
      rw [out]
      exact ⟨iff_of_false (raised e _) good, fun h => absurd h good⟩
  · have held : self.window t call = (none, t.1, t.2 ++ [call]) := if_neg late
    obtain ⟨out, later⟩ := self.wrapper_open figures related (accepts call hcall) hcall late
    rw [held, out]
    exact ⟨iff_of_true (delivered _ _ (by simp) rfl) (by simp), fun _ => later⟩

theorem Figures.run_holds (figures : Figures aggregator Accepts Holds Good Post)
    {updates : List (OrderedDict String V)} (accepts : ∀ data ∈ updates, Accepts data) :
    (∀ out ∈ outputs (fun s data => aggregator.update data s) aggregator.init updates,
        out = .ok ()) ∧
      Holds updates (run (fun s data => aggregator.update data s) aggregator.init updates) := by
  suffices from_state : ∀ earlier s, Holds earlier s →
      (∀ out ∈ outputs (fun s data => aggregator.update data s) s updates, out = .ok ()) ∧
        Holds (earlier ++ updates) (run (fun s data => aggregator.update data s) s updates) from
    from_state [] _ figures.init
  induction updates with
  | nil => exact fun earlier s holds => ⟨by simp [outputs], by simpa using holds⟩
  | cons data updates ih =>
    intro earlier s holds
    rw [List.forall_mem_cons] at accepts
    obtain ⟨s', updated, holds⟩ := figures.update accepts.1 holds
    obtain ⟨returned, later⟩ := ih accepts.2 _ _ holds
    rw [List.append_assoc] at later
    rw [outputs, run_cons, updated]
    exact ⟨List.forall_mem_cons.mpr ⟨rfl, returned⟩, later⟩

/-! ## Figures that are tallies -/

def Numbers (call : Sample (Arg F A)) : Prop :=
  ∀ k ∉ self.exclusions, ∀ v, (self.supplied call).get? k = some v → v.IsNum

instance (call : Sample (Arg F A)) : Decidable (self.Numbers call) :=
  decidable_of_iff (∀ e ∈ (self.supplied call).items, e.1 ∉ self.exclusions → e.2.IsNum)
    ⟨fun h k included v held => h (k, v) (OrderedDict.get?_eq_some_iff.mp held) included,
      fun h e he included => h e.1 included e.2 (OrderedDict.get?_eq_some_iff.mpr he)⟩

def samples (calls : List (Sample (Arg F A))) (k : String) : List (Option F) :=
  calls.map fun call => ((self.supplied call).get? k).bind Arg.num?

/-- What the function is called with at the end of a window: under each key that is not excluded
the figure of what the window supplied for it, and the excluded arguments of the closing call. -/
def HandsOver (figure : List (Option F) → Option R)
    (out : Handed (Arg F A) R) :
    Option (List (Sample (Arg F A))) → Prop
  | none => out = .ok none
  | some calls => ∃ call kwargs, calls.getLast? = some call ∧ out = .ok (some kwargs) ∧
    ∀ k, kwargs.get? k =
      if k ∈ self.exclusions then ((self.supplied call).get? k).map .given
      else (figure (self.samples calls k)).map .aggregated

variable {self} {calls : List (Sample (Arg F A))} {T : Type*} {next : ℕ → T → F → T} {zero : T}

theorem Numbers.data {call : Sample (Arg F A)} (h : self.Numbers call) :
    Numeric (self.data call) := by
  intro e he
  have held := OrderedDict.get?_eq_some_iff.mpr he
  rw [get?_data] at held
  by_cases excluded : e.1 ∈ self.exclusions
  · rw [if_pos excluded] at held
    simp at held
  · rw [if_neg excluded] at held
    exact h e.1 excluded e.2 held

theorem column_data (calls : List (Sample (Arg F A))) (k : String) :
    column (calls.map self.data) k =
      if k ∈ self.exclusions then calls.map fun _ => none else self.samples calls k := by
  rw [column, List.map_map, samples]
  by_cases excluded : k ∈ self.exclusions
  · rw [if_pos excluded]
    exact List.map_congr_left fun call _ => by simp [get?_data, excluded]
  · rw [if_neg excluded]
    exact List.map_congr_left fun call _ => by simp [get?_data, excluded]

theorem samples_append (calls calls' : List (Sample (Arg F A))) (k : String) :
    self.samples (calls ++ calls') k = self.samples calls k ++ self.samples calls' k :=
  List.map_append

theorem supplied_none {call : Sample (Arg F A)} (last : calls.getLast? = some call)
    (numbers : self.Numbers call) {k : String} (included : k ∉ self.exclusions)
    (omitted : (self.samples calls k).reduceOption = []) : (self.supplied call).get? k = none := by
  cases held : (self.supplied call).get? k with
  | none => rfl
  | some v =>
    obtain ⟨x, rfl⟩ := numbers k included v held
    have sample : some x ∈ self.samples calls k :=
      List.mem_map.mpr ⟨call, List.mem_of_getLast? last, by rw [held]; rfl⟩
    rw [← List.reduceOption_mem_iff, omitted] at sample
    simp at sample

theorem handsOver_of_delivers
    {out : Handed (Arg F A) T}
    {window : Option (List (Sample (Arg F A)))}
    (numbers : ∀ calls ∈ window, ∀ call ∈ calls, self.Numbers call)
    (h : self.Delivers (fun updates value => ∀ k, value.get? k = entry next zero (column updates k))
      out window) : self.HandsOver (entry next zero) out window := by
  cases window with
  | none => exact h
  | some calls =>
    obtain ⟨call, value, last, post, rfl⟩ := h
    refine ⟨call, _, last, rfl, fun k => ?_⟩
    rw [get?_pass, post, column_data]
    by_cases excluded : k ∈ self.exclusions
    · have none : entry next zero (calls.map fun _ => (none : Option F)) = none :=
        if_pos (by simp [List.reduceOption])
      rw [if_pos excluded, if_pos excluded, none]
      rfl
    · rw [if_neg excluded, if_neg excluded]
      by_cases omitted : (self.samples calls k).reduceOption = []
      · have last_number := numbers calls rfl call (List.mem_of_getLast? last)
        rw [supplied_none last last_number excluded omitted]
        simp
      · rw [entry_of_supplied omitted]
        rfl

theorem outputs_handOver {aggregator : Aggregator (Arg F A) T S}
    {Holds : List (OrderedDict String (Arg F A)) → S → Prop}
    (figures : Figures aggregator Numeric Holds (fun _ => True)
      fun updates value => ∀ k, value.get? k = entry next zero (column updates k))
    (now : ℚ) (numbers : ∀ call ∈ calls, self.Numbers call) :
    List.Forall₂ (self.HandsOver (entry next zero))
        (outputs (self.wrapper aggregator) (self.start aggregator now) calls)
        (outputs self.window (now + self.ttl, []) calls) ∧
      self.Related Holds self.Numbers
        (run (self.wrapper aggregator) (self.start aggregator now) calls)
        (run self.window (now + self.ttl, []) calls) := by
  obtain ⟨all, related⟩ := self.outputs_iff figures (fun _ => Numbers.data)
    (fun _ _ => handsOver_of_delivers) (by simp [HandsOver]) now numbers
  exact ⟨all.mpr fun _ _ _ _ => trivial, related fun _ _ _ _ => trivial⟩

/-! ## Sums -/

def aggregated? (k : String) :
    Handed V R → Option R
  | .ok (some kwargs) =>
    match kwargs.get? k with
    | some (.aggregated value) => some value
    | _ => none
  | .ok none | .error _ => none

def received (outs : List (Handed V R))
    (k : String) : List R :=
  outs.filterMap (aggregated? k)

theorem sum_received [AddMonoid F] {k : String} (included : k ∉ self.exclusions)
    {outs : List (Handed (Arg F A) F)}
    {windows : List (Option (List (Sample (Arg F A))))}
    (h : List.Forall₂ (self.HandsOver (entry (fun _ t x => t + x) 0)) outs windows) :
    (received outs k).sum = (self.samples windows.reduceOption.flatten k).reduceOption.sum := by
  induction h with
  | nil => rfl
  | @cons out window outs windows first rest ih =>
    cases window with
    | none =>
      have none : out = .ok none := first
      rw [none, List.reduceOption_cons_of_none, ← ih]
      rfl
    | some calls =>
      obtain ⟨call, kwargs, -, rfl, args⟩ := first
      rw [List.reduceOption_cons_of_some, List.flatten_cons, samples_append,
        List.reduceOption_append, List.sum_append, ← ih, received, List.filterMap_cons, aggregated?,
        args k, if_neg included]
      by_cases omitted : (self.samples calls k).reduceOption = []
      · simp [entry, omitted, received]
      · simp [entry_of_supplied omitted, tally_add, received]

theorem sum_figures [AddMonoid F] : Figures (Aggregator.sum : Aggregator (Arg F A) F _) Numeric
    SumAggregator.Holds (fun _ => True)
    fun updates value => ∀ k, value.get? k = entry (fun _ t x => t + x) 0 (column updates k) where
  init := SumAggregator.init_holds
  update numeric holds := SumAggregator.update_holds numeric holds
  result holds _ _ := ⟨_, rfl, holds⟩
  fail _ _ bad := absurd trivial bad

end Aggregate

open Aggregate

/-- Window by window, the function receives under each key that is not excluded the sum of what
the calls of the window supplied for it, and the excluded arguments as the closing call gave
them. Every call is in one window, and nothing is lost. -/
theorem aggregate_sum_conserves [AddMonoid F] (self : Aggregate) (now : ℚ)
    (calls : List (Sample (Arg F A))) (numbers : ∀ call ∈ calls, self.Numbers call) :
    let sum : Aggregator (Arg F A) F (SumAggregator F) := .sum
    let outs := outputs (self.wrapper sum) (self.start sum now) calls
    let windows := outputs self.window (now + self.ttl, []) calls
    List.Forall₂ (self.HandsOver fun samples =>
        if samples.reduceOption = [] then none else some samples.reduceOption.sum) outs windows ∧
      windows.reduceOption.flatten ++ (run self.window (now + self.ttl, []) calls).2 = calls ∧
      ∀ k ∉ self.exclusions,
        (received outs k).sum +
            ((run (self.wrapper sum) (self.start sum now) calls).aggregator.data.get? k).getD 0 =
          (self.samples calls k).reduceOption.sum := by
  intro sum outs windows
  obtain ⟨handsOver, related⟩ := outputs_handOver sum_figures now numbers
  have all : windows.reduceOption.flatten ++ (run self.window (now + self.ttl, []) calls).2 =
      calls := Window.flatten_outputs self.ttl Sample.now (now + self.ttl, []) calls
  refine ⟨?_, all, fun k included => ?_⟩
  · have figure : entry (fun _ t x => t + x) (0 : F) = fun column =>
        if column.reduceOption = [] then none else some column.reduceOption.sum := by
      funext column
      rw [entry, tally_add]
    exact figure ▸ handsOver
  · rw [sum_received included handsOver, related.holds k, column_data, if_neg included, entry_getD,
      tally_add, ← List.sum_append, ← List.reduceOption_append, ← samples_append]
    exact congrArg (fun calls => (self.samples calls k).reduceOption.sum) all

theorem aggregate_sum_conserves_method :
    let self : Aggregate := ⟨10, ["self"], ["self", "a", "b"]⟩
    let order : SetOrder := ⟨id, fun keys => .refl keys⟩
    let calls : List (Sample (Arg ℤ Unit)) :=
      [⟨[.other (), .num 3], ∅, 1, order⟩, ⟨[.other (), .num 4, .num 5], ∅, 20, order⟩,
        ⟨[.other ()], ⟨[("a", .num 6)], by decide⟩, 25, order⟩]
    let sum : Aggregator (Arg ℤ Unit) ℤ (SumAggregator ℤ) := .sum
    (received (outputs (self.wrapper sum) (self.start sum 0) calls) "a").sum +
      ((run (self.wrapper sum) (self.start sum 0) calls).aggregator.data.get? "a").getD 0 = 13 := by
  intro self order calls sum
  have numbers : ∀ call ∈ calls, self.Numbers call := by decide
  have total : (self.samples calls "a").reduceOption.sum = 13 := by decide
  have conserved := (aggregate_sum_conserves self 0 calls numbers).2.2 "a" (by decide)
  refine (Eq.trans ?_ conserved).trans total
  -- the addition of integers is the one of their monoid
  congr 1

end KhCommon.Caching
