import KhCommon.Caching.ArgsCache

/-! `ArgsCache` and `KwargsCache` round a coroutine function. A call clears the
cache and looks its key up without giving way (the lock is held over
`__clear_cache__` alone), and on a miss awaits the function; whatever other calls
do meanwhile, it stores its result when the function completes. So a result may
be stored over an entry that another call for the same key stored first, and the
overwritten entry keeps its place in the order of eviction. -/

namespace KhCommon.Caching

open Machine ExpiringDict

variable {A C E K V W : Type*} [DecidableEq K]

structure Shared (C K V : Type*) where
  cache : Cache K V
  awaiting : ℕ → Option C

/-- A call starts, at the reading of `__clear_cache__`; or the function a call awaits
completes with `result`, at the reading taken then. -/
inductive Event (C E V : Type*)
  | start (id : ℕ) (args : C) (now : ℚ)
  | complete (id : ℕ) (stored : ℚ) (result : Except E V)

/-- What the event makes its call do; `nothing` when the event is not enabled. -/
inductive Outcome (E V : Type*)
  | cached (data : V)
  | awaits
  | returned (result : Except E V)
  | nothing
  deriving DecidableEq

def Event.reading : Event C E V → ℚ
  | .start _ _ now => now
  | .complete _ stored _ => stored

def asyncWrapper (key : C → K) (ttl : ℚ) (s : Shared C K V) :
    Event C E V → Outcome E V × Shared C K V
  | .start id args now =>
    match s.awaiting id with
    | some _ => (.nothing, s)
    | none =>
      let cache := clearCache now s.cache
      match cache.get? (key args) with
      | some (_, data) => (.cached data, { s with cache })
      | none => (.awaits, ⟨cache, Function.update s.awaiting id (some args)⟩)
  | .complete id stored result =>
    match s.awaiting id with
    | none => (.nothing, s)
    | some args =>
      match result with
      | .ok data =>
        (.returned (.ok data),
          ⟨s.cache.assign (key args) (stored + ttl, data), Function.update s.awaiting id none⟩)
      | .error e =>
        (.returned (.error e), { s with awaiting := Function.update s.awaiting id none })

def idle : Shared C K V := ⟨∅, fun _ => none⟩

def Unexpired (key : C → K) (s : Shared C K V) (event : Event C E V) (outcome : Outcome E V) :
    Prop :=
  match event with
  | .start _ args now => ∀ data, outcome = .cached data →
    ∃ exp, s.cache.get? (key args) = some (exp, data) ∧ now ≤ exp
  | .complete .. => True

/-- A result that is stored overtakes nothing that stands behind its key. With a negative TTL
that does not matter. -/
def InTurn (key : C → K) (ttl : ℚ) (s : Shared C K V) (event : Event C E V) (_ : Outcome E V) :
    Prop :=
  match event with
  | .complete id stored (.ok _) =>
    ∀ args, s.awaiting id = some args → 0 ≤ ttl → KeepsOrder s.cache (key args) (stored + ttl)
  | _ => True

variable {key : C → K} {ttl : ℚ}

def keep (cache : Cache K V) (k : K) (exp : ℚ) : Except E V → Cache K V
  | .ok data => cache.assign k (exp, data)
  | .error _ => cache

theorem wrapper_hit (func : C → W → Except E V × W) {s : Cache K V × W} {call : Call C} {exp : ℚ}
    {data : V} (hit : (clearCache call.now s.1).get? (key call.args) = some (exp, data)) :
    wrapper key ttl func s call = (.ok data, (clearCache call.now s.1, s.2)) := by
  simp [wrapper, hit]

theorem wrapper_miss (func : C → W → Except E V × W) {s : Cache K V × W} {call : Call C}
    (missed : (clearCache call.now s.1).get? (key call.args) = none) :
    wrapper key ttl func s call = ((func call.args s.2).1,
      (keep (clearCache call.now s.1) (key call.args) (call.stored + ttl) (func call.args s.2).1,
        (func call.args s.2).2)) := by
  rcases hrun : func call.args s.2 with ⟨e | data, w⟩ <;> simp [wrapper, missed, hrun, keep]

theorem asyncWrapper_hit {s : Shared C K V} {id : ℕ} (free : s.awaiting id = none) {args : C}
    {now exp : ℚ} {data : V} (hit : (clearCache now s.cache).get? (key args) = some (exp, data)) :
    asyncWrapper key ttl s (.start id args now : Event C E V) =
      (.cached data, { s with cache := clearCache now s.cache }) := by
  simp [asyncWrapper, free, hit]

theorem asyncWrapper_miss {s : Shared C K V} {id : ℕ} (free : s.awaiting id = none) {args : C}
    {now : ℚ} (missed : (clearCache now s.cache).get? (key args) = none) :
    asyncWrapper key ttl s (.start id args now : Event C E V) =
      (.awaits, ⟨clearCache now s.cache, Function.update s.awaiting id (some args)⟩) := by
  simp [asyncWrapper, free, missed]

theorem asyncWrapper_complete {s : Shared C K V} {id : ℕ} {args : C}
    (hid : s.awaiting id = some args) (stored : ℚ) (result : Except E V) :
    asyncWrapper key ttl s (.complete id stored result) =
      (.returned result, ⟨keep s.cache (key args) (stored + ttl) result,
        Function.update s.awaiting id none⟩) := by
  cases result <;> simp [asyncWrapper, hid, keep]

omit [DecidableEq K] in
theorem update_eq_some_iff {α : Type*} {f : ℕ → Option α} {i j : ℕ} {o : Option α} {a : α} :
    Function.update f i o j = some a ↔ j = i ∧ o = some a ∨ j ≠ i ∧ f j = some a := by
  by_cases same : j = i
  · subst same
    simp
  · simp [same]

theorem awaiting_start {s : Shared C K V} {id id' : ℕ} {args args' : C} {now : ℚ}
    (h : (asyncWrapper key ttl s (.start id args now : Event C E V)).2.awaiting id' = some args') :
    s.awaiting id' = some args' ∨ (id = id' ∧ args = args') := by
  cases free : s.awaiting id with
  | some _ => exact .inl (by simpa [asyncWrapper, free] using h)
  | none =>
    cases hit : (clearCache now s.cache).get? (key args) with
    | some entry =>
      rw [asyncWrapper_hit free hit] at h
      exact .inl h
    | none =>
      rw [asyncWrapper_miss free hit] at h
      rcases update_eq_some_iff.mp h with ⟨rfl, same⟩ | ⟨-, h⟩
      · exact .inr ⟨rfl, Option.some.inj same⟩
      · exact .inl h

theorem awaiting_complete {s : Shared C K V} {id id' : ℕ} {stored : ℚ} {result : Except E V}
    {args : C}
    (h : (asyncWrapper key ttl s (.complete id stored result)).2.awaiting id' = some args) :
    s.awaiting id' = some args := by
  cases hid : s.awaiting id with
  | none => simpa [asyncWrapper, hid] using h
  | some _ =>
    rw [asyncWrapper_complete hid] at h
    rcases update_eq_some_iff.mp h with ⟨-, ⟨⟩⟩ | ⟨-, h⟩
    exact h

theorem call_alone (func : C → W → Except E V × W) (s : Shared C K V) (w : W) {id : ℕ}
    (free : s.awaiting id = none) (call : Call C) :
    (run (asyncWrapper key ttl) s
        [.start id call.args call.now, .complete id call.stored (func call.args w).1]).cache =
      (wrapper key ttl func (s.cache, w) call).2.1 := by
  cases hit : (clearCache call.now s.cache).get? (key call.args) with
  | some entry =>
    rw [wrapper_hit func hit, run_cons, asyncWrapper_hit free hit]
    simp [asyncWrapper, free]
  | none =>
    rw [wrapper_miss func hit, run_cons, asyncWrapper_miss free hit, run_cons,
      asyncWrapper_complete (Function.update_self ..)]
    rfl

structure Sound (key : C → K) (ttl t : ℚ) (s : Shared C K V) : Prop where
  ordered : Ordered ttl t s.cache
  keyed : ∀ e ∈ s.cache.items, ∃ args, key args = e.1

omit [DecidableEq K] in
theorem sound_idle (t : ℚ) : Sound key ttl t (idle : Shared C K V) :=
  ⟨ordered_empty t, fun e he => by cases he⟩

theorem Sound.clear {t now : ℚ} {s : Shared C K V} (h : Sound key ttl t s) (hnow : t ≤ now)
    (awaiting : ℕ → Option C) : Sound key ttl now ⟨clearCache now s.cache, awaiting⟩ := by
  refine ⟨(h.ordered.clear now).later hnow, fun e he => h.keyed e ?_⟩
  rw [clearCache_eq_purge] at he
  exact (List.dropWhile_sublist _).subset he

theorem Sound.store {t stored : ℚ} {s : Shared C K V} (h : Sound key ttl t s) (ht : t ≤ stored)
    (args : C) (turn : 0 ≤ ttl → KeepsOrder s.cache (key args) (stored + ttl)) (data : V)
    (awaiting : ℕ → Option C) :
    Sound key ttl stored ⟨s.cache.assign (key args) (stored + ttl, data), awaiting⟩ := by
  refine ⟨(h.ordered.later ht).assign turn data, fun e he => ?_⟩
  rcases OrderedDict.mem_assign_items.mp he with ⟨he, -⟩ | rfl
  · exact h.keyed e he
  · exact ⟨args, rfl⟩

theorem start_unexpired {t now : ℚ} {s : Shared C K V} (h : Ordered ttl t s.cache)
    (hnow : t ≤ now) (id : ℕ) (args : C) :
    Unexpired key s (.start id args now : Event C E V)
      (asyncWrapper key ttl s (.start id args now : Event C E V)).1 := by
  intro data served
  cases hid : s.awaiting id with
  | some _ => simp [asyncWrapper, hid] at served
  | none =>
    cases hit : (clearCache now s.cache).get? (key args) with
    | none => simp [asyncWrapper, hid, hit] at served
    | some entry =>
      simp only [asyncWrapper, hid, hit, Outcome.cached.injEq] at served
      exact ⟨entry.1, (h.get?_clearCache hnow).mp (served ▸ hit)⟩

theorem asyncWrapper_sound (t : ℚ) (s : Shared C K V) (event : Event C E V)
    (h : Sound key ttl t s) (ht : t ≤ event.reading) (_ : event.reading ≤ event.reading)
    (turn : InTurn key ttl s event (asyncWrapper key ttl s event).1) :
    Unexpired key s event (asyncWrapper key ttl s event).1 ∧
      Sound key ttl event.reading (asyncWrapper key ttl s event).2 := by
  have later : Sound key ttl event.reading s := ⟨h.ordered.later ht, h.keyed⟩
  cases event with
  | start id args now =>
    refine ⟨start_unexpired h.ordered ht id args, ?_⟩
    cases hid : s.awaiting id with
    | some _ =>
      simp only [asyncWrapper, hid]
      exact later
    | none =>
      cases hit : (clearCache now s.cache).get? (key args) <;>
        · simp only [asyncWrapper, hid, hit]
          exact h.clear ht _
  | complete id stored result =>
    refine ⟨trivial, ?_⟩
    cases hid : s.awaiting id with
    | none =>
      simp only [asyncWrapper, hid]
      exact later
    | some args =>
      simp only [asyncWrapper, hid]
      cases result with
      | error e => exact ⟨later.ordered, later.keyed⟩
      | ok data => exact h.store ht args (turn args hid) data _

def ServesUnexpired (key : C → K) (ttl : ℚ) (E V : Type*) : Prop :=
  ∀ (t₀ : ℚ) (events : List (Event C E V)), Clocked Event.reading Event.reading t₀ events →
    Always (asyncWrapper key ttl) (InTurn key ttl) idle events →
    Always (asyncWrapper key ttl) (Unexpired key) idle events ∧
    ∀ next : Event C E V, lastReading Event.reading t₀ events ≤ next.reading →
      let s := run (asyncWrapper key ttl) idle events
      let s' := (asyncWrapper key ttl s next).2
      (InTurn key ttl s next (asyncWrapper key ttl s next).1 ↔
        ∀ id args now, next.reading ≤ now →
          Unexpired key s' (.start id args now : Event C E V)
            (asyncWrapper key ttl s' (.start id args now : Event C E V)).1)

theorem expired_of_out_of_turn (httl : 0 ≤ ttl) {t : ℚ} {s : Shared C K V}
    (h : Sound key ttl t s) {id : ℕ} {args : C} (hid : s.awaiting id = some args) {stored : ℚ}
    (data : V) (out : ¬ KeepsOrder s.cache (key args) (stored + ttl)) :
    ∃ args' late, stored ≤ late ∧
      let s' := (asyncWrapper key ttl s (.complete id stored (.ok data) : Event C E V)).2
      ¬ Unexpired key s' (.start id args' late : Event C E V)
        (asyncWrapper key ttl s' (.start id args' late : Event C E V)).1 := by
  obtain ⟨late, hlate, key', exp, data', early, held, served⟩ :=
    stale_of_out_of_turn httl data out
  obtain ⟨args', rfl⟩ : ∃ args', key args' = key' := by
    rw [OrderedDict.get?_eq_some_iff] at held
    rcases OrderedDict.mem_assign_items.mp held with ⟨hmem, -⟩ | heq
    · exact h.keyed _ hmem
    · exact ⟨args, (congrArg Prod.fst heq).symm⟩
  refine ⟨args', late, hlate, ?_⟩
  simp only [asyncWrapper, hid, Function.update_self, served, Unexpired, held]
  intro unexpired
  obtain ⟨exp', hexp', fresh⟩ := unexpired data' rfl
  cases hexp'
  exact absurd fresh (not_le.mpr early)

theorem servesUnexpired (key : C → K) (ttl : ℚ) (E V : Type*) : ServesUnexpired key ttl E V := by
  intro t₀ events clock turns
  obtain ⟨always, last⟩ := always_of_clocked asyncWrapper_sound (sound_idle t₀) clock turns
  refine ⟨always, fun next hnext => ⟨fun turn id args now hnow => ?_, fun safe => ?_⟩⟩
  · obtain ⟨-, sound⟩ := asyncWrapper_sound _ _ next last hnext le_rfl turn
    exact start_unexpired sound.ordered hnow id args
  · match next with
    | .start id args now => trivial
    | .complete id stored (.error e) => trivial
    | .complete id stored (.ok data) =>
      intro args hid httl
      by_contra out
      obtain ⟨args', late, hlate, expired⟩ :=
        expired_of_out_of_turn (E := E) httl last hid data out
      exact expired (safe id args' late hlate)

theorem argsCache_kwargsCache_unexpired [DecidableEq A] [NatCast A] (ttl : ℚ) (E V : Type*) :
    ServesUnexpired (Args.args : Args A → List A) ttl E V ∧
      ∀ spec : ArgSpec A, ServesUnexpired spec.key ttl E V :=
  ⟨servesUnexpired Args.args ttl E V, fun spec => servesUnexpired spec.key ttl E V⟩

/-- The calls for `7` and `8` overlap, and the one that started first stores last. -/
theorem argsCache_kwargsCache_unexpired_single :
    Always (asyncWrapper (Args.args : Args ℕ → List ℕ) 30) (Unexpired Args.args) idle
      [(.start 0 ⟨[7], []⟩ 0 : Event (Args ℕ) Unit ℕ), .start 1 ⟨[8], []⟩ 2, .complete 1 4 (.ok 2),
        .complete 0 5 (.ok 1), .start 0 ⟨[8], []⟩ 20, .start 1 ⟨[7], []⟩ 35] := by
  refine ((argsCache_kwargsCache_unexpired 30 Unit ℕ).1 0 _
    (by norm_num [Clocked, Event.reading]) ?_).1
  refine ⟨trivial, trivial, fun args hid => ?_, fun args hid => ?_, trivial, trivial, trivial⟩
  · obtain rfl : _ = args := Option.some.inj hid
    exact fun _ => by decide
  · obtain rfl : _ = args := Option.some.inj hid
    exact fun _ => by decide

/-- With the TTL of `verifyToken`: two calls for `a` miss, the second completes at 29 in the
place of the first, before `b`, which expired at 31 and is served at 45. -/
theorem argsCache_serves_expired :
    ¬ ∀ (ttl t₀ : ℚ) (events : List (Event (Args String) Unit ℕ)),
      Clocked Event.reading Event.reading t₀ events →
        Always (asyncWrapper Args.args ttl) (Unexpired Args.args) idle events := by
  intro all
  have always := all 30 0
    [.start 0 ⟨["a"], []⟩ 0, .start 1 ⟨["a"], []⟩ 0, .complete 0 0 (.ok 1),
      .start 2 ⟨["b"], []⟩ 1, .complete 2 1 (.ok 2), .complete 1 29 (.ok 1),
      .start 3 ⟨["b"], []⟩ 45]
    (by norm_num [Clocked, Event.reading])
  obtain ⟨exp, hexp, fresh⟩ := always.2.2.2.2.2.2.1 2 (by decide +kernel)
  have stored : some (exp, 2) = some ((31 : ℚ), 2) := hexp.symm.trans (by decide +kernel)
  cases stored
  exact absurd fresh (by decide)

end KhCommon.Caching
