import KhCommon.Caching.CacheKey
import KhCommon.Caching.Order
import KhCommon.Lib.Machine

/-! `ArgsCache` and `KwargsCache` round a synchronous function: `__clear_cache__`,
a lookup, and on a miss one run of the function whose result is stored. The two
differ in the key alone. The function may read and change a world `W`, which so
records how often it ran. The reference `due` keeps every successful run and no
cache: a call is answered by the latest run for its key while that is recent
enough. `copy` of a result is the same value here. -/

namespace KhCommon.Caching

open Machine ExpiringDict

variable {A C E K V W : Type*} [DecidableEq K]

/-- One call: what it is called with, the reading of `__clear_cache__`, and the reading after
the function returned. -/
structure Call (C : Type*) where
  args : C
  now : ℚ
  stored : ℚ

/-- The wrapper, for the `key` a decorator computes. -/
def wrapper (key : C → K) (ttl : ℚ) (func : C → W → Except E V × W) (s : Cache K V × W)
    (call : Call C) : Except E V × (Cache K V × W) :=
  let cache := clearCache call.now s.1
  match cache.get? (key call.args) with
  | some (_, data) => (.ok data, (cache, s.2))
  | none =>
    match func call.args s.2 with
    | (.ok data, w) =>
      (.ok data, (cache.assign (key call.args) (call.stored + ttl, data), w))
    | (.error e, w) => (.error e, (cache, w))

/-- `ArgsCache`: keywords are not included in the cache key. -/
def argsCache [DecidableEq A] (ttl : ℚ) (func : Args A → W → Except E V × W) :
    Cache (List A) V × W → Call (Args A) → Except E V × (Cache (List A) V × W) :=
  wrapper Args.args ttl func

def kwargsCache [DecidableEq A] [NatCast A] (ttl : ℚ) (spec : ArgSpec A)
    (func : Args (PyVal A) → W → Except E V × W) :
    Cache (CacheKey A) V × W → Call (Args (PyVal A)) →
      Except E V × (Cache (CacheKey A) V × W) :=
  wrapper spec.key ttl func

/-! ## The reference: the successful runs, the latest first -/

/-- A successful run: its key, the reading when it was stored, its result. -/
abbrev Runs (K V : Type*) := List (K × (ℚ × V))

def Runs.latest (runs : Runs K V) (k : K) : Option (ℚ × V) :=
  (runs.find? fun r => r.1 = k).map Prod.snd

def Runs.recent (runs : Runs K V) (ttl now : ℚ) (k : K) : Option V :=
  match runs.latest k with
  | some (c, data) => if now ≤ c + ttl then some data else none
  | none => none

def due (key : C → K) (ttl : ℚ) (func : C → W → Except E V × W) (s : Runs K V × W)
    (call : Call C) : Except E V × (Runs K V × W) :=
  match s.1.recent ttl call.now (key call.args) with
  | some data => (.ok data, s)
  | none =>
    match func call.args s.2 with
    | (.ok data, w) => (.ok data, ((key call.args, call.stored, data) :: s.1, w))
    | (.error e, w) => (.error e, (s.1, w))

/-- From an empty cache `step` answers every clocked sequence of calls as `due` does, with the
same effect on the world; and a call that raised leaves a cache that answers as the one before
it does. -/
structure CallsWhenDue (step : Cache K V × W → Call C → Except E V × (Cache K V × W))
    (key : C → K) (ttl : ℚ) (func : C → W → Except E V × W) : Prop where
  answers : ∀ t₀ w calls, Clocked Call.now Call.stored t₀ calls →
    outputs step (∅, w) calls = outputs (due key ttl func) ([], w) calls ∧
      (run step (∅, w) calls).2 = (run (due key ttl func) ([], w) calls).2
  raises : ∀ t₀ w calls, Clocked Call.now Call.stored t₀ calls →
    ∀ call e, lastReading Call.stored t₀ calls ≤ call.now → call.now ≤ call.stored →
      let s := run step (∅, w) calls
      (step s call).1 = .error e →
        ∀ later, Clocked Call.now Call.stored call.stored later →
          outputs step (step s call).2 later = outputs step (s.1, (step s call).2.2) later

@[simp] theorem latest_nil (k : K) : Runs.latest ([] : Runs K V) k = none := rfl

theorem latest_cons (k : K) (c : ℚ) (data : V) (runs : Runs K V) (k' : K) :
    Runs.latest ((k, c, data) :: runs) k' = if k = k' then some (c, data) else runs.latest k' := by
  by_cases h : k = k' <;> simp [Runs.latest, h]

theorem recent_eq_some_iff {runs : Runs K V} {ttl now : ℚ} {k : K} {data : V} :
    runs.recent ttl now k = some data ↔ ∃ c, runs.latest k = some (c, data) ∧ now ≤ c + ttl := by
  unfold Runs.recent
  rcases runs.latest k with _ | ⟨c, d⟩
  · simp
  · simp [and_comm]

variable {ttl : ℚ}

structure Holds (ttl t : ℚ) (cache : Cache K V) (runs : Runs K V) : Prop where
  ordered : Ordered ttl t cache
  cached : ∀ k exp data, cache.get? k = some (exp, data) →
    ∃ c, exp = c + ttl ∧ runs.latest k = some (c, data)
  kept : ∀ k c data, runs.latest k = some (c, data) → t ≤ c + ttl →
    cache.get? k = some (c + ttl, data)

theorem holds_empty (t : ℚ) : Holds ttl t (∅ : Cache K V) [] where
  ordered := ordered_empty t
  cached _ _ _ h := by simp at h
  kept _ _ _ h := by simp at h

theorem Holds.clear {t now : ℚ} {cache : Cache K V} {runs : Runs K V} (h : Holds ttl t cache runs)
    (hnow : t ≤ now) : Holds ttl now (clearCache now cache) runs where
  ordered := (h.ordered.clear now).later hnow
  cached k exp data hk := h.cached k exp data ((h.ordered.get?_clearCache hnow).mp hk).1
  kept k c data hlatest fresh :=
    (h.ordered.get?_clearCache hnow).mpr ⟨h.kept k c data hlatest (hnow.trans fresh), fresh⟩

theorem Holds.later {t t' : ℚ} {cache : Cache K V} {runs : Runs K V} (h : Holds ttl t cache runs)
    (ht : t ≤ t') : Holds ttl t' cache runs where
  ordered := h.ordered.later ht
  cached := h.cached
  kept k c data hlatest fresh := h.kept k c data hlatest (ht.trans fresh)

theorem Holds.store {t : ℚ} {cache : Cache K V} {runs : Runs K V} (h : Holds ttl t cache runs)
    {k : K} (absent : k ∉ cache) (data : V) :
    Holds ttl t (cache.assign k (t + ttl, data)) ((k, t, data) :: runs) where
  ordered := h.ordered.add absent data
  cached k' exp data' hk' := by
    rw [latest_cons]
    by_cases same : k = k'
    · subst same
      rw [OrderedDict.get?_assign_self, Option.some.injEq, Prod.mk.injEq] at hk'
      exact ⟨t, hk'.1.symm, by rw [if_pos rfl, hk'.2]⟩
    · rw [OrderedDict.get?_assign_of_ne _ (Ne.symm same)] at hk'
      rw [if_neg same]
      exact h.cached k' exp data' hk'
  kept k' c data' hlatest fresh := by
    rw [latest_cons] at hlatest
    split_ifs at hlatest with same
    · cases hlatest
      rw [same, OrderedDict.get?_assign_self]
    · rw [OrderedDict.get?_assign_of_ne _ (Ne.symm same)]
      exact h.kept k' c data' hlatest fresh

theorem Holds.get?_clearCache {t now : ℚ} {cache : Cache K V} {runs : Runs K V}
    (h : Holds ttl t cache runs) (hnow : t ≤ now) (k : K) :
    ((clearCache now cache).get? k).map Prod.snd = runs.recent ttl now k := by
  apply Option.ext
  intro data
  rw [recent_eq_some_iff]
  constructor
  · intro hit
    obtain ⟨⟨exp, d⟩, he, rfl⟩ := Option.map_eq_some_iff.mp hit
    obtain ⟨hcache, fresh⟩ := (h.ordered.get?_clearCache hnow).mp he
    obtain ⟨c, rfl, hlatest⟩ := h.cached k exp d hcache
    exact ⟨c, hlatest, fresh⟩
  · rintro ⟨c, hlatest, fresh⟩
    rw [(h.clear hnow).kept k c data hlatest fresh]
    rfl

def Related (ttl t : ℚ) (s : Cache K V × W) (r : Runs K V × W) : Prop :=
  Holds ttl t s.1 r.1 ∧ s.2 = r.2

theorem wrapper_simulates (key : C → K) (ttl : ℚ) (func : C → W → Except E V × W) (t : ℚ)
    (s : Cache K V × W) (r : Runs K V × W) (call : Call C) (h : Related ttl t s r)
    (hnow : t ≤ call.now) (hstored : call.now ≤ call.stored) :
    (wrapper key ttl func s call).1 = (due key ttl func r call).1 ∧
      Related ttl call.stored (wrapper key ttl func s call).2 (due key ttl func r call).2 := by
  obtain ⟨cache, w⟩ := s
  obtain ⟨runs, w'⟩ := r
  obtain ⟨h, rfl⟩ : Holds ttl t cache runs ∧ w = w' := h
  have cleared := (h.clear hnow).later hstored
  have found := h.get?_clearCache hnow (key call.args)
  cases hit : (clearCache call.now cache).get? (key call.args) with
  | some entry =>
    rw [hit, Option.map_some] at found
    simp only [wrapper, due, hit, ← found]
    exact ⟨trivial, cleared, rfl⟩
  | none =>
    rw [hit, Option.map_none] at found
    simp only [wrapper, due, hit, ← found]
    rcases func call.args w with ⟨e | data, w'⟩
    · exact ⟨rfl, cleared, rfl⟩
    · exact ⟨rfl, cleared.store (OrderedDict.get?_eq_none_iff.mp hit) data, rfl⟩

theorem due_error {key : C → K} {func : C → W → Except E V × W} {r : Runs K V × W}
    {call : Call C} {e : E} (h : (due key ttl func r call).1 = .error e) :
    (due key ttl func r call).2.1 = r.1 := by
  unfold due at h ⊢
  split
  · rfl
  · rename_i missed
    rw [missed] at h
    rcases hrun : func call.args r.2 with ⟨e' | data, w⟩
    · rfl
    · simp [hrun] at h

theorem wrapper_run (key : C → K) (ttl : ℚ) (func : C → W → Except E V × W) {t₀ : ℚ} (w : W)
    {calls : List (Call C)} (clock : Clocked Call.now Call.stored t₀ calls) :
    outputs (wrapper key ttl func) (∅, w) calls = outputs (due key ttl func) ([], w) calls ∧
      Related ttl (lastReading Call.stored t₀ calls) (run (wrapper key ttl func) (∅, w) calls)
        (run (due key ttl func) ([], w) calls) :=
  outputs_eq_of_simulation (wrapper_simulates key ttl func) ⟨holds_empty t₀, rfl⟩ clock

theorem wrapper_callsWhenDue (key : C → K) (ttl : ℚ) (func : C → W → Except E V × W) :
    CallsWhenDue (wrapper key ttl func) key ttl func where
  answers t₀ w calls clock := by
    obtain ⟨houts, -, hworld⟩ := wrapper_run key ttl func w clock
    exact ⟨houts, hworld⟩
  raises t₀ w calls clock call e hnow hstored := by
    intro s raised later hlater
    obtain ⟨-, before⟩ := wrapper_run key ttl func w clock
    obtain ⟨hout, hholds, hworld⟩ :=
      wrapper_simulates key ttl func _ _ _ call before hnow hstored
    -- both caches hold the runs there were before the call
    rw [due_error (hout.symm.trans raised)] at hholds
    have after : Related ttl call.stored (wrapper key ttl func s call).2
        ((run (due key ttl func) ([], w) calls).1, (wrapper key ttl func s call).2.2) :=
      ⟨hholds, rfl⟩
    have without : Related ttl call.stored (s.1, (wrapper key ttl func s call).2.2)
        ((run (due key ttl func) ([], w) calls).1, (wrapper key ttl func s call).2.2) :=
      ⟨before.1.later (hnow.trans hstored), rfl⟩
    calc outputs (wrapper key ttl func) (wrapper key ttl func s call).2 later
        = outputs (due key ttl func) _ later :=
          (outputs_eq_of_simulation (wrapper_simulates key ttl func) after hlater).1
      _ = outputs (wrapper key ttl func) (s.1, (wrapper key ttl func s call).2.2) later :=
          (outputs_eq_of_simulation (wrapper_simulates key ttl func) without hlater).1.symm

/-- Both decorators run the function exactly when no recent run for an equal key answers. -/
theorem argsCache_kwargsCache_callWhenDue [DecidableEq A] [NatCast A] (ttl : ℚ) :
    (∀ func : Args A → W → Except E V × W,
      CallsWhenDue (argsCache ttl func) Args.args ttl func) ∧
    ∀ (spec : ArgSpec A) (func : Args (PyVal A) → W → Except E V × W),
      CallsWhenDue (kwargsCache ttl spec func) spec.key ttl func :=
  ⟨fun func => wrapper_callsWhenDue Args.args ttl func,
    fun spec func => wrapper_callsWhenDue spec.key ttl func⟩

end KhCommon.Caching
