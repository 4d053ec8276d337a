import KhCommon.Caching.CacheKey
import KhCommon.Caching.PlainMap

/-! `AerospikeCache`: a function behind a `KeyValueStore`. A value found under the
formatted key is returned when its exact type is the declared one; otherwise the
function runs and, unless the cache is read-only, its result is stored. The key
format is any function of the bound arguments, which may raise, and whoever wrote
to the store before may have put values of any type there. Records do not expire
and nobody else writes meanwhile. -/

namespace KhCommon.AerospikeCache

open Machine KeyValueStore

variable {A E F K T V : Type*}

inductive Exc (E F : Type*)
  | format (error : F) -- from `key_format.format`
  | store (error : KeyValueStore.Exc) -- from the `KeyValueStore`
  | func (error : E) -- from the function

inductive DecorationError
  | assertion
  | notImplemented (message : String)

/-- What the decorator has worked out before any call; `typeOf` is `type`. -/
structure Decorator (A F K T V : Type*) where
  spec : ArgSpec A
  format : OrderedDict String (PyVal A) → Except F K
  typeOf : V → T
  returnType : T
  writable : Bool
  localTTL : ℚ

/-- `AerospikeCache(...)` applied to a function; `declared` is its return annotation, none when it
is missing or false. -/
def decorate (spec : ArgSpec A) (format : OrderedDict String (PyVal A) → Except F K)
    (typeOf : V → T) (declared : Option T) (localTTL : ℚ) (readOnly : Bool) :
    Except DecorationError (Decorator A F K T V) :=
  if ¬localTTL ≥ 0 then .error .assertion else
    match declared with
    | none => .error <| .notImplemented <|
        "return type must be defined to validate cached response data. " ++
        "response type can be defined with \"->\". def ex() -> int:"
    | some returnType => .ok ⟨spec, format, typeOf, returnType, !readOnly, localTTL⟩

structure Store (K V : Type*) where
  cache : Cache K V
  records : K → Option V

/-- One call: its arguments, what the function gives if it runs, and the readings and the client's
answers that its `get` and its `put` meet. -/
structure Call (A E V : Type*) where
  args : Args (PyVal A)
  result : Except E V
  now : ℚ
  t : ℚ
  getRaises : Bool
  stored : ℚ
  putRaises : Bool

structure Reply (E F K V : Type*) where
  result : Except (Exc E F) V
  ran : Bool
  puts : List (K × V)

variable [DecidableEq K] [DecidableEq T]

/-- `decorator.kvs.get(key)`. -/
def Store.get (s : Store K V) (localTTL : ℚ) (key : K) (call : Call A E V) :
    Except KeyValueStore.Exc V × Store K V :=
  let ran := KeyValueStore.get localTTL ⟨s.records, call.getRaises, [], false⟩ s.cache key call.now
    call.t
  (ran.result, ⟨ran.cache, ran.records⟩)

/-- `decorator.kvs.put(key, data, TTL)`. -/
def Store.put (s : Store K V) (localTTL : ℚ) (key : K) (data : V) (call : Call A E V) :
    Except KeyValueStore.Exc Unit × Store K V :=
  let ran := KeyValueStore.put localTTL ⟨s.records, call.putRaises, [], false⟩ s.cache key data
    call.stored
  (ran.result, ⟨ran.cache, ran.records⟩)

/-- `get_async` and `put_async` run the synchronous method on a thread and wait for it. -/
def Store.getAsync (s : Store K V) := s.get (A := A) (E := E)

def Store.putAsync (s : Store K V) := s.put (A := A) (E := E)

namespace Decorator

variable (self : Decorator A F K T V)

def key (call : Call A E V) : Except F K := self.format (self.spec.merge call.args)

/-- `data = func(...)`, and the `put` when the cache is writable. -/
def refresh (s : Store K V) (key : K) (call : Call A E V) : Reply E F K V × Store K V :=
  match call.result with
  | .error e => (⟨.error (.func e), true, []⟩, s)
  | .ok data =>
    if self.writable then
      match s.put self.localTTL key data call with
      | (.ok (), s) => (⟨.ok data, true, [(key, data)]⟩, s)
      | (.error e, s) => (⟨.error (.store e), true, []⟩, s)
    else (⟨.ok data, true, []⟩, s)

def wrapper (s : Store K V) (call : Call A E V) : Reply E F K V × Store K V :=
  match self.key call with
  | .error e => (⟨.error (.format e), false, []⟩, s)
  | .ok key =>
    match s.get self.localTTL key call with
    | (.error .recordNotFound, s) => self.refresh s key call
    | (.error e, s) => (⟨.error (.store e), false, []⟩, s)
    | (.ok data, s) =>
      if self.typeOf data ≠ self.returnType then self.refresh s key call
      else (⟨.ok data, false, []⟩, s)

def refreshAsync (s : Store K V) (key : K) (call : Call A E V) : Reply E F K V × Store K V :=
  match call.result with
  | .error e => (⟨.error (.func e), true, []⟩, s)
  | .ok data =>
    if self.writable then
      match s.putAsync self.localTTL key data call with
      | (.ok (), s) => (⟨.ok data, true, [(key, data)]⟩, s)
      | (.error e, s) => (⟨.error (.store e), true, []⟩, s)
    else (⟨.ok data, true, []⟩, s)

/-- The asynchronous wrapper; it prints what it retrieved. -/
def wrapperAsync (s : Store K V) (call : Call A E V) : Reply E F K V × Store K V :=
  match self.key call with
  | .error e => (⟨.error (.format e), false, []⟩, s)
  | .ok key =>
    match s.getAsync self.localTTL key call with
    | (.error .recordNotFound, s) => self.refreshAsync s key call
    | (.error e, s) => (⟨.error (.store e), false, []⟩, s)
    | (.ok data, s) =>
      if self.typeOf data ≠ self.returnType then self.refreshAsync s key call
      else (⟨.ok data, false, []⟩, s)

end Decorator

omit [DecidableEq K] [DecidableEq T] in
theorem decorate_eq_ok {spec : ArgSpec A} {format : OrderedDict String (PyVal A) → Except F K}
    {typeOf : V → T} {declared : Option T} {localTTL : ℚ} {readOnly : Bool}
    {self : Decorator A F K T V}
    (h : decorate spec format typeOf declared localTTL readOnly = .ok self) :
    declared = some self.returnType ∧ self.writable = !readOnly ∧ self.typeOf = typeOf := by
  unfold decorate at h
  split_ifs at h
  cases declared with
  | none => cases h
  | some returnType =>
    cases h
    exact ⟨rfl, rfl, rfl⟩

/-! ## The store under one call -/

variable {s : Store K V}

theorem Store.get_spec (localTTL : ℚ) (key : K) (call : Call A E V)
    (h : Agrees s.cache s.records) :
    Agrees (s.get localTTL key call).2.cache (s.get localTTL key call).2.records ∧
      (s.get localTTL key call).2.records = s.records ∧
      ∀ data, (s.get localTTL key call).1 = .ok data → s.records key = some data := by
  have cleared := h.clear call.now
  unfold Store.get
  cases hit : (clearCache call.now s.cache).get? key with
  | some entry =>
    rw [get_hit _ _ _ _ _ hit]
    refine ⟨cleared, rfl, fun data hdata => ?_⟩
    rw [← Except.ok.inj hdata]
    exact cleared key entry.1 entry.2 hit
  | none =>
    rw [get_miss _ _ _ _ _ hit]
    cases hclient : Client.get (⟨s.records, call.getRaises, [], false⟩ : Client K V) key with
    | error e => exact ⟨cleared, rfl, by simp⟩
    | ok data =>
      have record : s.records key = some data := by
        unfold Client.get at hclient
        split at hclient
        · cases hclient
        · split at hclient
          · rename_i hrecord
            rw [← Except.ok.inj hclient]
            exact hrecord
          · cases hclient
      refine ⟨cleared.assign record _, rfl, fun data' hdata => ?_⟩
      rw [← Except.ok.inj hdata]
      exact record

theorem Store.put_spec (localTTL : ℚ) (key : K) (call : Call A E V)
    (h : Agrees s.cache s.records) (data : V) :
    Agrees (s.put localTTL key data call).2.cache (s.put localTTL key data call).2.records ∧
      match (s.put localTTL key data call).1 with
      | .ok () => (s.put localTTL key data call).2.records key = some data
      | .error _ => (s.put localTTL key data call).2.records = s.records := by
  cases raised : call.putRaises with
  | true => simp [Store.put, KeyValueStore.put, Client.put, raised, h]
  | false =>
    simp only [Store.put, KeyValueStore.put, Client.put, raised, Bool.false_eq_true, if_false]
    exact ⟨h.put key data _, Function.update_self _ _ _⟩

/-! ## One call, and every run -/

/-- What a call may return and what it may leave in the store. -/
structure Checked (self : Decorator A F K T V) (s : Store K V) (call : Call A E V)
    (reply : Reply E F K V) (s' : Store K V) : Prop where
  returns : ∀ data, reply.result = .ok data →
    (∃ key, self.key call = .ok key ∧ (s.get self.localTTL key call).1 = .ok data ∧
      self.typeOf data = self.returnType) ∨ (reply.ran ∧ call.result = .ok data)
  readOnly : self.writable = false → reply.puts = [] ∧ s'.records = s.records
  stores : self.writable = true → ∀ data, reply.result = .ok data →
    ∃ key, self.key call = .ok key ∧ s'.records key = some data
  raises : reply.ran → ∀ e, call.result = .error e → reply.puts = [] ∧ s'.records = s.records

namespace Decorator

variable {self : Decorator A F K T V} {key : K} {call : Call A E V}

theorem wrapperAsync_eq : self.wrapperAsync s call = self.wrapper s call := rfl

/-! The branches of the wrapper. -/

theorem wrapper_of_error {e : F} (hkey : self.key call = .error e) :
    self.wrapper s call = (⟨.error (.format e), false, []⟩, s) := by
  simp only [wrapper, hkey]

theorem wrapper_of_missed {s' : Store K V} (hkey : self.key call = .ok key)
    (hget : s.get self.localTTL key call = (.error .recordNotFound, s')) :
    self.wrapper s call = self.refresh s' key call := by
  simp only [wrapper, hkey, hget]

theorem wrapper_of_failed {s' : Store K V} {e : KeyValueStore.Exc} (hkey : self.key call = .ok key)
    (hget : s.get self.localTTL key call = (.error e, s')) (failed : e ≠ .recordNotFound) :
    self.wrapper s call = (⟨.error (.store e), false, []⟩, s') := by
  cases e <;> simp_all [wrapper]

theorem wrapper_of_typed {s' : Store K V} {data : V} (hkey : self.key call = .ok key)
    (hget : s.get self.localTTL key call = (.ok data, s'))
    (typed : self.typeOf data = self.returnType) :
    self.wrapper s call = (⟨.ok data, false, []⟩, s') := by
  simp [wrapper, hkey, hget, typed]

theorem wrapper_of_untyped {s' : Store K V} {data : V} (hkey : self.key call = .ok key)
    (hget : s.get self.localTTL key call = (.ok data, s'))
    (untyped : self.typeOf data ≠ self.returnType) :
    self.wrapper s call = self.refresh s' key call := by
  simp [wrapper, hkey, hget, untyped]

omit [DecidableEq T] in
theorem refresh_checked {s₀ : Store K V} (h : Agrees s.cache s.records)
    (same : s.records = s₀.records) (hkey : self.key call = .ok key) :
    Checked self s₀ call (self.refresh s key call).1 (self.refresh s key call).2 ∧
      Agrees (self.refresh s key call).2.cache (self.refresh s key call).2.records := by
  unfold refresh
  cases hresult : call.result with
  | error e =>
    exact ⟨⟨by simp, fun _ => ⟨rfl, same⟩, fun _ => by simp, fun _ _ _ => ⟨rfl, same⟩⟩, h⟩
  | ok data =>
    cases hwritable : self.writable with
    | false =>
      exact ⟨⟨fun data' hdata => .inr ⟨rfl, by rw [hresult, ← Except.ok.inj hdata]⟩,
        fun _ => ⟨rfl, same⟩, by simp [hwritable], by simp [hresult]⟩, h⟩
    | true =>
      obtain ⟨agrees, outcome⟩ := Store.put_spec self.localTTL key call h data
      simp only [if_true]
      rcases hput : s.put self.localTTL key data call with ⟨e | ⟨⟩, s'⟩
      · rw [hput] at agrees outcome
        exact ⟨⟨by simp, by simp [hwritable], fun _ => by simp, by simp [hresult]⟩, agrees⟩
      · rw [hput] at agrees outcome
        refine ⟨⟨fun data' hdata => .inr ⟨rfl, by rw [hresult, ← Except.ok.inj hdata]⟩,
          by simp [hwritable], fun _ data' hdata => ⟨key, hkey, ?_⟩, by simp [hresult]⟩, agrees⟩
        rw [← Except.ok.inj hdata]
        exact outcome

theorem wrapper_checked (self : Decorator A F K T V) (h : Agrees s.cache s.records)
    (call : Call A E V) :
    Checked self s call (self.wrapper s call).1 (self.wrapper s call).2 ∧
      Agrees (self.wrapper s call).2.cache (self.wrapper s call).2.records := by
  cases hkey : self.key call with
  | error e =>
    rw [wrapper_of_error hkey]
    exact ⟨⟨by simp, fun _ => ⟨rfl, rfl⟩, fun _ => by simp, by simp⟩, h⟩
  | ok key =>
    obtain ⟨agrees, records, got⟩ := Store.get_spec self.localTTL key call h
    rcases hget : s.get self.localTTL key call with ⟨e | data, s'⟩
    · rw [hget] at agrees records
      by_cases missed : e = .recordNotFound
      · subst missed
        rw [wrapper_of_missed hkey hget]
        exact refresh_checked agrees records hkey
      · rw [wrapper_of_failed hkey hget missed]
        exact ⟨⟨by simp, fun _ => ⟨rfl, records⟩, fun _ => by simp, by simp⟩, agrees⟩
    · rw [hget] at agrees records got
      by_cases typed : self.typeOf data = self.returnType
      · rw [wrapper_of_typed hkey hget typed]
        refine ⟨⟨fun data' hdata => .inl ⟨key, hkey, ?_⟩, fun _ => ⟨rfl, records⟩,
          fun _ data' hdata => ⟨key, hkey, ?_⟩, by simp⟩, agrees⟩
        · rw [← Except.ok.inj hdata, hget]
          exact ⟨rfl, typed⟩
        · rw [← Except.ok.inj hdata, records]
          exact got data rfl
      · rw [wrapper_of_untyped hkey hget typed]
        exact refresh_checked agrees records hkey

end Decorator

end KhCommon.AerospikeCache
