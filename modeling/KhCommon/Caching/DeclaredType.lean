import KhCommon.Caching.AerospikeCache

/-! What `AerospikeCache` makes of a return annotation. `type(data) != return_type`
compares the class of a value with the annotation itself, so only a value of exactly
the declared class counts as a hit. Records expire here: the cluster drops them when
it likes, and a copy in the local cache may outlive its record. -/

namespace KhCommon.AerospikeCache

open Machine KeyValueStore

/-! ## Type hints -/

mutual

/-- A class, or what `typing` builds. `Optional[x]` is the union of `x` and `NoneType`, and a union
has two members at least. -/
inductive TypeHint (C : Type)
  | cls (c : C)
  | any
  | generic (origin : C) (args : TypeHints C)
  | union (first second : TypeHint C) (others : TypeHints C)
  deriving DecidableEq

inductive TypeHints (C : Type)
  | nil
  | cons (arg : TypeHint C) (args : TypeHints C)
  deriving DecidableEq

end

/-- `type` and `issubclass`, and the values in a container that each argument of a generic speaks
of. -/
structure Classes (C V : Type) where
  type : V → C
  issubclass : C → C → Bool
  contents : V → ℕ → List V

variable {A C E F K V : Type}

namespace Classes

variable (classes : Classes C V)

mutual

def Conforms (data : V) : TypeHint C → Prop
  | .cls c => classes.issubclass (classes.type data) c
  | .any => True
  | .generic origin args =>
    classes.issubclass (classes.type data) origin ∧ ContentsConform data 0 args
  | .union first second others =>
    Conforms data first ∨ Conforms data second ∨ ConformsToOne data others

def ContentsConform (data : V) (i : ℕ) : TypeHints C → Prop
  | .nil => True
  | .cons arg args =>
    (∀ item ∈ classes.contents data i, Conforms item arg) ∧ ContentsConform data (i + 1) args

def ConformsToOne (data : V) : TypeHints C → Prop
  | .nil => False
  | .cons arg args => Conforms data arg ∨ ConformsToOne data args

end

end Classes

/-! ## Runs -/

inductive Event (A E K V : Type)
  | call (call : Call A E V)
  | expire (keys : List K)

/-- The store, and what it got under a key in the last call that returned normally, as long as
that record has not expired. -/
structure Tracked (K V : Type) where
  store : Store K V
  stored : K → Option V

variable [DecidableEq K] [DecidableEq C]

namespace Decorator

variable (self : Decorator A F K (TypeHint C) V)

def wrapped (isCoroutine : Bool) : Store K V → Call A E V → Reply E F K V × Store K V :=
  if isCoroutine then self.wrapperAsync else self.wrapper

def track (key : Except F K) (result : Except (Exc E F) V) (store : Store K V)
    (stored : K → Option V) : K → Option V :=
  match key, result with
  | .ok key, .ok _ => Function.update stored key (store.records key)
  | _, _ => stored

def step (isCoroutine : Bool) (s : Tracked K V) :
    Event A E K V → Option (Reply E F K V) × Tracked K V
  | .call call =>
    let (reply, store) := self.wrapped isCoroutine s.store call
    (some reply, ⟨store, track (self.key call) reply.result store s.stored⟩)
  | .expire keys =>
    (none, ⟨{ s.store with records := fun key => if key ∈ keys then none else s.store.records key },
      fun key => if key ∈ keys then none else s.stored key⟩)

/-- The event is a call that the client answers, and the value is alive under its key since an
earlier call returned. -/
def Due (s : Tracked K V) (event : Event A E K V) (data : V) : Prop :=
  ∃ call key, event = .call call ∧ call.getRaises = false ∧ self.key call = .ok key ∧
    s.stored key = some data

def Cached (s : Tracked K V) (event : Event A E K V) (reply : Option (Reply E F K V)) : Prop :=
  ∀ data, self.Due s event data → ∃ answer, reply = some answer ∧
    answer.result = .ok data ∧ answer.ran = false

end Decorator

/-! ## The store under one call -/

def AgreesAlive (cache : Cache K V) (records : K → Option V) : Prop :=
  ExpiringDict.Holds (fun key data => ∀ value, records key = some value → data = value) cache

variable {cache : Cache K V} {records : K → Option V} {s : Store K V}

theorem AgreesAlive.of_agrees (h : Agrees cache records) : AgreesAlive cache records := by
  intro key exp data cached value alive
  rw [h key exp data cached] at alive
  exact Option.some.inj alive

theorem AgreesAlive.clear (h : AgreesAlive cache records) (now : ℚ) :
    AgreesAlive (clearCache now cache) records := by
  rw [clearCache_eq_purge]
  exact ExpiringDict.Holds.purge h now

theorem AgreesAlive.assign (h : AgreesAlive cache records) {key : K} {data : V}
    (held : records key = some data) (exp : ℚ) :
    AgreesAlive (cache.assign key (exp, data)) records := by
  refine ExpiringDict.Holds.assign h (fun _ _ _ same => same) (fun value alive => ?_) exp
  rw [held] at alive
  exact Option.some.inj alive

theorem AgreesAlive.put (h : AgreesAlive cache records) (key : K) (data : V) (exp : ℚ) :
    AgreesAlive (cache.assign key (exp, data)) (Function.update records key (some data)) := by
  refine ExpiringDict.Holds.assign h (fun key' data' other same value alive => ?_)
    (fun value alive => ?_) exp
  · rw [Function.update_of_ne other] at alive
    exact same value alive
  · rw [Function.update_self] at alive
    exact Option.some.inj alive

theorem AgreesAlive.expire (h : AgreesAlive cache records) (keys : List K) :
    AgreesAlive cache fun key => if key ∈ keys then none else records key := by
  intro key exp data cached value alive
  dsimp only at alive
  split_ifs at alive
  exact h key exp data cached value alive

theorem Store.get_alive (localTTL : ℚ) (key : K) (call : Call A E V)
    (h : AgreesAlive s.cache s.records) :
    AgreesAlive (s.get localTTL key call).2.cache s.records ∧
      (s.get localTTL key call).2.records = s.records ∧
      ∀ data, s.records key = some data →
        (∀ got, (s.get localTTL key call).1 = .ok got → data = got) ∧
        (call.getRaises = false → (s.get localTTL key call).1 = .ok data) := by
  have cleared := h.clear call.now
  unfold Store.get
  cases hit : (clearCache call.now s.cache).get? key with
  | some entry =>
    rw [get_hit _ _ _ _ _ hit]
    refine ⟨cleared, rfl, fun data alive => ?_⟩
    obtain rfl : entry.2 = data := cleared key entry.1 entry.2 hit data alive
    exact ⟨fun got same => Except.ok.inj same, fun _ => rfl⟩
  | none =>
    rw [get_miss _ _ _ _ _ hit]
    simp only [Client.get]
    cases raised : call.getRaises with
    | true => exact ⟨cleared, rfl, by simp⟩
    | false =>
      cases held : s.records key with
      | none => exact ⟨cleared, rfl, by simp⟩
      | some data => exact ⟨cleared.assign held _, rfl, by simp⟩

theorem Store.put_alive (localTTL : ℚ) (key : K) (call : Call A E V)
    (h : AgreesAlive s.cache s.records) (data : V) :
    AgreesAlive (s.put localTTL key data call).2.cache (s.put localTTL key data call).2.records ∧
      ((s.put localTTL key data call).1 = .ok () ∧
          (s.put localTTL key data call).2.records = Function.update s.records key (some data) ∨
        (∃ e, (s.put localTTL key data call).1 = .error e) ∧
          (s.put localTTL key data call).2.records = s.records) := by
  cases raised : call.putRaises with
  | true =>
    simp only [Store.put, KeyValueStore.put, Client.put, raised, if_true]
    exact ⟨h, .inr ⟨⟨_, rfl⟩, trivial⟩⟩
  | false =>
    simp only [Store.put, KeyValueStore.put, Client.put, raised, Bool.false_eq_true, if_false]
    exact ⟨h.put key data _, .inl ⟨trivial, trivial⟩⟩

/-! ## One call -/

structure Answered (decorator : Decorator A F K (TypeHint C) V) (s : Store K V) (key : K)
    (call : Call A E V) (reply : Reply E F K V) (s' : Store K V) : Prop where
  alive : AgreesAlive s'.cache s'.records
  others : ∀ other, other ≠ key → s'.records other = s.records other
  raises : ∀ e, reply.result = .error e → s'.records = s.records
  stores : ∀ data value, reply.result = .ok data → s'.records key = some value → value = data
  returns : ∀ data, reply.result = .ok data →
    decorator.typeOf data = decorator.returnType ∨ call.result = .ok data

omit [DecidableEq C] in
theorem Answered.of_records {decorator : Decorator A F K (TypeHint C) V} {s₀ s' : Store K V}
    {key : K} {call : Call A E V} {reply : Reply E F K V}
    (h : Answered decorator s key call reply s') (same : s.records = s₀.records) :
    Answered decorator s₀ key call reply s' :=
  ⟨h.alive, fun other ne => by rw [h.others other ne, same],
    fun e raised => by rw [h.raises e raised, same], h.stores, h.returns⟩

namespace Decorator

variable {self : Decorator A F K (TypeHint C) V} {key : K} {call : Call A E V}

omit [DecidableEq C] in
theorem refresh_ran (s : Store K V) (key : K) (call : Call A E V) :
    (self.refresh s key call).1.ran = true := by
  unfold refresh
  cases call.result with
  | error e => rfl
  | ok data =>
    cases self.writable with
    | false => rfl
    | true =>
      simp only [if_true]
      rcases s.put self.localTTL key data call with ⟨e | ⟨⟩, s'⟩ <;> rfl

omit [DecidableEq C] in
theorem refresh_answered (self : Decorator A F K (TypeHint C) V) (writable : self.writable = true)
    (key : K) (call : Call A E V)
    (h : AgreesAlive s.cache s.records) :
    Answered self s key call (self.refresh s key call).1 (self.refresh s key call).2 := by
  unfold refresh
  cases hresult : call.result with
  | error e => exact ⟨h, fun _ _ => rfl, fun _ _ => rfl, by simp, by simp⟩
  | ok data =>
    obtain ⟨alive, outcome⟩ := Store.put_alive self.localTTL key call h data
    simp only [writable, if_true]
    rcases hput : s.put self.localTTL key data call with ⟨answer, s'⟩
    rw [hput] at alive outcome
    rcases outcome with ⟨rfl, records⟩ | ⟨⟨e, rfl⟩, records⟩
    · refine ⟨alive, fun other ne => ?_, by simp, fun data' value same held => ?_,
        fun data' same => .inr (by rw [hresult, Except.ok.inj same])⟩
      · rw [records, Function.update_of_ne ne]
      · rw [records, Function.update_self] at held
        rw [← Option.some.inj held, Except.ok.inj same]
    · exact ⟨alive, fun other _ => by rw [records], fun _ _ => records, by simp, by simp⟩

theorem wrapper_answered (writable : self.writable = true) (h : AgreesAlive s.cache s.records)
    (hkey : self.key call = .ok key) :
    Answered self s key call (self.wrapper s call).1 (self.wrapper s call).2 ∧
      ∀ data, s.records key = some data → call.getRaises = false →
        if self.typeOf data = self.returnType then (self.wrapper s call).1 = ⟨.ok data, false, []⟩
        else (self.wrapper s call).1.ran = true := by
  obtain ⟨alive, records, got⟩ := Store.get_alive self.localTTL key call h
  rcases hget : s.get self.localTTL key call with ⟨answer, s'⟩
  rw [hget] at alive records got
  dsimp only at alive records got
  rw [← records] at alive
  have refreshed := (self.refresh_answered writable key call alive).of_records records
  cases answer with
  | error e =>
    have missing (data) (held : s.records key = some data) : call.getRaises ≠ false := by
      intro answers
      have := (got data held).2 answers
      cases this
    by_cases missed : e = .recordNotFound
    · subst missed
      rw [wrapper_of_missed hkey hget]
      exact ⟨refreshed, fun data held answers => absurd answers (missing data held)⟩
    · rw [wrapper_of_failed hkey hget missed]
      exact ⟨⟨alive, fun _ _ => by rw [records], fun _ _ => records, by simp, by simp⟩,
        fun data held answers => absurd answers (missing data held)⟩
  | ok data =>
    by_cases typed : self.typeOf data = self.returnType
    · rw [wrapper_of_typed hkey hget typed]
      refine ⟨⟨alive, fun _ _ => by rw [records], fun _ _ => records,
        fun data' value same held => ?_, fun data' same => .inl (by rwa [← Except.ok.inj same])⟩,
        fun value held _ => ?_⟩
      · rw [records] at held
        rw [(got value held).1 data rfl, Except.ok.inj same]
      · obtain rfl := (got value held).1 data rfl
        rw [if_pos typed]
    · rw [wrapper_of_untyped hkey hget typed]
      refine ⟨refreshed, fun value held _ => ?_⟩
      obtain rfl := (got value held).1 data rfl
      rw [if_neg typed]
      exact refresh_ran s' key call

theorem wrapped_eq (self : Decorator A F K (TypeHint C) V) (isCoroutine : Bool) :
    self.wrapped (E := E) isCoroutine = self.wrapper := by
  funext s call
  cases isCoroutine with
  | false => rfl
  | true => exact wrapperAsync_eq

end Decorator

/-! ## Every run -/

structure Tracks (s : Tracked K V) : Prop where
  alive : AgreesAlive s.store.cache s.store.records
  stored : ∀ key data, s.stored key = some data → s.store.records key = some data

namespace Decorator

variable {self : Decorator A F K (TypeHint C) V} {isCoroutine : Bool} {t : Tracked K V}

theorem step_call {key : K} {call : Call A E V} (hkey : self.key call = .ok key) :
    self.step isCoroutine t (.call call) =
      let (reply, store) := self.wrapper t.store call
      (some reply, ⟨store, track (.ok key) reply.result store t.stored⟩) := by
  simp only [step, wrapped_eq, hkey]

theorem step_stored (writable : self.writable = true) (h : Tracks t) {event : Event A E K V}
    {key : K} {data : V} (held : (self.step isCoroutine t event).2.stored key = some data) :
    (t.stored key = some data ∧
      (self.step isCoroutine t event).2.store.records key = t.store.records key) ∨
    ((self.step isCoroutine t event).2.store.records key = some data ∧
      (self.typeOf data = self.returnType ∨
        ∃ call, event = .call call ∧ call.result = .ok data)) := by
  cases event with
  | expire keys =>
    simp only [step] at held ⊢
    split_ifs at held with expired
    exact .inl ⟨held, by rw [if_neg expired]⟩
  | call call =>
    cases hkey : self.key call with
    | error e =>
      simp only [step, wrapped_eq, wrapper_of_error hkey, hkey, track] at held ⊢
      exact .inl ⟨held, trivial⟩
    | ok key' =>
      obtain ⟨answered, -⟩ := wrapper_answered writable h.alive hkey
      rw [step_call hkey] at held ⊢
      rcases hrun : self.wrapper t.store call with ⟨reply, s'⟩
      rw [hrun] at answered held
      cases hresult : reply.result with
      | error e =>
        simp only [hresult, track] at held ⊢
        exact .inl ⟨held, by rw [answered.raises e hresult]⟩
      | ok value =>
        simp only [hresult, track] at held ⊢
        by_cases same : key = key'
        · subst same
          rw [Function.update_self] at held
          obtain rfl := answered.stores value data hresult held
          exact .inr ⟨held, (answered.returns data hresult).imp_right fun gave => ⟨call, rfl, gave⟩⟩
        · rw [Function.update_of_ne same] at held
          exact .inl ⟨held, answered.others key same⟩

theorem step_alive (writable : self.writable = true) (h : Tracks t) (event : Event A E K V) :
    AgreesAlive (self.step isCoroutine t event).2.store.cache
      (self.step isCoroutine t event).2.store.records := by
  cases event with
  | expire keys => exact h.alive.expire keys
  | call call =>
    cases hkey : self.key call with
    | error e =>
      simp only [step, wrapped_eq, wrapper_of_error hkey]
      exact h.alive
    | ok key =>
      rw [step_call hkey]
      exact (wrapper_answered writable h.alive hkey).1.alive

theorem step_tracks (writable : self.writable = true) (h : Tracks t) (event : Event A E K V) :
    Tracks (self.step isCoroutine t event).2 where
  alive := step_alive writable h event
  stored key data held := by
    rcases step_stored writable h held with ⟨before, same⟩ | ⟨now, -⟩
    · rw [same]
      exact h.stored key data before
    · exact now

theorem step_due (isCoroutine : Bool) (writable : self.writable = true) (h : Tracks t)
    {event : Event A E K V} {data : V} (due : self.Due t event data) :
    ∃ answer, (self.step isCoroutine t event).1 = some answer ∧
      if self.typeOf data = self.returnType then answer = ⟨.ok data, false, []⟩
      else answer.ran = true := by
  obtain ⟨call, key, rfl, answers, hkey, stored⟩ := due
  obtain ⟨-, hit⟩ := wrapper_answered writable h.alive hkey
  exact ⟨_, by rw [step_call hkey], hit data (h.stored key data stored) answers⟩

theorem cached_iff (writable : self.writable = true) (h : Tracks t) (event : Event A E K V) :
    self.Cached t event (self.step isCoroutine t event).1 ↔
      ∀ data, self.Due t event data → self.typeOf data = self.returnType := by
  refine forall_congr' fun data => forall_congr' fun due => ?_
  obtain ⟨answer, same, outcome⟩ := step_due isCoroutine writable h due
  rw [same]
  by_cases typed : self.typeOf data = self.returnType
  · rw [if_pos typed] at outcome
    exact iff_of_true ⟨answer, rfl, by rw [outcome], by rw [outcome]⟩ typed
  · rw [if_neg typed] at outcome
    refine iff_of_false ?_ typed
    rintro ⟨_, ⟨⟩, -, ran⟩
    rw [outcome] at ran
    cases ran

theorem step_typed (writable : self.writable = true) (h : Tracks t)
    (typed : ∀ key data, t.stored key = some data → self.typeOf data = self.returnType)
    {event : Event A E K V} (gives : ∀ call, event = .call call → ∀ data, call.result = .ok data →
      self.typeOf data = self.returnType) (key : K) (data : V)
    (held : (self.step isCoroutine t event).2.stored key = some data) :
    self.typeOf data = self.returnType := by
  rcases step_stored writable h held with ⟨before, -⟩ | ⟨-, hit | ⟨call, same, gave⟩⟩
  · exact typed key data before
  · exact hit
  · exact gives call same data gave

end Decorator

/-- In every run of a writable cache, each call after one under its key, as long as the record
lives, is served from the store exactly if what is stored there has the very class that is
declared. It is always so if the function gives such values only, and never so if the annotation
is not a class. -/
theorem aerospikeCache_cached_iff {spec : ArgSpec A}
    {format : OrderedDict String (PyVal A) → Except F K} (classes : Classes C V)
    {declared : Option (TypeHint C)} {localTTL : ℚ} {self : Decorator A F K (TypeHint C) V}
    (decorated : decorate spec format (fun data => .cls (classes.type data)) declared localTTL
      false = .ok self)
    (isCoroutine : Bool) {store : Store K V} (agrees : Agrees store.cache store.records)
    (events : List (Event A E K V)) :
    (Always (self.step isCoroutine) self.Cached ⟨store, fun _ => none⟩ events ↔
      Always (self.step isCoroutine) (fun t event _ => ∀ data, self.Due t event data →
        declared = some (.cls (classes.type data))) ⟨store, fun _ => none⟩ events) ∧
    ((∀ call, .call call ∈ events → ∀ data, call.result = .ok data →
        declared = some (.cls (classes.type data))) →
      Always (self.step isCoroutine) self.Cached ⟨store, fun _ => none⟩ events) ∧
    ((∀ c, declared ≠ some (.cls c)) →
      Always (self.step isCoroutine) (fun t event reply => ∀ data, self.Due t event data →
        ∃ answer, reply = some answer ∧ answer.ran = true) ⟨store, fun _ => none⟩ events) := by
  obtain ⟨returnType, writable, typeOf⟩ := decorate_eq_ok decorated
  have exact_type (data : V) :
      self.typeOf data = self.returnType ↔ declared = some (.cls (classes.type data)) := by
    rw [typeOf, returnType, Option.some.injEq, eq_comm]
  have start : Tracks (⟨store, fun _ => none⟩ : Tracked K V) :=
    ⟨.of_agrees agrees, fun key data held => by cases held⟩
  refine ⟨always_congr ?_, ?_, ?_⟩
  · refine always_of_inv (I := Tracks) (C := fun _ => True) ?_ start (by simp)
    intro t event h _
    simp only [← exact_type]
    exact ⟨Decorator.cached_iff writable h event, Decorator.step_tracks writable h event⟩
  · intro gives
    let I (t : Tracked K V) : Prop := Tracks t ∧
      ∀ key data, t.stored key = some data → self.typeOf data = self.returnType
    let C (event : Event A E K V) : Prop := ∀ call, event = .call call →
      ∀ data, call.result = .ok data → self.typeOf data = self.returnType
    refine always_of_inv (I := I) (C := C) ?_ ⟨start, fun key data held => by cases held⟩ ?_
    · rintro t event ⟨h, typed⟩ gives
      refine ⟨(Decorator.cached_iff writable h event).mpr ?_,
        Decorator.step_tracks writable h event, Decorator.step_typed writable h typed gives⟩
      rintro data ⟨-, key, -, -, -, stored⟩
      exact typed key data stored
    · rintro _ mem call rfl data gave
      exact (exact_type data).mpr (gives call mem data gave)
  · intro other
    refine always_of_inv (I := Tracks) (C := fun _ => True) ?_ start (by simp)
    intro t event h _
    refine ⟨fun data due => ?_, Decorator.step_tracks writable h event⟩
    obtain ⟨answer, same, outcome⟩ := Decorator.step_due isCoroutine writable h due
    rw [if_neg fun typed => other _ ((exact_type data).mp typed)] at outcome
    exact ⟨answer, same, outcome⟩

/-- Numbers are of the class `int` here, and nothing else is stored. -/
def numbers : Classes String ℕ where
  type _ := "int"
  issubclass c d := c = d
  contents _ _ := []

def callSeven : Call ℕ Empty ℕ := ⟨⟨[.atom 1], []⟩, .ok 7, 0, 0, false, 0, false⟩

def cacheOf (declared : TypeHint String) : Decorator ℕ Empty String (TypeHint String) ℕ :=
  ⟨⟨["a"], []⟩, fun _ => .ok "1", fun data => .cls (numbers.type data), declared, true, 1⟩

theorem aerospikeCache_cached_iff_int :
    let self := cacheOf (.cls "int")
    Always (self.step false) self.Cached ⟨⟨∅, fun _ => none⟩, fun _ => none⟩
      [.call callSeven, .call callSeven] := by
  intro self
  have decorated : decorate ⟨["a"], []⟩ (fun _ => .ok "1") (fun data => .cls (numbers.type data))
      (some (.cls "int")) 1 false = .ok self := rfl
  exact (aerospikeCache_cached_iff numbers decorated false (agrees_empty _) _).2.1
    fun _ _ _ _ => rfl

/-- The annotation is `Optional[int]`: the second call runs the function again. -/
theorem aerospikeCache_not_cached :
    ¬ ∀ (declared : TypeHint String) (self : Decorator ℕ Empty String (TypeHint String) ℕ),
      decorate ⟨["a"], []⟩ (fun _ => .ok "1") (fun data => .cls (numbers.type data))
        (some declared) 1 false = .ok self →
      ∀ (isCoroutine : Bool) (events : List (Event ℕ Empty String ℕ)),
        (∀ call, .call call ∈ events → ∀ data, call.result = .ok data →
          numbers.Conforms data declared) →
        Always (self.step isCoroutine) self.Cached ⟨⟨∅, fun _ => none⟩, fun _ => none⟩ events := by
  intro all
  let optional : TypeHint String := .union (.cls "int") (.cls "NoneType") .nil
  have conforms (data : ℕ) : numbers.Conforms data optional := by
    simp [optional, Classes.Conforms, numbers]
  obtain ⟨-, second, -⟩ := all optional (cacheOf optional) rfl false
    [.call callSeven, .call callSeven] fun _ _ data _ => conforms data
  obtain ⟨answer, same, -, ran⟩ := second 7 ⟨callSeven, "1", rfl, rfl, rfl, by decide⟩
  have again : (((cacheOf optional).step false ((cacheOf optional).step false
      ⟨⟨∅, fun _ => none⟩, fun _ => none⟩ (.call callSeven)).2 (.call callSeven)).1.map Reply.ran) =
      some true := by
    decide +kernel
  rw [same, Option.map_some, ran] at again
  cases again

end KhCommon.AerospikeCache
