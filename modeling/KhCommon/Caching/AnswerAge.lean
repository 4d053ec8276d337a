import KhCommon.Caching.AerospikeCache
import KhCommon.Caching.Order
import Mathlib.Tactic.Linarith

/-! How old an answer of `AerospikeCache` can be. Many processes share the records of
one set, each with a local cache of its own, and a call in one of them may begin while
another runs its function. The two steps of a call are what it does at the cluster: its
`get`, and after a run of the function its `put`. The cluster keeps a record no longer
than the TTL it was put with; it may drop it earlier. -/

namespace KhCommon.AerospikeCache

open Machine KeyValueStore ExpiringDict

variable {P A E F K T V : Type*}

section Halves

variable [DecidableEq K] [DecidableEq T] (self : Decorator A F K T V)

/-- The wrapper up to the function: an answer, or the key for which the function is to run. -/
def Decorator.lookup (s : Store K V) (call : Call A E V) :
    (Except (Exc E F) V ⊕ K) × Store K V :=
  match self.key call with
  | .error e => (.inl (.error (.format e)), s)
  | .ok key =>
    match s.get self.localTTL key call with
    | (.error .recordNotFound, s) => (.inr key, s)
    | (.error e, s) => (.inl (.error (.store e)), s)
    | (.ok data, s) =>
      if self.typeOf data ≠ self.returnType then (.inr key, s) else (.inl (.ok data), s)

theorem Decorator.wrapper_eq_lookup (s : Store K V) (call : Call A E V) :
    self.wrapper s call =
      match self.lookup s call with
      | (.inl answer, s) => (⟨answer, false, []⟩, s)
      | (.inr key, s) => self.refresh s key call := by
  unfold wrapper lookup
  cases self.key call with
  | error e => rfl
  | ok key =>
    dsimp only
    rcases s.get self.localTTL key call with ⟨e | data, s'⟩
    · cases e <;> rfl
    · dsimp only
      split_ifs <;> rfl

end Halves

structure Run (K V : Type*) where
  key : K
  data : V
  ended : ℚ

/-- The processes and the cluster. A process makes one call at a time, and holds it while it runs
the function. A record is kept with the time at which it was written; `runs` is what the function
has returned so far, wherever it ran. -/
structure System (P A E K V : Type*) where
  caches : P → Cache K V
  records : K → Option (ℚ × V)
  running : P → Option (Call A E V × K)
  clock : P → ℚ
  runs : List (Run K V)

/-- A call of a process reads at `read` what the cluster still has, `gone` being dropped by then;
or its function has ended, and what it returned is written at `written`. -/
inductive Step (P A E K V : Type*)
  | get (p : P) (call : Call A E V) (read : ℚ) (gone : K → Bool)
  | refresh (p : P) (ended written : ℚ)

structure Answer (P A E F V : Type*) where
  process : P
  call : Call A E V
  result : Except (Exc E F) V

variable [DecidableEq P] [DecidableEq K] [DecidableEq T]

def System.store (s : System P A E K V) (p : P) (records : K → Option (ℚ × V)) : Store K V :=
  ⟨s.caches p, fun key => (records key).map Prod.snd⟩

def step (wrapped : P → Decorator A F K T V) (s : System P A E K V) :
    Step P A E K V → Option (Answer P A E F V) × System P A E K V
  | .get p call _ gone =>
    match s.running p with
    | some _ => (none, s)
    | none =>
      let records := fun key => if gone key then none else s.records key
      let (found, store) := (wrapped p).lookup (s.store p records) call
      let s := { s with
        caches := Function.update s.caches p store.cache
        records := records
        clock := Function.update s.clock p call.t }
      match found with
      | .inl result => (some ⟨p, call, result⟩, s)
      | .inr key => (none, { s with running := Function.update s.running p (some (call, key)) })
  | .refresh p ended written =>
    match s.running p with
    | none => (none, s)
    | some (call, key) =>
      let (reply, store) := (wrapped p).refresh (s.store p s.records) key call
      (some ⟨p, call, reply.result⟩, {
        caches := Function.update s.caches p store.cache
        records := match reply.puts with
          | [] => s.records
          | (key, data) :: _ => Function.update s.records key (some (written, data))
        running := Function.update s.running p none
        clock := Function.update s.clock p call.stored
        runs := match call.result with
          | .ok data => ⟨key, data, ended⟩ :: s.runs
          | .error _ => s.runs })

def start (t₀ : ℚ) : System P A E K V := ⟨fun _ => ∅, fun _ => none, fun _ => none, fun _ => t₀, []⟩

/-- The function returns values of the declared type, which is the same everywhere. -/
def Conforms (wrapped : P → Decorator A F K T V) : Step P A E K V → Prop
  | .get _ call _ _ =>
    ∀ data, call.result = .ok data → ∀ p, (wrapped p).typeOf data = (wrapped p).returnType
  | .refresh .. => True

/-- The readings of a process are in the order of the code, no call of the cluster takes longer than
`δ`, and the cluster has dropped every record that is older than `TTL`. -/
def Timely (TTL δ : ℚ) (s : System P A E K V) : Step P A E K V → Prop
  | .get p call read gone =>
    (s.clock p ≤ call.now ∧ call.now ≤ read ∧ read ≤ call.t ∧ call.t ≤ read + δ) ∧
      ∀ key written data, s.records key = some (written, data) → gone key = false →
        read ≤ written + TTL
  | .refresh p ended written =>
    ∀ call key, s.running p = some (call, key) →
      s.clock p ≤ ended ∧ ended ≤ written ∧ written ≤ call.stored ∧ call.stored ≤ ended + δ

/-! ## The halves of a call -/

section Specs

variable {self : Decorator A F K T V} {s : Store K V} {call : Call A E V} {t₀ : ℚ}

def Read (s : Store K V) (exp : ℚ) (cache : Cache K V) : Prop :=
  ∀ key entry, cache.get? key = some entry →
    s.cache.get? key = some entry ∨ entry.1 = exp ∧ s.records key = some entry.2

def Found (s : Store K V) (now : ℚ) (key : K) (data : V) : Prop :=
  s.records key = some data ∨ ∃ exp, s.cache.get? key = some (exp, data) ∧ now ≤ exp

structure Got (s s' : Store K V) (localTTL t : ℚ) : Prop where
  records : s'.records = s.records
  ordered : Ordered localTTL t s'.cache
  read : Read s (t + localTTL) s'.cache

omit [DecidableEq K] in
theorem client_get_cases (records : K → Option V) (raises : Bool) (key : K) :
    let client : Client K V := ⟨records, raises, [], false⟩
    (∃ e, client.get key = .error e) ∨
      ∃ data, client.get key = .ok data ∧ records key = some data := by
  intro client
  cases raises with
  | true => exact .inl ⟨.clientError, by simp [client, Client.get]⟩
  | false =>
    cases record : records key with
    | none => exact .inl ⟨.recordNotFound, by simp [client, Client.get, record]⟩
    | some data => exact .inr ⟨data, by simp [client, Client.get, record], rfl⟩

omit [DecidableEq T] in
theorem Store.get_cases (h : Ordered self.localTTL t₀ s.cache) (now : t₀ ≤ call.now)
    (later : call.now ≤ call.t) (key : K) :
    let got := s.get self.localTTL key call
    Got s got.2 self.localTTL call.t ∧
      match got.1 with
      | .ok data => Found s call.now key data
      | .error _ => key ∉ got.2.cache := by
  have cleared : Ordered self.localTTL call.t (clearCache call.now s.cache) :=
    (h.later (now.trans later)).clear call.now
  have kept : ∀ k entry, (clearCache call.now s.cache).get? k = some entry →
      s.cache.get? k = some entry ∧ call.now ≤ entry.1 :=
    fun k entry held => (h.get?_clearCache now).mp held
  unfold Store.get
  cases hit : (clearCache call.now s.cache).get? key with
  | some entry =>
    rw [get_hit _ _ _ _ _ hit]
    exact ⟨⟨rfl, cleared, fun k entry held => .inl (kept k entry held).1⟩,
      .inr ⟨entry.1, kept key entry hit⟩⟩
  | none =>
    have absent := OrderedDict.get?_eq_none_iff.mp hit
    rw [get_miss _ _ _ _ _ hit]
    obtain ⟨e, raised⟩ | ⟨data, answered, record⟩ :=
      client_get_cases s.records call.getRaises key
    · rw [raised]
      exact ⟨⟨rfl, cleared, fun k entry held => .inl (kept k entry held).1⟩, absent⟩
    · rw [answered]
      refine ⟨⟨rfl, cleared.add absent data, fun k entry held => ?_⟩, .inl record⟩
      rw [OrderedDict.get?_assign] at held
      split_ifs at held with same
      · obtain rfl := Option.some.inj held
        exact .inr ⟨rfl, same ▸ record⟩
      · exact .inl (kept k entry held).1

theorem Decorator.lookup_cases (s : Store K V) (call : Call A E V)
    (h : Ordered self.localTTL t₀ s.cache) (now : t₀ ≤ call.now)
    (later : call.now ≤ call.t) :
    let found := self.lookup s call
    Got s found.2 self.localTTL call.t ∧
      match found.1 with
      | .inl (.ok data) => ∃ key, self.key call = .ok key ∧ Found s call.now key data
      | .inl (.error _) => True
      | .inr key => self.key call = .ok key ∧ (key ∉ found.2.cache ∨
          ∃ data, Found s call.now key data ∧ self.typeOf data ≠ self.returnType) := by
  unfold lookup
  cases hkey : self.key call with
  | error e =>
    exact ⟨⟨rfl, h.later (now.trans later), fun k entry held => .inl held⟩, trivial⟩
  | ok key =>
    have spec := Store.get_cases h now later key
    dsimp only
    rcases hget : s.get self.localTTL key call with ⟨e | data, s'⟩
    · rw [hget] at spec
      cases e with
      | recordNotFound => exact ⟨spec.1, rfl, .inl spec.2⟩
      | clientError => exact ⟨spec.1, trivial⟩
      | keyError => exact ⟨spec.1, trivial⟩
    · rw [hget] at spec
      dsimp only
      split_ifs with typed
      · exact ⟨spec.1, rfl, .inr ⟨data, spec.2, typed⟩⟩
      · exact ⟨spec.1, key, rfl, spec.2⟩

omit [DecidableEq T] in
theorem Decorator.refresh_cases (self : Decorator A F K T V) (s : Store K V) (key : K)
    (call : Call A E V) :
    let ran := self.refresh s key call
    (∀ data, ran.1.result = .ok data → call.result = .ok data) ∧
      (ran.1.puts = [] ∧ ran.2.cache = s.cache ∨
        ∃ data, call.result = .ok data ∧ ran.1.puts = [(key, data)] ∧
          ran.2.cache = s.cache.assign key (call.stored + self.localTTL, data)) := by
  unfold refresh
  cases hresult : call.result with
  | error e => simp
  | ok data =>
    cases self.writable with
    | false => simp
    | true =>
      cases raised : call.putRaises <;>
        simp [Store.put, KeyValueStore.put, Client.put, raised]

end Specs

/-! ## One step, and every run -/

def RanBy (runs : List (Run K V)) (key : K) (data : V) (time age : ℚ) : Prop :=
  ∃ r ∈ runs, r.key = key ∧ r.data = data ∧ time ≤ r.ended + age

/-- How old an answer can be: a record as old as it gets is read, stored late and served to the
last moment. -/
def maxAge (self : Decorator A F K T V) (TTL δ : ℚ) : ℚ := TTL + self.localTTL + 2 * δ

structure Aged (wrapped : P → Decorator A F K T V) (TTL δ : ℚ) (s : System P A E K V) : Prop where
  records : ∀ key written data, s.records key = some (written, data) →
    RanBy s.runs key data written δ
  entries : ∀ p key exp data, (s.caches p).get? key = some (exp, data) →
    RanBy s.runs key data exp (maxAge (wrapped p) TTL δ)
  ordered : ∀ p, Ordered (wrapped p).localTTL (s.clock p) (s.caches p)
  running : ∀ p call key, s.running p = some (call, key) →
    (wrapped p).key call = .ok key ∧ key ∉ s.caches p ∧ call.now ≤ s.clock p ∧
      ∀ data, call.result = .ok data → ∀ q, (wrapped q).typeOf data = (wrapped q).returnType
  typed : ∀ r ∈ s.runs, ∀ q, (wrapped q).typeOf r.data = (wrapped q).returnType

def Fresh (wrapped : P → Decorator A F K T V) (TTL δ : ℚ) (runs : List (Run K V))
    (answer : Answer P A E F V) : Prop :=
  ∀ data, answer.result = .ok data → ∃ key, (wrapped answer.process).key answer.call = .ok key ∧
    RanBy runs key data answer.call.now (maxAge (wrapped answer.process) TTL δ)

variable {wrapped : P → Decorator A F K T V} {TTL δ : ℚ} {s : System P A E K V}

omit [DecidableEq P] [DecidableEq K] [DecidableEq T] in
theorem RanBy.of_le {runs : List (Run K V)} {key : K} {data : V} {time time' age age' : ℚ}
    (h : RanBy runs key data time age) (le : time' + age ≤ time + age') :
    RanBy runs key data time' age' := by
  obtain ⟨r, hr, hkey, hdata, recent⟩ := h
  exact ⟨r, hr, hkey, hdata, by linarith⟩

omit [DecidableEq P] [DecidableEq K] [DecidableEq T] in
theorem RanBy.mono {runs runs' : List (Run K V)} {key : K} {data : V} {time age : ℚ}
    (h : RanBy runs key data time age) (sub : runs ⊆ runs') : RanBy runs' key data time age := by
  obtain ⟨r, hr, ran⟩ := h
  exact ⟨r, sub hr, ran⟩

omit [DecidableEq P] [DecidableEq T] in
theorem aged_start (t₀ : ℚ) : Aged wrapped TTL δ (start t₀ : System P A E K V) where
  records := nofun
  entries _ _ _ _ held := by simp [start] at held
  ordered _ := ordered_empty t₀
  running := nofun
  typed := nofun

omit [DecidableEq P] [DecidableEq T] in
theorem Aged.of_found (h : Aged wrapped TTL δ s) {p : P} (localTTL : 0 ≤ (wrapped p).localTTL)
    {records : K → Option (ℚ × V)} {now read : ℚ} (latency : 0 ≤ δ) (order : now ≤ read)
    (kept : ∀ key written data, records key = some (written, data) →
      s.records key = some (written, data) ∧ read ≤ written + TTL)
    {key : K} {data : V} (found : Found (s.store p records) now key data) :
    RanBy s.runs key data now (maxAge (wrapped p) TTL δ) := by
  obtain record | ⟨exp, cached, fresh⟩ := found
  · obtain ⟨⟨written, data⟩, stored, rfl⟩ := Option.map_eq_some_iff.mp record
    obtain ⟨left, recent⟩ := kept key written data stored
    refine (h.records key written data left).of_le ?_
    unfold maxAge
    linarith
  · refine (h.entries p key exp data cached).of_le ?_
    linarith

omit [DecidableEq T] in
theorem Aged.got (h : Aged wrapped TTL δ s) (p : P) {records : K → Option (ℚ × V)}
    {store : Store K V} {read t : ℚ}
    (idle : s.running p = none) (late : t ≤ read + δ)
    (kept : ∀ key written data, records key = some (written, data) →
      s.records key = some (written, data) ∧ read ≤ written + TTL)
    (got : Got (s.store p records) store (wrapped p).localTTL t) :
    Aged wrapped TTL δ { s with
      caches := Function.update s.caches p store.cache
      records := records
      clock := Function.update s.clock p t } where
  records key written data record := h.records key written data (kept key written data record).1
  entries q key exp data held := by
    rcases eq_or_ne q p with rfl | other
    · simp only [Function.update_self] at held
      obtain before | ⟨rfl, record⟩ := got.read key (exp, data) held
      · exact h.entries q key exp data before
      · obtain ⟨⟨written, data⟩, stored, rfl⟩ := Option.map_eq_some_iff.mp record
        obtain ⟨left, recent⟩ := kept key written data stored
        refine (h.records key written data left).of_le ?_
        unfold maxAge
        linarith
    · simp only [Function.update_of_ne other] at held
      exact h.entries q key exp data held
  ordered q := by
    rcases eq_or_ne q p with rfl | other
    · simpa only [Function.update_self] using got.ordered
    · simpa only [Function.update_of_ne other] using h.ordered q
  running q call key runs := by
    have other : q ≠ p := by
      rintro rfl
      rw [idle] at runs
      cases runs
    simpa only [Function.update_of_ne other] using h.running q call key runs
  typed := h.typed

theorem Aged.get (h : Aged wrapped TTL δ s)
    (localTTL : ∀ p, 0 ≤ (wrapped p).localTTL) {p : P} {call : Call A E V} {read : ℚ}
    {gone : K → Bool} (timely : Timely TTL δ s (.get p call read gone))
    (conforms : Conforms wrapped (.get p call read gone)) :
    let next := step wrapped s (.get p call read gone)
    (∀ answer, next.1 = some answer → Fresh wrapped TTL δ next.2.runs answer) ∧
      Aged wrapped TTL δ next.2 := by
  obtain ⟨⟨now, before, after, late⟩, lifetime⟩ := timely
  simp only [step]
  cases idle : s.running p with
  | some running =>
    refine ⟨?_, h⟩
    rintro answer ⟨⟩
  | none =>
    dsimp only
    set records : K → Option (ℚ × V) := fun key => if gone key then none else s.records key
      with hrecords
    have kept : ∀ key written data, records key = some (written, data) →
        s.records key = some (written, data) ∧ read ≤ written + TTL := by
      intro key written data record
      simp only [hrecords] at record
      split_ifs at record with dropped
      exact ⟨record, lifetime key written data record (by simpa using dropped)⟩
    have spec := Decorator.lookup_cases (s.store p records) call (h.ordered p) now
      (before.trans after)
    have found {key : K} {data : V} : Found (s.store p records) call.now key data →
        RanBy s.runs key data call.now (maxAge (wrapped p) TTL δ) :=
      h.of_found (localTTL p) (by linarith) before kept
    rcases looks : (wrapped p).lookup (s.store p records) call with ⟨result | key, store⟩
    · rw [looks] at spec
      obtain ⟨got, answers⟩ := spec
      refine ⟨?_, h.got p idle late kept got⟩
      rintro answer ⟨⟩ data rfl
      obtain ⟨key, hkey, hfound⟩ := answers
      exact ⟨key, hkey, found hfound⟩
    · rw [looks] at spec
      obtain ⟨got, answers⟩ := spec
      have looked := h.got p idle late kept got
      constructor
      · rintro answer ⟨⟩
      refine ⟨looked.records, looked.entries, looked.ordered, fun q call' key' runs => ?_,
        looked.typed⟩
      rcases eq_or_ne q p with rfl | other
      · simp only [Function.update_self, Option.some.injEq, Prod.mk.injEq] at runs
        obtain ⟨rfl, rfl⟩ := runs
        obtain ⟨hkey, absent | ⟨data, hfound, untyped⟩⟩ := answers
        · simp only [Function.update_self]
          exact ⟨hkey, absent, before.trans after, conforms⟩
        · obtain ⟨r, hr, -, rfl, -⟩ := found hfound
          exact absurd (h.typed r hr q) untyped
      · simp only [Function.update_of_ne other] at runs
        exact looked.running q call' key' runs

omit [DecidableEq T] in
theorem Aged.ran (h : Aged wrapped TTL δ s) (p : P) {cache : Cache K V}
    {records : K → Option (ℚ × V)} {stored : ℚ} {runs : List (Run K V)} (sub : s.runs ⊆ runs)
    (typed : ∀ r ∈ runs, ∀ q, (wrapped q).typeOf r.data = (wrapped q).returnType)
    (written : ∀ key time data, records key = some (time, data) →
      s.records key = some (time, data) ∨ RanBy runs key data time δ)
    (cached : ∀ key exp data, cache.get? key = some (exp, data) →
      (s.caches p).get? key = some (exp, data) ∨
        RanBy runs key data exp (maxAge (wrapped p) TTL δ))
    (ordered : Ordered (wrapped p).localTTL stored cache) :
    Aged wrapped TTL δ {
      caches := Function.update s.caches p cache
      records := records
      running := Function.update s.running p none
      clock := Function.update s.clock p stored
      runs := runs } where
  records key time data record :=
    (written key time data record).elim (fun old => (h.records key time data old).mono sub) id
  entries q key exp data held := by
    rcases eq_or_ne q p with rfl | other
    · simp only [Function.update_self] at held
      exact (cached key exp data held).elim
        (fun old => (h.entries q key exp data old).mono sub) id
    · simp only [Function.update_of_ne other] at held
      exact (h.entries q key exp data held).mono sub
  ordered q := by
    rcases eq_or_ne q p with rfl | other
    · simpa only [Function.update_self] using ordered
    · simpa only [Function.update_of_ne other] using h.ordered q
  running q call key running := by
    rcases eq_or_ne q p with rfl | other
    · simp at running
    · simp only [Function.update_of_ne other] at running ⊢
      exact h.running q call key running
  typed := typed

theorem Aged.refresh (h : Aged wrapped TTL δ s) (ttl : 0 ≤ TTL)
    (localTTL : ∀ p, 0 ≤ (wrapped p).localTTL) {p : P} {ended written : ℚ}
    (timely : Timely TTL δ s (.refresh p ended written)) :
    let next := step wrapped s (.refresh p ended written)
    (∀ answer, next.1 = some answer → Fresh wrapped TTL δ next.2.runs answer) ∧
      Aged wrapped TTL δ next.2 := by
  simp only [step]
  cases runs : s.running p with
  | none =>
    refine ⟨?_, h⟩
    rintro answer ⟨⟩
  | some running =>
    obtain ⟨call, key⟩ := running
    obtain ⟨now, writes, after, late⟩ := timely call key runs
    obtain ⟨hkey, absent, begun, conforms⟩ := h.running p call key runs
    obtain ⟨returns, puts⟩ := (wrapped p).refresh_cases (s.store p s.records) key call
    have ordered : Ordered (wrapped p).localTTL call.stored (s.caches p) :=
      (h.ordered p).later ((now.trans writes).trans after)
    dsimp only
    generalize (wrapped p).refresh (s.store p s.records) key call = ran at returns puts ⊢
    cases result : call.result with
    | error e =>
      rw [result] at returns puts
      obtain ⟨none, same⟩ | ⟨data, returned, -⟩ := puts
      · refine ⟨?_, ?_⟩
        · rintro answer ⟨⟩ data answered
          cases returns data answered
        · rw [none, same]
          exact h.ran p (List.Subset.refl _) h.typed (fun _ _ _ => .inl) (fun _ _ _ => .inl) ordered
      · cases returned
    | ok data =>
      rw [result] at returns puts
      have typed : ∀ r ∈ (⟨key, data, ended⟩ :: s.runs : List (Run K V)), ∀ q,
          (wrapped q).typeOf r.data = (wrapped q).returnType :=
        List.forall_mem_cons.mpr ⟨conforms data result, h.typed⟩
      have mine {time age : ℚ} (recent : time ≤ ended + age) :
          RanBy (⟨key, data, ended⟩ :: s.runs) key data time age :=
        ⟨_, List.mem_cons_self, rfl, rfl, recent⟩
      have old : 0 ≤ maxAge (wrapped p) TTL δ := by
        have := localTTL p
        unfold maxAge
        linarith
      refine ⟨?_, ?_⟩
      · rintro answer ⟨⟩ data' answered
        obtain rfl := Except.ok.inj (returns data' answered)
        exact ⟨key, hkey, mine (by dsimp only; linarith)⟩
      · obtain ⟨none, same⟩ | ⟨data', returned, put, same⟩ := puts
        · rw [none, same]
          exact h.ran p (List.subset_cons_self _ _) typed (fun _ _ _ => .inl) (fun _ _ _ => .inl)
            ordered
        · obtain rfl := Except.ok.inj returned
          rw [put, same]
          refine h.ran p (List.subset_cons_self _ _) typed (fun k time value record => ?_)
            (fun k exp value held => ?_) (ordered.add absent data)
          · simp only [Function.update_apply] at record
            split_ifs at record with this
            · cases record
              exact .inr (this ▸ mine (by linarith))
            · exact .inl record
          · rw [OrderedDict.get?_assign] at held
            split_ifs at held with this
            · cases held
              refine .inr (this ▸ mine ?_)
              unfold maxAge
              linarith
            · exact .inl held

/-- However the calls of the processes fall together, one at a time in each of them, and whatever
the cluster drops early: every answer was returned by a run of the function for the same key, in
one of the processes, that ended at most the TTL, the local TTL and twice the latency before the
call began. -/
theorem answers_aged (wrapped : P → Decorator A F K T V) (ttl : 0 ≤ TTL)
    (localTTL : ∀ p, 0 ≤ (wrapped p).localTTL) (t₀ : ℚ) (steps : List (Step P A E K V))
    (timely : Always (step wrapped) (fun s i _ => Timely TTL δ s i) (start t₀) steps)
    (conforms : ∀ i ∈ steps, Conforms wrapped i) :
    Always (step wrapped) (fun s i o => ∀ answer, o = some answer →
      Fresh wrapped TTL δ (step wrapped s i).2.runs answer) (start t₀) steps := by
  have aged : Aged wrapped TTL δ (start t₀ : System P A E K V) := aged_start t₀
  generalize (start t₀ : System P A E K V) = s at timely aged
  induction steps generalizing s with
  | nil => trivial
  | cons i steps ih =>
    rw [List.forall_mem_cons] at conforms
    have next : (∀ answer, (step wrapped s i).1 = some answer →
        Fresh wrapped TTL δ (step wrapped s i).2.runs answer) ∧
          Aged wrapped TTL δ (step wrapped s i).2 := by
      cases i with
      | get p call read gone => exact aged.get localTTL timely.1 conforms.1
      | refresh p ended written => exact aged.refresh ttl localTTL timely.1
    exact ⟨next.1, ih conforms.2 _ timely.2 next.2⟩

/-- One process runs the function at 0 and puts what it gave; another reads the record at 5, when
it is about to go, and answers from its own cache at 6. -/
theorem answers_aged_two :
    let wrapped : Bool → Decorator ℕ Empty String Bool ℕ := fun _ =>
      ⟨⟨["a"], []⟩, fun _ => .ok "1", fun _ => true, true, true, 1⟩
    let call : ℚ → Call ℕ Empty ℕ := fun t => ⟨⟨[.atom 1], []⟩, .ok 7, t, t, false, t, false⟩
    let steps : List (Step Bool ℕ Empty String ℕ) :=
      [.get false (call 0) 0 fun _ => false, .refresh false 0 0,
        .get true (call 5) 5 fun _ => false, .get true (call 6) 6 fun _ => true]
    Always (step wrapped) (fun s i o => ∀ answer, o = some answer →
      Fresh wrapped 5 0 (step wrapped s i).2.runs answer) (start 0) steps := by
  intro wrapped call steps
  refine answers_aged wrapped (by norm_num) (fun _ => by simp [wrapped]) 0 steps ?_ ?_
  · set s₁ := (step wrapped (start 0) (.get false (call 0) 0 fun _ => false)).2
    set s₂ := (step wrapped s₁ (.refresh false 0 0)).2
    set s₃ := (step wrapped s₂ (.get true (call 5) 5 fun _ => false)).2
    have running : s₁.running false = some (call 0, "1") := rfl
    have records : s₂.records = Function.update (fun _ => none) "1" (some (0, 7)) := rfl
    have clock : s₁.clock false = 0 ∧ s₂.clock true = 0 ∧ s₃.clock true = 5 := ⟨rfl, rfl, rfl⟩
    refine ⟨⟨by norm_num [start, call], nofun⟩, ?_, ⟨?_, ?_⟩, ⟨?_, by simp⟩, trivial⟩
    · intro call' key runs
      rw [running] at runs
      cases runs
      change s₁.clock false ≤ _ ∧ _
      norm_num [clock.1, call]
    · change s₂.clock true ≤ _ ∧ _
      norm_num [clock.2.1, call]
    · intro key written data record _
      change s₂.records key = _ at record
      rw [records, Function.update_apply] at record
      split_ifs at record
      cases record
      norm_num
    · change s₃.clock true ≤ _ ∧ _
      norm_num [clock.2.2, call]
  · simp [steps, Conforms, wrapped]

end KhCommon.AerospikeCache
