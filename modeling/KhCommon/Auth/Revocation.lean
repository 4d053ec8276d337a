import KhCommon.Auth.Expiry
import KhCommon.Caching.KeyValueStore
import Mathlib.Tactic.Linarith

/-! When a revoked token is refused. The record of a token is read through the local
cache of the token store, and what `verifyToken` makes of it is kept by its own
cache, so that an acceptance rests on a reading of the record of some time ago. The
records change as they like, through other services. The calls overlap as they like;
each begins its lookup as a task of its own, which may outlive it, and the lookups
take the lock of the store one after the other. -/

namespace KhCommon.Auth

open Python Machine Caching Serving

variable {PublicKey Data : Type}

/-- `local_TTL` of the token store. -/
def storeTTL : ℚ := 1

theorem storeTTL_nonneg : 0 ≤ storeTTL := zero_le_one

abbrev Records := ℚ → Bytes → Option TokenMetadata

/-- A call of `verifyToken`; of its lookup, the reading of `__clear_cache__`, the time at which the
client reads the record, the reading with which it is stored, and whether the client raises. -/
structure Check (PublicKey Data : Type) where
  visit : Visit PublicKey Data
  looked : ℚ
  read : ℚ
  saved : ℚ
  raises : Bool

def Check.client (records : Records) (check : Check PublicKey Data) :
    KeyValueStore.Client Bytes TokenMetadata :=
  ⟨records check.read, check.raises, [], false⟩

/-- The readings are in the order of the code; neither the call, up to its storing, nor its lookup
takes longer than `duration`. -/
structure Check.Timely (duration : ℚ) (check : Check PublicKey Data) : Prop where
  began : check.visit.now ≤ check.looked
  read : check.looked ≤ check.read
  saved : check.read ≤ check.saved
  lookup : check.saved ≤ check.looked + duration
  call : check.visit.stored ≤ check.visit.now + duration

def ofStore : KeyValueStore.Exc → Exc
  | .recordNotFound => .recordNotFound
  | .clientError => .other
  | .keyError => .keyError

/-- The calls and their lookups: the local cache of the token store, with the lookup that awaits
the client; which one has the lock; those that are yet to get it, with their key; and what the
others gave. -/
structure Watch (PublicKey Data : Type) where
  serving : Serving PublicKey Data
  store : Shared Bytes Bytes TokenMetadata
  lock : Option ℕ
  asked : ℕ → Option Bytes
  found : ℕ → Option (Except Exc TokenMetadata)

def unwatched : Watch PublicKey Data := ⟨resting, idle, none, fun _ => none, fun _ => none⟩

/-- A turn of a call; or its lookup gets the lock, or is answered by the client. -/
inductive Moment
  | turn (t : Turn)
  | looks (call : ℕ)
  | answers (call : ℕ)

/-- The record for which the call begins a lookup, if it gets so far. -/
def wants (visit : Visit PublicKey Data) (tokens : Shared Str Str (AuthToken Data)) (call : ℕ) :
    Option Bytes :=
  match tokens.awaiting call, (clearCache visit.now tokens.cache).get? visit.token with
  | none, none =>
    match version visit.token, readToken visit.env visit.token with
    | .ok [49], .ok (_, _, load) => some load.guid.bytes
    | _, _ => none
  | _, _ => none

section Steps

variable (records : Records) (checks : ℕ → Check PublicKey Data)

/-- The calls, each with what its lookup found. -/
def visits (found : ℕ → Option (Except Exc TokenMetadata)) (call : ℕ) : Visit PublicKey Data :=
  let visit := (checks call).visit
  ⟨({ visit.env with lookup := fun _ => (found call).getD (.error .other) }, visit.token),
    visit.now, visit.stored⟩

def Moment.opens : Moment → ℚ
  | .turn t => t.opens fun call => (checks call).visit
  | .looks call => (checks call).looked
  | .answers call => (checks call).saved

def Moment.closes : Moment → ℚ
  | .turn t => t.closes fun call => (checks call).visit
  | .looks call => (checks call).looked
  | .answers call => (checks call).saved

def watch (s : Watch PublicKey Data) :
    Moment → Option (Except Exc (AuthToken Data)) × Watch PublicKey Data
  | .turn (.begins call) =>
    let (answer, serving) := turn (visits checks s.found) s.serving (.begins call)
    match wants (checks call).visit s.serving.tokens call with
    | none => (answer, { s with serving })
    | some guid =>
      (answer, { s with
        serving
        asked := Function.update s.asked call (some guid)
        found := Function.update s.found call none })
  | .turn (.fetched call) =>
    let (answer, serving) := turn (visits checks s.found) s.serving (.fetched call)
    (answer, { s with serving })
  | .turn (.looked call) =>
    match s.found call with
    | none => (none, s) -- the task is not done
    | some _ =>
      let (answer, serving) := turn (visits checks s.found) s.serving (.looked call)
      (answer, { s with serving })
  | .looks call =>
    match s.lock, s.asked call with
    | none, some guid =>
      let asked := Function.update s.asked call none
      match asyncWrapper id storeTTL s.store (.start call guid (checks call).looked :
        Event Bytes KeyValueStore.Exc TokenMetadata) with
      | (.cached info, store) =>
        (none, { s with store, asked, found := Function.update s.found call (some (.ok info)) })
      | (_, store) => (none, { s with store, asked, lock := some call })
    | _, _ => (none, s)
  | .answers call =>
    match s.store.awaiting call with
    | none => (none, s)
    | some guid =>
      let answer := ((checks call).client records).get guid
      (none, { s with
        store := (asyncWrapper id storeTTL s.store (.complete call (checks call).saved answer)).2
        lock := none
        found := Function.update s.found call (some (answer.mapError ofStore)) })

end Steps

variable {records : Records} {checks : ℕ → Check PublicKey Data} {s : Watch PublicKey Data}
  {call : ℕ} {guid : Bytes}

theorem looks_hit (free : s.lock = none) (asked : s.asked call = some guid)
    (idle : s.store.awaiting call = none) {exp : ℚ} {info : TokenMetadata}
    (hit : (clearCache (checks call).looked s.store.cache).get? guid = some (exp, info)) :
    watch records checks s (.looks call) = (none, { s with
      store := { s.store with cache := clearCache (checks call).looked s.store.cache }
      asked := Function.update s.asked call none
      found := Function.update s.found call (some (.ok info)) }) := by
  have start : asyncWrapper id storeTTL s.store (.start call guid (checks call).looked :
      Event Bytes KeyValueStore.Exc TokenMetadata) = (.cached info, _) := asyncWrapper_hit idle hit
  simp [watch, free, asked, start]

theorem looks_miss (free : s.lock = none) (asked : s.asked call = some guid)
    (idle : s.store.awaiting call = none)
    (miss : (clearCache (checks call).looked s.store.cache).get? guid = none) :
    watch records checks s (.looks call) = (none, { s with
      store := ⟨clearCache (checks call).looked s.store.cache,
        Function.update s.store.awaiting call (some guid)⟩
      lock := some call
      asked := Function.update s.asked call none }) := by
  have start : asyncWrapper id storeTTL s.store (.start call guid (checks call).looked :
      Event Bytes KeyValueStore.Exc TokenMetadata) = (.awaits, _) := asyncWrapper_miss idle miss
  simp [watch, free, asked, start]

theorem answers_eq (waiting : s.store.awaiting call = some guid) :
    let answer := ((checks call).client records).get guid
    watch records checks s (.answers call) = (none, { s with
      store := ⟨keep s.store.cache guid ((checks call).saved + storeTTL) answer,
        Function.update s.store.awaiting call none⟩
      lock := none
      found := Function.update s.found call (some (answer.mapError ofStore)) }) := by
  intro answer
  simp only [watch, waiting]
  rw [asyncWrapper_complete waiting]
  rfl

/-- A lookup is `KVS.get_async` of the key-value store: nothing else uses the store while it has
the lock. -/
theorem lookup_alone (free : s.lock = none) (asked : s.asked call = some guid)
    (idle : s.store.awaiting call = none) :
    let after := run (watch records checks) s [.looks call, .answers call]
    let got := KeyValueStore.get storeTTL ((checks call).client records) s.store.cache guid
      (checks call).looked (checks call).saved
    after.store.cache = got.cache ∧
      after.found call = some (got.result.mapError ofStore) := by
  intro after got
  unfold after got
  rw [run_cons, run_cons, run_nil]
  cases hit : (clearCache (checks call).looked s.store.cache).get? guid with
  | some entry =>
    rw [KeyValueStore.get_hit _ _ _ _ _ hit, looks_hit free asked idle hit]
    simp [watch, idle, Except.mapError]
  | none =>
    rw [KeyValueStore.get_miss _ _ _ _ _ hit, looks_miss free asked idle hit,
      answers_eq (Function.update_self ..)]
    cases ((checks call).client records).get guid <;> simp [keep, Except.mapError]

/-! ## What accepted tokens rest on -/

variable {duration t : ℚ}

def Reads (visit : Visit PublicKey Data) (guid : Bytes) : Prop :=
  ∃ reading, readToken visit.env visit.token = .ok reading ∧ reading.2.2.guid.bytes = guid

def ReadBy (records : Records) (duration : ℚ) (guid : Bytes) (c : ℚ) (info : TokenMetadata) :
    Prop :=
  ∃ time, c ≤ time + duration ∧ records time guid = some info

/-- The token was stored at `c`; its record was active not too long before. -/
def ActiveBy (records : Records) (duration : ℚ) (_ : Str) (c : ℚ) (auth : AuthToken Data) : Prop :=
  ∃ time, c ≤ time + storeTTL + 2 * duration ∧
    ∃ info, records time auth.guid.bytes = some info ∧ info.state = .active

/-- What a lookup found was the record of the token not too long before it began. -/
def Found (records : Records) (duration : ℚ) (check : Check PublicKey Data)
    (info : TokenMetadata) : Prop :=
  ∃ guid, Reads check.visit guid ∧
    ∃ time, check.looked ≤ time + storeTTL + duration ∧ records time guid = some info

structure Watched (records : Records) (checks : ℕ → Check PublicKey Data) (duration t : ℚ)
    (s : Watch PublicKey Data) : Prop where
  followed : Followed (visits checks s.found) (ActiveBy records duration)
    (fun call reading =>
      readToken (checks call).visit.env (checks call).visit.token = .ok reading)
    duration t s.serving
  store : Aged (ReadBy records duration) id storeTTL 0 (fun call => (checks call).looked) t s.store
  alone : ∀ call guid, s.store.awaiting call = some guid →
    s.lock = some call ∧ guid ∉ s.store.cache
  asked : ∀ call guid, s.asked call = some guid → Reads (checks call).visit guid
  reading : ∀ call guid, s.store.awaiting call = some guid → Reads (checks call).visit guid
  found : ∀ call info, s.found call = some (.ok info) → Found records duration (checks call) info

theorem watched_unwatched (t : ℚ) :
    Watched records checks duration t (unwatched : Watch PublicKey Data) where
  followed := followed_resting t
  store := aged_idle t
  alone call guid h := by cases h
  asked call guid h := by cases h
  reading call guid h := by cases h
  found call info h := by cases h

theorem Watched.later {t' : ℚ} (h : Watched records checks duration t s) (ht : t ≤ t') :
    Watched records checks duration t' s where
  followed := h.followed.later ht
  store := h.store.later ht
  alone := h.alone
  asked := h.asked
  reading := h.reading
  found := h.found

theorem Watched.idle (h : Watched records checks duration t s) (free : s.lock = none) (call : ℕ) :
    s.store.awaiting call = none := by
  cases hcall : s.store.awaiting call with
  | none => rfl
  | some guid => simpa [free] using (h.alone call guid hcall).1

/-- What a lookup finds does not matter to a turn that is yet to come. -/
theorem followed_visits {Tok : Str → ℚ → AuthToken Data → Prop} {Chk : ℕ → Reading → Prop}
    {late : ℚ} {found found' : ℕ → Option (Except Exc TokenMetadata)}
    {serving : Serving PublicKey Data}
    (h : Followed (visits checks found) Tok Chk late t serving) :
    Followed (visits checks found') Tok Chk late t serving :=
  ⟨h.tokens, h.asked, h.fetching, h.checking⟩

theorem wants_eq_some {visit : Visit PublicKey Data} {tokens : Shared Str Str (AuthToken Data)}
    (h : wants visit tokens call = some guid) : Reads visit guid := by
  unfold wants at h
  split at h
  · split at h
    · case h_1 read => exact ⟨_, read, Option.some.inj h⟩
    · cases h
  · cases h

theorem get_eq_ok {check : Check PublicKey Data} {info : TokenMetadata}
    (h : (check.client records).get guid = .ok info) : records check.read guid = some info := by
  unfold KeyValueStore.Client.get at h
  dsimp only [Check.client] at h
  cases hraises : check.raises with
  | true => simp [hraises] at h
  | false =>
    cases hread : records check.read guid with
    | none => simp [hraises, hread] at h
    | some info' => simpa [hraises, hread] using h

theorem mapError_eq_ok {ε ε' α : Type} {x : Except ε α} {f : ε → ε'} {a : α} :
    x.mapError f = .ok a ↔ x = .ok a := by
  cases x <;> simp [Except.mapError]

theorem recordToken_active {env : Env PublicKey Data} {token : Str} {load : Load}
    {auth : AuthToken Data} (h : recordToken env token load = .ok auth) :
    auth.guid = load.guid ∧
      ∃ info, env.lookup load.guid.bytes = .ok info ∧ info.state = .active := by
  refine ⟨(recordToken_eq_ok h).guid, ?_⟩
  obtain ⟨_, checked, _⟩ := bind_eq_ok.mp h
  obtain ⟨info, found, active, -⟩ := checkRecord_eq_ok checked
  exact ⟨info, found, active⟩

/-! ## Runs -/

theorem Watched.fetched (h : Watched records checks duration t s) (call : ℕ) :
    (∀ auth, (watch records checks s (.turn (.fetched call))).1 ≠ some (.ok auth)) ∧
    Watched records checks duration t (watch records checks s (.turn (.fetched call))).2 := by
  obtain ⟨waits, followed⟩ := h.followed.fetches call fun reading _ hcall _ _ =>
    h.followed.fetching call reading hcall
  exact ⟨waits, followed, h.store, h.alone, h.asked, h.reading, h.found⟩

theorem Watched.unasked (h : Watched records checks duration t s) {call' : ℕ} {guid' : Bytes}
    (hasked : Function.update s.asked call none call' = some guid') :
    Reads (checks call').visit guid' := by
  rcases update_eq_some_iff.mp hasked with ⟨-, ⟨⟩⟩ | ⟨-, hasked⟩
  exact h.asked call' guid' hasked

theorem Watched.serves (h : Watched records checks duration t s)
    (hlooked : t ≤ (checks call).looked) (free : s.lock = none) (asked : s.asked call = some guid)
    {exp : ℚ} {info : TokenMetadata}
    (hit : (clearCache (checks call).looked s.store.cache).get? guid = some (exp, info)) :
    Watched records checks duration (checks call).looked
      (watch records checks s (.looks call)).2 := by
  have waiting := h.idle free
  obtain ⟨c, ⟨time, read, record⟩, recent⟩ := (h.store.later hlooked).served le_rfl hit
  rw [looks_hit free asked (waiting call) hit]
  refine ⟨followed_visits (h.followed.later hlooked), h.store.clear hlooked,
    fun call' guid' hcall => ?_, fun _ _ => h.unasked, h.reading, fun call' info' hfound => ?_⟩
  · cases (waiting call').symm.trans hcall
  · rcases update_eq_some_iff.mp hfound with ⟨rfl, ⟨⟩⟩ | ⟨-, hfound⟩
    · exact ⟨guid, h.asked call' guid asked, time, by linarith, record⟩
    · exact h.found call' info' hfound

theorem Watched.misses (h : Watched records checks duration t s)
    (hlooked : t ≤ (checks call).looked) (free : s.lock = none) (asked : s.asked call = some guid)
    (miss : (clearCache (checks call).looked s.store.cache).get? guid = none) :
    Watched records checks duration (checks call).looked
      (watch records checks s (.looks call)).2 := by
  have waiting := h.idle free
  have absent : guid ∉ clearCache (checks call).looked s.store.cache :=
    OrderedDict.get?_eq_none_iff.mp miss
  have only (call' : ℕ) (guid' : Bytes)
      (hcall : Function.update s.store.awaiting call (some guid) call' = some guid') :
      call' = call ∧ guid' = guid := by
    rcases update_eq_some_iff.mp hcall with ⟨rfl, ⟨⟩⟩ | ⟨-, hcall⟩
    · exact ⟨rfl, rfl⟩
    · cases (waiting call').symm.trans hcall
  rw [looks_miss free asked (waiting call) miss]
  refine ⟨followed_visits (h.followed.later hlooked), (h.store.clear hlooked).await absent le_rfl,
    fun call' guid' hcall => ?_, fun _ _ => h.unasked, fun call' guid' hcall => ?_, h.found⟩
  · obtain ⟨rfl, rfl⟩ := only call' guid' hcall
    exact ⟨rfl, absent⟩
  · obtain ⟨rfl, rfl⟩ := only call' guid' hcall
    exact h.asked call' guid' asked

theorem Watched.looks (h : Watched records checks duration t s)
    (hlooked : t ≤ (checks call).looked) :
    (watch records checks s (.looks call)).1 = none ∧
      Watched records checks duration (checks call).looked
        (watch records checks s (.looks call)).2 := by
  cases free : s.lock with
  | some holder =>
    rw [watch, free]
    exact ⟨rfl, h.later hlooked⟩
  | none =>
    cases asked : s.asked call with
    | none =>
      rw [watch, free, asked]
      exact ⟨rfl, h.later hlooked⟩
    | some guid =>
      cases hit : (clearCache (checks call).looked s.store.cache).get? guid with
      | some entry =>
        refine ⟨?_, h.serves hlooked free asked hit⟩
        rw [looks_hit free asked (h.idle free call) hit]
      | none =>
        refine ⟨?_, h.misses hlooked free asked hit⟩
        rw [looks_miss free asked (h.idle free call) hit]

section Runs

variable (timely : ∀ call, (checks call).Timely duration)

include timely

theorem Watched.looked (h : Watched records checks duration t s)
    (hstored : t ≤ (checks call).visit.stored) :
    (∀ auth, (watch records checks s (.turn (.looked call))).1 = some (.ok auth) →
      ActiveBy records duration (checks call).visit.token (checks call).visit.stored auth) ∧
    Watched records checks duration (checks call).visit.stored
      (watch records checks s (.turn (.looked call))).2 := by
  obtain ⟨began, hread, hsaved, hlookup, hcall⟩ := timely call
  have hduration : 0 ≤ duration := by linarith
  rw [watch]
  cases hfound : s.found call with
  | none => exact ⟨by rintro auth ⟨⟩, h.later hstored⟩
  | some result =>
    have active (auth : AuthToken Data)
        (returned : (turn (visits checks s.found) s.serving (.looked call)).1 = some (.ok auth)) :
        ActiveBy records duration (checks call).visit.token (checks call).visit.stored auth := by
      obtain ⟨reading, hchecking, returned⟩ := looked_eq_ok returned
      obtain ⟨guid_eq, info, lookup, hactive⟩ := recordToken_active returned
      have hresult : s.found call = some (.ok info) := by
        simpa [visits, Visit.env, hfound] using lookup
      obtain ⟨guid, ⟨reading', hread', rfl⟩, time, recent, record⟩ := h.found call info hresult
      obtain rfl : reading = reading' :=
        Except.ok.inj ((h.followed.checking call reading hchecking).symm.trans hread')
      refine ⟨time, by linarith, info, ?_, hactive⟩
      rw [guid_eq]
      exact record
    exact ⟨active, h.followed.looks hduration hstored active fun _ _ _ => hcall,
      h.store.later hstored, h.alone, h.asked, h.reading, h.found⟩

theorem Watched.begins (h : Watched records checks duration t s)
    (hnow : t ≤ (checks call).visit.now) :
    (∀ auth, (watch records checks s (.turn (.begins call))).1 = some (.ok auth) →
      ∃ c, ActiveBy records duration (checks call).visit.token c auth ∧
        (checks call).visit.now ≤ c + tokenTTL + duration) ∧
    Watched records checks duration (checks call).visit.now
      (watch records checks s (.turn (.begins call))).2 := by
  obtain ⟨began, hread, hsaved, hlookup, hcall⟩ := timely call
  have hduration : 0 ≤ duration := by linarith
  obtain ⟨rests, followed⟩ := h.followed.begins hduration hnow fun reading key finds => finds.1
  rw [watch]
  cases hwants : wants (checks call).visit s.serving.tokens call with
  | none => exact ⟨rests, followed, h.store.later hnow, h.alone, h.asked, h.reading, h.found⟩
  | some guid =>
    refine ⟨rests, followed_visits followed, h.store.later hnow, h.alone,
      fun call' guid' hasked => ?_, h.reading, fun call' info hfound => ?_⟩
    · rcases update_eq_some_iff.mp hasked with ⟨rfl, ⟨⟩⟩ | ⟨-, hasked⟩
      · exact wants_eq_some hwants
      · exact h.asked call' guid' hasked
    · rcases update_eq_some_iff.mp hfound with ⟨-, ⟨⟩⟩ | ⟨-, hfound⟩
      exact h.found call' info hfound

theorem Watched.keeps (h : Watched records checks duration t s) (hsaved : t ≤ (checks call).saved)
    (waiting : s.store.awaiting call = some guid) :
    Aged (ReadBy records duration) id storeTTL 0 (fun call => (checks call).looked)
      (checks call).saved (asyncWrapper id storeTTL s.store
        (.complete call (checks call).saved (((checks call).client records).get guid))).2 := by
  obtain ⟨began, hread, stored, hlookup, hcall⟩ := timely call
  have same {guid' : Bytes} (hguid : s.store.awaiting call = some guid') : guid = guid' :=
    Option.some.inj (waiting.symm.trans hguid)
  refine h.store.complete le_rfl hsaved call _ (fun guid' info hguid answer => ?_) ?_
  · exact ⟨(checks call).read, by linarith, same hguid ▸ get_eq_ok answer⟩
  · cases ((checks call).client records).get guid with
    | error e => trivial
    | ok info =>
      intro guid' hguid held
      exact absurd (same hguid ▸ held) (h.alone call guid waiting).2

theorem Watched.answers (h : Watched records checks duration t s)
    (hsaved : t ≤ (checks call).saved) :
    (watch records checks s (.answers call)).1 = none ∧
      Watched records checks duration (checks call).saved
        (watch records checks s (.answers call)).2 := by
  obtain ⟨began, hread, stored, hlookup, hcall⟩ := timely call
  have hduration : 0 ≤ duration := by linarith
  cases hwaiting : s.store.awaiting call with
  | none =>
    rw [watch, hwaiting]
    exact ⟨rfl, h.later hsaved⟩
  | some guid =>
    obtain ⟨holds, -⟩ := h.alone call guid hwaiting
    have store := h.keeps timely hsaved hwaiting
    rw [asyncWrapper_complete hwaiting] at store
    rw [answers_eq hwaiting]
    refine ⟨rfl, followed_visits (h.followed.later hsaved), store, fun call' guid' hcall' => ?_,
      h.asked, fun call' guid' hcall' => ?_, fun call' info hfound => ?_⟩
    · rcases update_eq_some_iff.mp hcall' with ⟨-, ⟨⟩⟩ | ⟨different, waits⟩
      -- only the lookup with the lock awaits the client
      obtain ⟨holds', -⟩ := h.alone call' guid' waits
      exact absurd (Option.some.inj (holds'.symm.trans holds)) different
    · rcases update_eq_some_iff.mp hcall' with ⟨-, ⟨⟩⟩ | ⟨-, waits⟩
      exact h.reading call' guid' waits
    · rcases update_eq_some_iff.mp hfound with ⟨rfl, same⟩ | ⟨-, hfound⟩
      · have answer : ((checks call').client records).get guid = .ok info :=
          mapError_eq_ok.mp (Option.some.inj same)
        have late : (checks call').looked ≤ (checks call').read + storeTTL + duration := by
          have := storeTTL_nonneg
          linarith
        exact ⟨guid, h.reading call' guid hwaiting, _, late, get_eq_ok answer⟩
      · exact h.found call' info hfound

theorem Watched.moment (h : Watched records checks duration t s) (next : Moment)
    (hopens : t ≤ next.opens checks) (hcloses : next.opens checks ≤ next.closes checks) :
    (∀ auth, (watch records checks s next).1 = some (.ok auth) →
      ∃ token c, ActiveBy records duration token c auth ∧
        next.opens checks ≤ c + tokenTTL + duration) ∧
    Watched records checks duration (next.closes checks) (watch records checks s next).2 := by
  cases next with
  | turn next =>
    cases next with
    | begins call =>
      obtain ⟨rests, kept⟩ := h.begins timely hopens
      exact ⟨fun auth returned => ⟨_, rests auth returned⟩, kept.later hcloses⟩
    | fetched call =>
      obtain ⟨waits, kept⟩ := h.fetched call
      exact ⟨fun auth returned => absurd returned (waits auth), kept.later (hopens.trans hcloses)⟩
    | looked call =>
      obtain ⟨active, kept⟩ := h.looked timely hopens
      obtain ⟨began, hread, hsaved, hlookup, hcall⟩ := timely call
      have soon := tokenTTL_nonneg
      refine ⟨fun auth returned => ⟨_, _, active auth returned, ?_⟩, kept⟩
      change (checks call).visit.stored ≤ _
      linarith
  | looks call =>
    obtain ⟨silent, kept⟩ := h.looks hopens
    exact ⟨fun auth returned => by simp [silent] at returned, kept⟩
  | answers call =>
    obtain ⟨silent, kept⟩ := h.answers timely hopens
    exact ⟨fun auth returned => by simp [silent] at returned, kept⟩

theorem watched_run {t₀ : ℚ} {schedule : List Moment}
    (clock : Clocked (Moment.opens checks) (Moment.closes checks) t₀ schedule) :
    Watched records checks duration (lastReading (Moment.closes checks) t₀ schedule)
      (run (watch records checks) unwatched schedule) := by
  induction schedule using List.reverseRecOn with
  | nil => exact watched_unwatched t₀
  | append_singleton schedule next ih =>
    obtain ⟨clock, hopens, hcloses, -⟩ := clocked_append.mp clock
    rw [run_append, lastReading_append]
    exact ((ih clock).moment timely next hopens hcloses).2

end Runs

/-- In every run of calls, however they overlap and however the records change, in which neither a
call, up to its storing, nor a lookup takes longer than `duration`: a token whose record is not
active any more from `revoked` on is returned by no call 31 seconds and three durations later, or
after that. -/
theorem verifyToken_revoked (records : Records) (guid : Uuid) (revoked duration : ℚ)
    (inactive : ∀ time, revoked ≤ time → ∀ info, records time guid.bytes = some info →
      info.state ≠ .active) (checks : ℕ → Check PublicKey Data)
    (timely : ∀ call, (checks call).Timely duration) (t₀ : ℚ) (schedule : List Moment)
    (next : Moment)
    (clock : Clocked (Moment.opens checks) (Moment.closes checks) t₀ (schedule ++ [next]))
    (late : revoked + 31 + 3 * duration ≤ next.opens checks) :
    ∀ auth, (watch records checks (run (watch records checks) unwatched schedule) next).1 =
      some (.ok auth) → auth.guid ≠ guid := by
  rintro auth returned rfl
  obtain ⟨clock, hopens, hcloses, -⟩ := clocked_append.mp clock
  have watched : Watched records checks duration _ _ := watched_run timely clock
  obtain ⟨-, c, ⟨time, recent, info, record, active⟩, kept⟩ :=
    (watched.moment timely next hopens hcloses).1 auth returned
  have readLater : revoked ≤ time := by
    unfold tokenTTL at kept
    unfold storeTTL at recent
    linarith
  exact inactive time readLater info record active

/-- The record is gone from 6 on. -/
def sampleRecords : Records :=
  fun time _ => if time < 6 then some ⟨.active, 1, ofBytes [97], .aware 60⟩ else none

def sampleChecks : ℕ → Check Unit Bytes
  | 0 => ⟨sampleVisit 5 6 7, 5, 5, 6, false⟩
  | 1 => ⟨sampleVisit 5 6 7, 6, 6, 7, false⟩
  | _ => ⟨sampleVisit 50 51 52, 50, 50, 51, false⟩

/-- Two calls overlap and return the token; a third, when the record is long gone, does not. -/
theorem verifyToken_revoked_gone :
    let watch := watch sampleRecords sampleChecks
    let first : List Moment :=
      [.turn (.begins 0), .turn (.begins 1), .looks 0, .answers 0, .turn (.fetched 0), .looks 1,
        .turn (.fetched 1), .turn (.looked 0)]
    let second : List Moment :=
      [.turn (.looked 1), .turn (.begins 2), .looks 2, .answers 2, .turn (.fetched 2)]
    (watch (run watch unwatched first) (.turn (.looked 1))).1 = some (.ok sampleAuth) ∧
      ∀ auth, (watch (run watch unwatched (first ++ second)) (.turn (.looked 2))).1 =
        some (.ok auth) → auth.guid ≠ sampleAuth.guid := by
  intro watch first second
  have timely (call : ℕ) : (sampleChecks call).Timely 2 := by
    rcases call with - | - | call <;>
      constructor <;> norm_num [sampleChecks, sampleVisit]
  refine ⟨by decide +kernel, ?_⟩
  refine verifyToken_revoked sampleRecords sampleAuth.guid 6 2 ?_ sampleChecks timely 5
    (first ++ second) (.turn (.looked 2)) ?_ ?_
  · intro time late info record
    simp [sampleRecords, not_lt.mpr late] at record
  · norm_num [first, second, Clocked, Moment.opens, Moment.closes, Turn.opens, Turn.closes,
      sampleChecks, sampleVisit, Visit.env]
  · norm_num [Moment.opens, Turn.opens, sampleChecks, sampleVisit]

end KhCommon.Auth
