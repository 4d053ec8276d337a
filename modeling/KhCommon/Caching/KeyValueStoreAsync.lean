import KhCommon.Caching.KeyValueStore

/-! Concurrent `get_async`, `put_async` and `remove_async` calls on one
`KeyValueStore`. Each call is cut where it meets the client: local lookup, remote
read, local write; remote write, local write; local delete, remote remove. Only
`get_async` takes a lock. Calls are named by numbers, and a step that is not
enabled leaves the state as it is, so every list of steps is a schedule. -/

namespace KhCommon.KeyValueStore.Async

open Machine

variable {K V : Type*}

inductive Phase (K V : Type*)
  | idle
  | missed (key : K) -- `get_async` did not find the key locally
  | fetched (key : K) (data : V) -- `get_async` has the record
  | written (key : K) (data : V) -- `put_async` has written the record
  | deleted (key : K) -- `remove_async` has dropped the local entry

def Phase.carried : Phase K V → Option (K × V)
  | .fetched key data => some (key, data)
  | .written key data => some (key, data)
  | _ => none

structure Shared (K V : Type*) where
  cache : Cache K V
  records : K → Option V
  getLock : Option ℕ
  call : ℕ → Phase K V

/-- The steps of the calls; `raises` says that the client raises instead of answering. -/
inductive Step (K V : Type*)
  | lookup (id : ℕ) (key : K) (now : ℚ)
  | remoteRead (id : ℕ) (raises : Bool)
  | remoteWrite (id : ℕ) (key : K) (data : V) (raises : Bool)
  | localDelete (id : ℕ) (key : K)
  | remoteRemove (id : ℕ) (raises : Bool)
  | localWrite (id : ℕ) (t : ℚ)

variable [DecidableEq K]

def advance (localTTL : ℚ) (s : Shared K V) : Step K V → Shared K V
  | .lookup id key now =>
    match s.call id, s.getLock with
    | .idle, none =>
      let cache := clearCache now s.cache
      if key ∈ cache then { s with cache }
      else { s with cache, getLock := some id, call := Function.update s.call id (.missed key) }
    | _, _ => s
  | .remoteRead id raises =>
    match s.call id with
    | .missed key =>
      match if raises then none else s.records key with
      | some data => { s with call := Function.update s.call id (.fetched key data) }
      | none => { s with getLock := none, call := Function.update s.call id .idle }
    | _ => s
  | .remoteWrite id key data raises =>
    match s.call id with
    | .idle =>
      if raises then s else
        { s with
          records := Function.update s.records key (some data)
          call := Function.update s.call id (.written key data) }
    | _ => s
  | .localDelete id key =>
    match s.call id with
    | .idle =>
      { s with cache := s.cache.erase key, call := Function.update s.call id (.deleted key) }
    | _ => s
  | .remoteRemove id raises =>
    match s.call id with
    | .deleted key =>
      { s with
        records := if raises then s.records else Function.update s.records key none
        call := Function.update s.call id .idle }
    | _ => s
  | .localWrite id t =>
    match s.call id with
    | .fetched key data =>
      { s with
        cache := s.cache.assign key (t + localTTL, data)
        getLock := none
        call := Function.update s.call id .idle }
    | .written key data =>
      { s with
        cache := s.cache.assign key (t + localTTL, data)
        call := Function.update s.call id .idle }
    | _ => s

def step (localTTL : ℚ) (s : Shared K V) (i : Step K V) : Unit × Shared K V :=
  ((), advance localTTL s i)

def start (records : K → Option V) : Shared K V := ⟨∅, records, none, fun _ => .idle⟩

def Quiescent (s : Shared K V) : Prop := ∀ id, s.call id = .idle

/-- Unexpired entries equal the records, and no entry is for a key without a record. -/
def Coherent (now : ℚ) (s : Shared K V) : Prop :=
  ∀ key exp data, s.cache.get? key = some (exp, data) →
    (now ≤ exp → s.records key = some data) ∧ s.records key ≠ none

variable {localTTL : ℚ} {s : Shared K V}

/-! ## A call whose steps are not interleaved is the method itself -/

theorem get_alone {id : ℕ} (idle : s.call id = .idle) (free : s.getLock = none) (key : K)
    (now t : ℚ) (raises : Bool) (order : List K) (absentRaises : Bool) :
    (run (step localTTL) s [.lookup id key now, .remoteRead id raises, .localWrite id t]).cache =
      (get localTTL ⟨s.records, raises, order, absentRaises⟩ s.cache key now t).cache := by
  by_cases hit : key ∈ clearCache now s.cache
  · obtain ⟨entry, he⟩ := OrderedDict.mem_iff_get?.mp hit
    rw [get_hit _ _ _ _ _ he]
    simp [step, advance, idle, free, hit]
  · rw [get_miss _ _ _ _ _ (OrderedDict.get?_eq_none_iff.mpr hit)]
    cases raises with
    | true => simp [step, advance, idle, free, hit, Client.get]
    | false =>
      cases record : s.records key <;>
        simp [step, advance, idle, free, hit, Client.get, record]

theorem put_alone {id : ℕ} (idle : s.call id = .idle) (key : K) (data : V) (t : ℚ) (raises : Bool)
    (order : List K) (absentRaises : Bool) :
    let after := run (step localTTL) s [.remoteWrite id key data raises, .localWrite id t]
    let ran := put localTTL ⟨s.records, raises, order, absentRaises⟩ s.cache key data t
    after.cache = ran.cache ∧ after.records = ran.records := by
  cases raises <;> simp [step, advance, idle, put, Client.put]

theorem remove_alone {id : ℕ} (idle : s.call id = .idle) (key : K) (raises : Bool)
    (order : List K) (absentRaises : Bool) :
    let after := run (step localTTL) s [.localDelete id key, .remoteRemove id raises]
    let ran := remove ⟨s.records, raises, order, absentRaises⟩ s.cache key
    after.cache = ran.cache ∧ after.records = ran.records := by
  refine ⟨by simp [step, advance, idle, remove_cache], ?_⟩
  cases raises with
  | true => simp [step, advance, idle, remove, Client.remove]
  | false =>
    cases record : s.records key with
    | some data => simp [step, advance, idle, remove, Client.remove, record]
    | none =>
      have same : Function.update s.records key none = s.records := by
        rw [← record, Function.update_eq_self]
      simp [step, advance, idle, remove, Client.remove, record, same]

end KhCommon.KeyValueStore.Async
