import KhCommon.Lib.Machine
import KhCommon.Utilities
import Mathlib.Data.List.Dedup
import Mathlib.Logic.Function.Basic

/-! `kh_common.caching.key_value_store.KeyValueStore`: one namespace and set of an
aerospike cluster behind a local `OrderedDict` cache. The client is a parameter:
`Client` is what one call meets there. A method gives its result, the cache and the
records it leaves, and the keys it asked the client about. Record TTLs, retry policies and
`copy` of a value have no counterpart: records do not expire and values are
immutable. -/

namespace KhCommon.KeyValueStore

variable {K V : Type*}

inductive Exc
  | recordNotFound -- `aerospike.exception.RecordNotFound`
  | clientError -- any other exception of the client
  | keyError -- a key missing from the local cache
  deriving DecidableEq, Repr

/-- The aerospike client at one call: the records of the set, whether the call
raises without an effect, the order in which a batch is answered, and whether
`exists` raises RecordNotFound for an absent record or gives empty metadata. -/
structure Client (K V : Type*) where
  records : K → Option V
  raises : Bool
  order : List K
  absentRaises : Bool

namespace Client

def put [DecidableEq K] (client : Client K V) (key : K) (data : V) :
    Except Exc Unit × (K → Option V) :=
  if client.raises then (.error .clientError, client.records)
  else (.ok (), Function.update client.records key (some data))

def get (client : Client K V) (key : K) : Except Exc V :=
  if client.raises then .error .clientError else
    match client.records key with
    | some data => .ok data
    | none => .error .recordNotFound

/-- One `(key, record)` for each requested key; the record of an absent key has empty metadata. -/
def getMany [DecidableEq K] (client : Client K V) (keys : List K) :
    Except Exc (List (K × Option V)) :=
  if client.raises then .error .clientError else
    let answered := if client.order.Perm keys then client.order else keys
    .ok (answered.map fun key => (key, client.records key))

def remove [DecidableEq K] (client : Client K V) (key : K) : Except Exc Unit × (K → Option V) :=
  if client.raises then (.error .clientError, client.records) else
    match client.records key with
    | some _ => (.ok (), Function.update client.records key none)
    | none => (.error .recordNotFound, client.records)

def «exists» (client : Client K V) (key : K) : Except Exc Bool :=
  if client.raises then .error .clientError else
    match client.records key with
    | some _ => .ok true
    | none => if client.absentRaises then .error .recordNotFound else .ok false

end Client

/-- What a method leaves: its result, the local cache, the keys it asked the client about, and the
records of the set. -/
structure Ran (K V α : Type*) where
  result : Except Exc α
  cache : Cache K V
  asked : List K
  records : K → Option V

variable [DecidableEq K]

def put (localTTL : ℚ) (client : Client K V) (cache : Cache K V) (key : K) (data : V) (t : ℚ) :
    Ran K V Unit :=
  match client.put key data with
  | (.error e, records) => ⟨.error e, cache, [key], records⟩
  | (.ok (), records) => ⟨.ok (), cache.assign key (t + localTTL, data), [key], records⟩

def _get (localTTL : ℚ) (client : Client K V) (cache : Cache K V) (key : K) (t : ℚ) : Ran K V V :=
  match cache.get? key with
  | some (_, data) => ⟨.ok data, cache, [], client.records⟩
  | none =>
    match client.get key with
    | .error e => ⟨.error e, cache, [key], client.records⟩
    | .ok data => ⟨.ok data, cache.assign key (t + localTTL, data), [key], client.records⟩

def get (localTTL : ℚ) (client : Client K V) (cache : Cache K V) (key : K) (now t : ℚ) :
    Ran K V V :=
  _get localTTL client (clearCache now cache) key t

/-- The loop over the batch answer, filling `data_map` and the local cache. -/
def absorb (exp : ℚ) : List (K × Option V) → OrderedDict K (Option V) → Cache K V →
    OrderedDict K (Option V) × Cache K V
  | [], dataMap, cache => (dataMap, cache)
  | (key, some value) :: data, dataMap, cache =>
    absorb exp data (dataMap.assign key (some value)) (cache.assign key (exp, value))
  | (key, none) :: data, dataMap, cache => absorb exp data (dataMap.assign key none) cache

/-- `{ **dataMap, **{ key: self._cache[key][1] for key in keys } }`. -/
def mergeLocal (cache : Cache K V) :
    List K → OrderedDict K (Option V) → Except Exc (OrderedDict K (Option V))
  | [], dataMap => .ok dataMap
  | key :: keys, dataMap =>
    match cache.get? key with
    | some (_, data) => mergeLocal cache keys (dataMap.assign key (some data))
    | none => .error .keyError

def _getMany (localTTL : ℚ) (client : Client K V) (cache : Cache K V) (keys : List K) (t : ℚ) :
    Ran K V (OrderedDict K (Option V)) :=
  let keys := keys.dedup
  let remoteKeys := keys.filter (· ∉ cache)
  if remoteKeys = [] then
    ⟨mergeLocal cache keys ∅, cache, [], client.records⟩
  else
    match client.getMany remoteKeys with
    | .error e => ⟨.error e, cache, remoteKeys, client.records⟩
    | .ok data =>
      let (dataMap, cache) := absorb (t + localTTL) data ∅ cache
      ⟨mergeLocal cache (keys.filter (· ∉ remoteKeys)) dataMap, cache, remoteKeys, client.records⟩

def getMany (localTTL : ℚ) (client : Client K V) (cache : Cache K V) (keys : List K) (now t : ℚ) :
    Ran K V (OrderedDict K (Option V)) :=
  _getMany localTTL client (clearCache now cache) keys t

def remove (client : Client K V) (cache : Cache K V) (key : K) : Ran K V Unit :=
  let cache := if key ∈ cache then cache.erase key else cache
  let (result, records) := client.remove key
  ⟨result, cache, [key], records⟩

def «exists» (client : Client K V) (cache : Cache K V) (key : K) : Ran K V Bool :=
  match client.exists key with
  | .error .recordNotFound => ⟨.ok false, cache, [key], client.records⟩
  | result => ⟨result, cache, [key], client.records⟩

/-! ## The store as a machine -/

inductive Op (K V : Type*)
  | put (key : K) (data : V)
  | get (key : K)
  | getMany (keys : List K)
  | remove (key : K)
  | exists (key : K)

/-- One call: `now` is the reading of the clock at its start, `t` the one for what it stores. -/
structure Call (K V : Type*) where
  op : Op K V
  now : ℚ
  t : ℚ
  raises : Bool
  order : List K
  absentRaises : Bool

def Call.client (call : Call K V) (records : K → Option V) : Client K V :=
  ⟨records, call.raises, call.order, call.absentRaises⟩

inductive Answer (K V : Type*)
  | done
  | data (value : V)
  | many (values : OrderedDict K (Option V))
  | found (answer : Bool)

structure Reply (K V : Type*) where
  result : Except Exc (Answer K V)
  asked : List K

def Ran.reply {α : Type*} (ran : Ran K V α) (f : α → Answer K V) :
    Reply K V × (Cache K V × (K → Option V)) :=
  (⟨ran.result.map f, ran.asked⟩, (ran.cache, ran.records))

/-- The store together with the cluster, when the store is the only client of its set. -/
def step (localTTL : ℚ) (s : Cache K V × (K → Option V)) (call : Call K V) :
    Reply K V × (Cache K V × (K → Option V)) :=
  let client := call.client s.2
  match call.op with
  | .put key data => (put localTTL client s.1 key data call.t).reply fun _ => .done
  | .get key => (get localTTL client s.1 key call.now call.t).reply .data
  | .getMany keys => (getMany localTTL client s.1 keys call.now call.t).reply .many
  | .remove key => (remove client s.1 key).reply fun _ => .done
  | .exists key => («exists» client s.1 key).reply .found

def localStep (localTTL : ℚ) (cache : Cache K V) (input : (K → Option V) × Call K V) :
    Reply K V × Cache K V :=
  let (reply, s) := step localTTL (cache, input.1) input.2
  (reply, s.1)

def Call.effect (call : Call K V) (records : K → Option V) : K → Option V :=
  if call.raises then records else
    match call.op with
    | .put key data => Function.update records key (some data)
    | .remove key => Function.update records key none
    | _ => records

/-! ## What a batch leaves -/

section Batch

variable {records : K → Option V} {exp : ℚ}

theorem absorb_cons (k : K) (ks : List K) (dataMap : OrderedDict K (Option V)) (cache : Cache K V) :
    absorb exp ((k :: ks).map fun k => (k, records k)) dataMap cache =
      absorb exp (ks.map fun k => (k, records k)) (dataMap.assign k (records k))
        ((records k).elim cache fun value => cache.assign k (exp, value)) := by
  rw [List.map_cons]
  cases records k <;> rfl

theorem absorb_dataMap (ks : List K) (dataMap : OrderedDict K (Option V)) (cache : Cache K V)
    (key : K) :
    (absorb exp (ks.map fun k => (k, records k)) dataMap cache).1.get? key =
      if key ∈ ks then some (records key) else dataMap.get? key := by
  induction ks generalizing dataMap cache with
  | nil => simp [absorb]
  | cons k ks ih =>
    rw [absorb_cons, ih, OrderedDict.get?_assign]
    by_cases e : key = k <;> simp [e]

theorem absorb_cache (ks : List K) (dataMap : OrderedDict K (Option V)) (cache : Cache K V)
    (key : K) :
    (absorb exp (ks.map fun k => (k, records k)) dataMap cache).2.get? key =
      if key ∈ ks then ((records key).map fun value => (exp, value)).or (cache.get? key)
      else cache.get? key := by
  induction ks generalizing dataMap cache with
  | nil => simp [absorb]
  | cons k ks ih =>
    rw [absorb_cons, ih]
    cases hk : records k <;> by_cases e : key = k <;> simp [e, hk, OrderedDict.get?_assign]

theorem mergeLocal_ok {cache : Cache K V} (keys : List K) (held : ∀ key ∈ keys, key ∈ cache)
    (dataMap : OrderedDict K (Option V)) :
    ∃ values, mergeLocal cache keys dataMap = .ok values ∧
      ∀ key, values.get? key =
        if key ∈ keys then some ((cache.get? key).map Prod.snd) else dataMap.get? key := by
  induction keys generalizing dataMap with
  | nil => exact ⟨dataMap, rfl, fun key => by simp⟩
  | cons k keys ih =>
    obtain ⟨entry, hk⟩ := OrderedDict.mem_iff_get?.mp (held k List.mem_cons_self)
    obtain ⟨values, hrun, hget⟩ :=
      ih (fun key h => held key (List.mem_cons_of_mem k h)) (dataMap.assign k (some entry.2))
    refine ⟨values, by simp only [mergeLocal, hk, hrun], fun key => ?_⟩
    simp only [hget, OrderedDict.get?_assign, List.mem_cons]
    by_cases e : key = k <;> simp [e, hk]

theorem absorb_inv {P : Cache K V → Prop}
    (add : ∀ cache key value, P cache → key ∉ cache → records key = some value →
      P (cache.assign key (exp, value)))
    (ks : List K) (distinct : ks.Nodup) (dataMap : OrderedDict K (Option V)) {cache : Cache K V}
    (absent : ∀ k ∈ ks, k ∉ cache) (start : P cache) :
    P (absorb exp (ks.map fun k => (k, records k)) dataMap cache).2 := by
  induction ks generalizing dataMap cache with
  | nil => exact start
  | cons k ks ih =>
    rw [List.nodup_cons] at distinct
    have rest : ∀ k' ∈ ks, k' ∉ cache := fun k' h => absent k' (List.mem_cons_of_mem k h)
    have here : k ∉ cache := absent k List.mem_cons_self
    rw [absorb_cons]
    cases hk : records k with
    | none => exact ih distinct.2 _ rest start
    | some value =>
      rw [Option.elim_some]
      refine ih distinct.2 _ (fun k' h => ?_) (add _ _ _ start here hk)
      have other : k' ≠ k := fun e => distinct.1 (e ▸ h)
      rw [← OrderedDict.get?_eq_none_iff, OrderedDict.get?_assign_of_ne _ other,
        OrderedDict.get?_eq_none_iff]
      exact rest k' h

end Batch

/-! ## What each method does -/

section Specs

variable (localTTL : ℚ) (client : Client K V) (cache : Cache K V) (now t : ℚ)

def missing (keys : List K) : List K := keys.dedup.filter (· ∉ clearCache now cache)

theorem mem_missing {keys : List K} {key : K} :
    key ∈ missing cache now keys ↔ key ∈ keys ∧ key ∉ clearCache now cache := by
  simp [missing]

theorem get_hit {key : K} {exp : ℚ} {data : V}
    (h : (clearCache now cache).get? key = some (exp, data)) :
    get localTTL client cache key now t =
      ⟨.ok data, clearCache now cache, [], client.records⟩ := by
  simp only [get, _get, h]

theorem get_miss {key : K} (h : (clearCache now cache).get? key = none) :
    get localTTL client cache key now t =
      match client.get key with
      | .error e => ⟨.error e, clearCache now cache, [key], client.records⟩
      | .ok data => ⟨.ok data, (clearCache now cache).assign key (t + localTTL, data), [key],
          client.records⟩ := by
  simp only [get, _get, h]

theorem client_getMany (keys : List K) (quiet : client.raises = false) :
    ∃ answered : List K, answered.Perm keys ∧
      client.getMany keys = .ok (answered.map fun key => (key, client.records key)) := by
  by_cases h : client.order.Perm keys
  · exact ⟨client.order, h, by simp [Client.getMany, quiet, h]⟩
  · exact ⟨keys, List.Perm.refl keys, by simp [Client.getMany, quiet, h]⟩

theorem getMany_local {keys : List K} (all : missing cache now keys = []) :
    getMany localTTL client cache keys now t =
      ⟨mergeLocal (clearCache now cache) keys.dedup ∅, clearCache now cache, [],
        client.records⟩ := by
  unfold missing at all
  simp only [getMany, _getMany, if_pos all]

theorem getMany_raises {keys : List K} (asks : missing cache now keys ≠ [])
    (raised : client.raises = true) :
    getMany localTTL client cache keys now t =
      ⟨.error .clientError, clearCache now cache, missing cache now keys, client.records⟩ := by
  unfold missing at asks ⊢
  simp only [getMany, _getMany, if_neg asks, Client.getMany, raised, if_true]

theorem getMany_answered {keys : List K} (asks : missing cache now keys ≠ [])
    (quiet : client.raises = false) :
    ∃ answered : List K, answered.Perm (missing cache now keys) ∧
      getMany localTTL client cache keys now t =
        let filled := absorb (t + localTTL) (answered.map fun key => (key, client.records key)) ∅
          (clearCache now cache)
        ⟨mergeLocal filled.2 (keys.dedup.filter (· ∉ missing cache now keys)) filled.1,
          filled.2, missing cache now keys, client.records⟩ := by
  obtain ⟨answered, hperm, hanswer⟩ :=
    client_getMany client (missing cache now keys) quiet
  refine ⟨answered, hperm, ?_⟩
  unfold missing at asks hanswer ⊢
  simp only [getMany, _getMany, if_neg asks, hanswer]

theorem getMany_asked (keys : List K) :
    (getMany localTTL client cache keys now t).asked = missing cache now keys := by
  by_cases all : missing cache now keys = []
  · rw [getMany_local _ _ _ _ _ all, all]
  · cases quiet : client.raises with
    | true => rw [getMany_raises _ _ _ _ _ all quiet]
    | false =>
      obtain ⟨answered, -, heq⟩ := getMany_answered localTTL client cache now t all quiet
      rw [heq]

theorem getMany_result (keys : List K)
    (quiet : missing cache now keys = [] ∨ client.raises = false) :
    ∃ values, (getMany localTTL client cache keys now t).result = .ok values ∧
      ∀ key, values.get? key =
        if key ∈ keys then
          some (((clearCache now cache).get? key).elim (client.records key) fun e => some e.2)
        else none := by
  by_cases all : missing cache now keys = []
  · have held : ∀ key ∈ keys.dedup, key ∈ clearCache now cache := by
      intro key hkey
      by_contra absent
      have := (mem_missing cache now).mpr ⟨List.mem_dedup.mp hkey, absent⟩
      simp [all] at this
    obtain ⟨values, hrun, hget⟩ := mergeLocal_ok keys.dedup held ∅
    refine ⟨values, by rw [getMany_local _ _ _ _ _ all, hrun], fun key => ?_⟩
    simp only [hget, List.mem_dedup]
    split_ifs with h
    · obtain ⟨entry, he⟩ := OrderedDict.mem_iff_get?.mp (held key (List.mem_dedup.mpr h))
      simp [he]
    · rfl
  · obtain ⟨answered, hperm, heq⟩ :=
      getMany_answered localTTL client cache now t all (quiet.resolve_left all)
    have inAnswer : ∀ key, key ∈ answered ↔ key ∈ keys ∧ key ∉ clearCache now cache :=
      fun key => hperm.mem_iff.trans (mem_missing cache now)
    have inLocal : ∀ key, key ∈ keys.dedup.filter (· ∉ missing cache now keys) ↔
        key ∈ keys ∧ key ∈ clearCache now cache := by
      intro key
      simp only [List.mem_filter, List.mem_dedup, decide_eq_true_eq, mem_missing]
      tauto
    generalize hfilled : absorb (t + localTTL)
      (answered.map fun key => (key, client.records key)) ∅ (clearCache now cache) = filled at heq
    -- the loop leaves the entries that were held before as they were
    have keep : ∀ key ∈ clearCache now cache,
        filled.2.get? key = (clearCache now cache).get? key := by
      intro key hkey
      rw [← hfilled, absorb_cache, if_neg fun h => ((inAnswer key).mp h).2 hkey]
    have held : ∀ key ∈ keys.dedup.filter (· ∉ missing cache now keys), key ∈ filled.2 := by
      intro key hkey
      have hc := ((inLocal key).mp hkey).2
      rw [OrderedDict.mem_iff_get?, keep key hc]
      exact OrderedDict.mem_iff_get?.mp hc
    obtain ⟨values, hrun, hget⟩ := mergeLocal_ok _ held filled.1
    refine ⟨values, by rw [heq, ← hrun], fun key => ?_⟩
    rw [hget, ← hfilled, absorb_dataMap, hfilled]
    simp only [inLocal, inAnswer]
    by_cases hkey : key ∈ keys
    · by_cases hc : key ∈ clearCache now cache
      · obtain ⟨entry, he⟩ := OrderedDict.mem_iff_get?.mp hc
        simp [hkey, hc, keep key hc, he]
      · simp [hkey, hc, OrderedDict.get?_eq_none_iff.mpr hc]
    · simp [hkey]

theorem getMany_cache_inv {P : Cache K V → Prop}
    (add : ∀ cache key value, P cache → key ∉ cache → client.records key = some value →
      P (cache.assign key (t + localTTL, value)))
    (keys : List K) (start : P (clearCache now cache)) :
    P (getMany localTTL client cache keys now t).cache := by
  by_cases all : missing cache now keys = []
  · rw [getMany_local _ _ _ _ _ all]
    exact start
  · cases quiet : client.raises with
    | true =>
      rw [getMany_raises _ _ _ _ _ all quiet]
      exact start
    | false =>
      obtain ⟨answered, hperm, heq⟩ := getMany_answered localTTL client cache now t all quiet
      rw [heq]
      refine absorb_inv add answered ?_ ∅ (fun k hk => ?_) start
      · exact hperm.nodup_iff.mpr ((List.nodup_dedup keys).filter _)
      · exact ((mem_missing cache now).mp (hperm.mem_iff.mp hk)).2

theorem remove_cache (key : K) :
    (remove client cache key).cache = cache.erase key := by
  simp only [remove]
  split_ifs with h
  · rfl
  · exact (OrderedDict.erase_of_not_mem h).symm

theorem get_records (key : K) :
    (get localTTL client cache key now t).records = client.records := by
  cases hit : (clearCache now cache).get? key with
  | some entry => rw [get_hit _ _ _ _ _ hit]
  | none =>
    rw [get_miss _ _ _ _ _ hit]
    cases client.get key <;> rfl

theorem getMany_records (keys : List K) :
    (getMany localTTL client cache keys now t).records = client.records := by
  by_cases all : missing cache now keys = []
  · rw [getMany_local _ _ _ _ _ all]
  · cases quiet : client.raises with
    | true => rw [getMany_raises _ _ _ _ _ all quiet]
    | false =>
      obtain ⟨answered, -, heq⟩ := getMany_answered localTTL client cache now t all quiet
      rw [heq]

omit [DecidableEq K] in
theorem exists_records (key : K) : («exists» client cache key).records = client.records := by
  unfold «exists»
  split <;> rfl

theorem step_records (s : Cache K V × (K → Option V)) (call : Call K V) :
    (step localTTL s call).2.2 = call.effect s.2 := by
  unfold step Call.effect
  cases call.op with
  | put key data =>
    cases raised : call.raises <;> simp [put, Client.put, Call.client, raised, Ran.reply]
  | remove key =>
    cases raised : call.raises with
    | true => simp [remove, Client.remove, Call.client, raised, Ran.reply]
    | false =>
      cases record : s.2 key with
      | some data => simp [remove, Client.remove, Call.client, raised, record, Ran.reply]
      | none =>
        have same : Function.update s.2 key none = s.2 := by rw [← record, Function.update_eq_self]
        simp [remove, Client.remove, Call.client, raised, record, Ran.reply, same]
  | get key => simp [Ran.reply, get_records, Call.client]
  | getMany keys => simp [Ran.reply, getMany_records, Call.client]
  | «exists» key => simp [Ran.reply, exists_records, Call.client]

end Specs

end KhCommon.KeyValueStore
