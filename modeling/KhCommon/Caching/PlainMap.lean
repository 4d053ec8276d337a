import KhCommon.Caching.KeyValueStore

/-! A `KeyValueStore` that is the only client of its set refines a plain map.
The map is advanced by what the calls report: a successful `put` or `remove`
changes it, nothing else does. The simulation relation is that the cluster holds
the map and every cached entry, expired or not, agrees with it. -/

namespace KhCommon.KeyValueStore

open Machine

variable {K V : Type*} [DecidableEq K]

/-- What a plain map allows a call to report, and the map after it. Only a call that
the client raised in may fail otherwise than by RecordNotFound for an absent key. -/
def PlainMap (map : K → Option V) (call : Call K V) (reply : Reply K V) (map' : K → Option V) :
    Prop :=
  match call.op, reply.result with
  | .put key data, .ok .done => map' = Function.update map key (some data)
  | .remove key, .ok .done => map' = Function.update map key none
  | .remove key, .error .recordNotFound => map key = none ∧ map' = map
  | .get key, .ok (.data data) => map key = some data ∧ map' = map
  | .get key, .error .recordNotFound => map key = none ∧ map' = map
  | .getMany keys, .ok (.many values) =>
    (∀ key, values.get? key = if key ∈ keys then some (map key) else none) ∧ map' = map
  | .exists key, .ok (.found answer) => answer = (map key).isSome ∧ map' = map
  | _, .error .clientError => call.raises = true ∧ map' = map
  | _, _ => False

def Agrees (cache : Cache K V) (records : K → Option V) : Prop :=
  ∀ key exp data, cache.get? key = some (exp, data) → records key = some data

theorem agrees_empty (records : K → Option V) : Agrees (∅ : Cache K V) records := by
  intro key exp data h
  cases h

theorem Agrees.clear {cache : Cache K V} {records : K → Option V} (h : Agrees cache records)
    (now : ℚ) : Agrees (clearCache now cache) records := by
  rw [clearCache_eq_purge]
  exact ExpiringDict.Holds.purge h now

theorem Agrees.assign {cache : Cache K V} {records : K → Option V} (h : Agrees cache records)
    {key : K} {data : V} (held : records key = some data) (exp : ℚ) :
    Agrees (cache.assign key (exp, data)) records :=
  ExpiringDict.Holds.assign h (fun _ _ _ same => same) held exp

theorem Agrees.put {cache : Cache K V} {records : K → Option V} (h : Agrees cache records)
    (key : K) (data : V) (exp : ℚ) :
    Agrees (cache.assign key (exp, data)) (Function.update records key (some data)) := by
  refine ExpiringDict.Holds.assign h (fun key' data' other same => ?_)
    (Function.update_self _ _ _) exp
  rw [Function.update_of_ne other, same]

theorem Agrees.erase {cache : Cache K V} {records : K → Option V} (h : Agrees cache records)
    (key : K) (value : Option V) :
    Agrees (cache.erase key) (Function.update records key value) := by
  refine ExpiringDict.Holds.erase h fun key' data other same => ?_
  rw [Function.update_of_ne other, same]

variable {cache : Cache K V} {map : K → Option V} {call : Call K V}

/-! ## One call against the map, a lemma for each method -/

theorem put_refines (localTTL : ℚ) (h : Agrees cache map) {key : K} {data : V}
    (hop : call.op = .put key data) :
    PlainMap map call (step localTTL (cache, map) call).1 (call.effect map) ∧
      Agrees (step localTTL (cache, map) call).2.1 (call.effect map) := by
  cases raised : call.raises with
  | true =>
    simp [step, hop, Ran.reply, put, Client.put, Call.client, Call.effect, raised,
      PlainMap, Except.map, h]
  | false =>
    simp only [step, hop, Ran.reply, put, Client.put, Call.client, Call.effect, raised,
      PlainMap, Except.map, Bool.false_eq_true, if_false, true_and]
    exact h.put key data _

theorem get_refines (localTTL : ℚ) (h : Agrees cache map) {key : K}
    (hop : call.op = .get key) :
    PlainMap map call (step localTTL (cache, map) call).1 map ∧
      Agrees (step localTTL (cache, map) call).2.1 map := by
  have cleared := h.clear call.now
  simp only [step, hop, Ran.reply]
  cases hit : (clearCache call.now cache).get? key with
  | some entry =>
    obtain ⟨exp, data⟩ := entry
    rw [get_hit _ _ _ _ _ hit]
    exact ⟨by simp [PlainMap, hop, Except.map, cleared key exp data hit], cleared⟩
  | none =>
    rw [get_miss _ _ _ _ _ hit]
    cases raised : call.raises with
    | true =>
      simp [Client.get, Call.client, raised, PlainMap, hop, Except.map, cleared]
    | false =>
      cases record : map key with
      | none => simp [Client.get, Call.client, raised, record, PlainMap, hop, Except.map, cleared]
      | some data =>
        simp only [Client.get, Call.client, raised, record, PlainMap, hop, Except.map,
          Bool.false_eq_true, if_false, and_self, true_and]
        exact cleared.assign record _

theorem getMany_refines (localTTL : ℚ) (h : Agrees cache map) {keys : List K}
    (hop : call.op = .getMany keys) :
    PlainMap map call (step localTTL (cache, map) call).1 map ∧
      Agrees (step localTTL (cache, map) call).2.1 map := by
  have cleared := h.clear call.now
  refine ⟨?_, ?_⟩
  · simp only [step, hop, Ran.reply]
    by_cases quiet : missing cache call.now keys = [] ∨ call.raises = false
    · obtain ⟨values, hrun, hget⟩ :=
        getMany_result localTTL (call.client map) cache call.now call.t keys quiet
      simp only [hrun, PlainMap, hop, Except.map, and_true]
      intro key
      rw [hget]
      -- a cached value is the record, so both sources answer alike
      cases hit : (clearCache call.now cache).get? key with
      | none => simp [Call.client]
      | some entry => simp [cleared key entry.1 entry.2 hit]
    · rw [not_or, Bool.not_eq_false] at quiet
      rw [getMany_raises _ _ _ _ _ quiet.1 quiet.2]
      simp [PlainMap, hop, Except.map, quiet.2]
  · simp only [step, hop, Ran.reply]
    exact getMany_cache_inv (P := fun cache => Agrees cache map) localTTL (call.client map) cache
      call.now call.t
      (fun _ _ value hc _ record => hc.assign record _) keys cleared

theorem remove_refines (localTTL : ℚ) (h : Agrees cache map) {key : K}
    (hop : call.op = .remove key) :
    PlainMap map call (step localTTL (cache, map) call).1 (call.effect map) ∧
      Agrees (step localTTL (cache, map) call).2.1 (call.effect map) := by
  have forgotten (value : Option V) := h.erase key value
  simp only [step, hop, Ran.reply, remove_cache]
  cases raised : call.raises with
  | true =>
    have same := forgotten (map key)
    rw [Function.update_eq_self] at same
    simp [remove, Client.remove, Call.client, Call.effect, raised, PlainMap, hop, Except.map, same]
  | false =>
    simp only [remove, Client.remove, Call.client, Call.effect, raised, PlainMap, hop, Except.map,
      Bool.false_eq_true, if_false]
    refine ⟨?_, forgotten none⟩
    cases record : map key with
    | some data => rfl
    | none =>
      refine ⟨record, ?_⟩
      rw [← record, Function.update_eq_self]

theorem exists_refines (localTTL : ℚ) (h : Agrees cache map) {key : K}
    (hop : call.op = .exists key) :
    PlainMap map call (step localTTL (cache, map) call).1 map ∧
      Agrees (step localTTL (cache, map) call).2.1 map := by
  simp only [step, hop, Ran.reply]
  cases raised : call.raises with
  | true =>
    simp [«exists», Client.exists, Call.client, raised, PlainMap, hop, Except.map, h]
  | false =>
    cases record : map key with
    | some data =>
      simp [«exists», Client.exists, Call.client, raised, record, PlainMap, hop, Except.map, h]
    | none =>
      cases absent : call.absentRaises <;>
        simp [«exists», Client.exists, Call.client, raised, record, absent, PlainMap, hop,
          Except.map, h]

/-- The simulation: the cluster holds the map, and the local cache agrees with it. -/
theorem step_refines (localTTL : ℚ) (s : Cache K V × (K → Option V)) (map : K → Option V)
    (call : Call K V) (h : s.2 = map ∧ Agrees s.1 map) :
    ∃ map', PlainMap map call (step localTTL s call).1 map' ∧
      (step localTTL s call).2.2 = map' ∧ Agrees (step localTTL s call).2.1 map' := by
  obtain ⟨cache, records⟩ := s
  obtain ⟨rfl, h⟩ := h
  cases hop : call.op with
  | put key data =>
    obtain ⟨hmap, hagrees⟩ := put_refines localTTL h hop
    exact ⟨_, hmap, step_records localTTL (cache, records) call, hagrees⟩
  | remove key =>
    obtain ⟨hmap, hagrees⟩ := remove_refines localTTL h hop
    exact ⟨_, hmap, step_records localTTL (cache, records) call, hagrees⟩
  | get key =>
    obtain ⟨hmap, hagrees⟩ := get_refines localTTL h hop
    exact ⟨_, hmap, by simp [step_records, Call.effect, hop], hagrees⟩
  | getMany keys =>
    obtain ⟨hmap, hagrees⟩ := getMany_refines localTTL h hop
    exact ⟨_, hmap, by simp [step_records, Call.effect, hop], hagrees⟩
  | «exists» key =>
    obtain ⟨hmap, hagrees⟩ := exists_refines localTTL h hop
    exact ⟨_, hmap, by simp [step_records, Call.effect, hop], hagrees⟩

/-- Every sequence of calls on a store with an empty local cache, at any readings of the clock
and with any calls raising, reports what the plain map of its successful calls allows. -/
theorem store_refines_plainMap (localTTL : ℚ) (records : K → Option V) (calls : List (Call K V)) :
    Accepts PlainMap records calls (outputs (step localTTL) (∅, records) calls) :=
  accepts_of_simulation (R := fun s map => s.2 = map ∧ Agrees s.1 map)
    (step_refines localTTL)
    ⟨rfl, agrees_empty records⟩ calls

end KhCommon.KeyValueStore
