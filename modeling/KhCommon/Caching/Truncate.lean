import KhCommon.Caching.KeyValueStore

/-! `KeyValueStore.truncate` deletes the records of the set and leaves the local cache
alone. A read is then served what is still cached. The next clearing does drop an
expired entry, unless one that has not expired stands in front of it, and `put` may
store such a one there. Only what `ExpiringDict.Lapsed` says is safe from that. -/

namespace KhCommon.KeyValueStore

open Machine ExpiringDict

variable {K V : Type*} [DecidableEq K]

def Client.truncate (client : Client K V) : Except Exc Unit × (K → Option V) :=
  if client.raises then (.error .clientError, client.records) else (.ok (), fun _ => none)

def truncate (client : Client K V) (cache : Cache K V) : Ran K V Unit :=
  let (result, records) := client.truncate
  ⟨result, cache, [], records⟩

inductive Request (K V : Type*)
  | call (call : Call K V)
  | truncate (t : ℚ) (raises : Bool)

namespace Request

def opens : Request K V → ℚ
  | .call c => c.now
  | .truncate t _ => t

def closes : Request K V → ℚ
  | .call c => c.t
  | .truncate t _ => t

def Puts (key : K) : Request K V → Prop
  | .call c => ∃ data, c.op = .put key data
  | .truncate _ _ => False

end Request

def serve (localTTL : ℚ) (s : Cache K V × (K → Option V)) :
    Request K V → Reply K V × (Cache K V × (K → Option V))
  | .call call => step localTTL s call
  | .truncate _ raises => (truncate ⟨s.2, raises, [], false⟩ s.1).reply fun _ => .done

/-- A `get` of the key raises RecordNotFound and a `get_many` has None for it, if the client does
not fail. -/
def Absent (key : K) (_ : Cache K V × (K → Option V)) (request : Request K V) (reply : Reply K V) :
    Prop :=
  match request with
  | .call call => call.raises = false →
    match call.op with
    | .get key' => key' = key → reply.result = .error .recordNotFound
    | .getMany keys => key ∈ keys →
      ∃ values, reply.result = .ok (.many values) ∧ values.get? key = some none
    | _ => True
  | .truncate _ _ => True

/-! ## A key that has lapsed -/

/-- The cluster has no record of the key, and no clearing will leave it in the cache. -/
structure Emptied (key : K) (t : ℚ) (s : Cache K V × (K → Option V)) : Prop where
  remote : s.2 key = none
  lapsed : Lapsed t key s.1

variable {localTTL t : ℚ} {key : K} {s : Cache K V × (K → Option V)}

theorem Emptied.not_mem_clearCache (h : Emptied key t s) {now : ℚ} (le : t ≤ now) :
    key ∉ clearCache now s.1 := by
  rw [clearCache_eq_purge]
  exact (h.lapsed.mono le).not_mem_purge

theorem Emptied.get_result (h : Emptied key t s) {call : Call K V} (le : t ≤ call.now)
    (quiet : call.raises = false) :
    (get localTTL (call.client s.2) s.1 key call.now call.t).result = .error .recordNotFound := by
  have miss := OrderedDict.get?_eq_none_iff.mpr (h.not_mem_clearCache le)
  simp [get_miss _ _ _ _ _ miss, Client.get, Call.client, quiet, h.remote]

theorem Emptied.getMany_result (localTTL : ℚ) (h : Emptied key t s) {call : Call K V}
    (le : t ≤ call.now) (quiet : call.raises = false) {keys : List K} (hkey : key ∈ keys) :
    ∃ values, (getMany localTTL (call.client s.2) s.1 keys call.now call.t).result = .ok values ∧
      values.get? key = some none := by
  obtain ⟨values, hrun, hget⟩ := KeyValueStore.getMany_result localTTL (call.client s.2) s.1
    call.now call.t keys (.inr quiet)
  refine ⟨values, hrun, ?_⟩
  have miss := OrderedDict.get?_eq_none_iff.mpr (h.not_mem_clearCache le)
  simp [hget, hkey, miss, Call.client, h.remote]

theorem Emptied.get_lapsed (h : Emptied key t s) {call : Call K V} (le : t ≤ call.now)
    (key' : K) :
    Lapsed call.t key (get localTTL (call.client s.2) s.1 key' call.now call.t).cache := by
  have cleared : Lapsed call.t key (clearCache call.now s.1) :=
    .of_not_mem (h.not_mem_clearCache le)
  cases hit : (clearCache call.now s.1).get? key' with
  | some entry =>
    rw [get_hit _ _ _ _ _ hit]
    exact cleared
  | none =>
    rw [get_miss _ _ _ _ _ hit]
    cases hclient : (call.client s.2).get key' with
    | error e => exact cleared
    | ok data =>
      refine cleared.assign ?_ _
      rintro rfl
      have gone : (call.client s.2).records key = none := h.remote
      simp only [Client.get, gone] at hclient
      split_ifs at hclient

theorem Emptied.getMany_lapsed (h : Emptied key t s) {call : Call K V} (le : t ≤ call.now)
    (keys : List K) :
    Lapsed call.t key (getMany localTTL (call.client s.2) s.1 keys call.now call.t).cache := by
  refine getMany_cache_inv localTTL (call.client s.2) s.1 call.now call.t ?_ keys
    (.of_not_mem (h.not_mem_clearCache le))
  intro cache key' value hc _ record
  refine hc.assign ?_ _
  rintro rfl
  have gone : (call.client s.2).records key = none := h.remote
  rw [gone] at record
  cases record

theorem Emptied.step_remote (localTTL : ℚ) (h : Emptied key t s) {call : Call K V}
    (other : ∀ data, call.op ≠ .put key data) : (step localTTL s call).2.2 key = none := by
  rw [step_records]
  unfold Call.effect
  split_ifs
  · exact h.remote
  · cases hop : call.op with
    | put key' data =>
      have ne : key ≠ key' := by
        rintro rfl
        exact other data hop
      simp [Function.update_of_ne ne, h.remote]
    | remove key' =>
      by_cases same : key = key'
      · simp [same]
      · simp [Function.update_of_ne same, h.remote]
    | get _ => exact h.remote
    | getMany _ => exact h.remote
    | «exists» _ => exact h.remote

theorem Emptied.step_lapsed (localTTL : ℚ) (h : Emptied key t s) {call : Call K V}
    (le : t ≤ call.now) (reads : call.now ≤ call.t) (other : ∀ data, call.op ≠ .put key data) :
    Lapsed call.t key (step localTTL s call).2.1 := by
  have later : Lapsed call.t key s.1 := h.lapsed.mono (le.trans reads)
  simp only [step]
  cases hop : call.op with
  | put key' data =>
    have ne : key ≠ key' := by
      rintro rfl
      exact other data hop
    simp only [put, Client.put, Ran.reply]
    split_ifs
    · exact later
    · exact later.assign ne _
  | get key' => exact h.get_lapsed le key'
  | getMany keys => exact h.getMany_lapsed le keys
  | remove key' =>
    simp only [Ran.reply, remove_cache]
    exact later.erase key'
  | «exists» key' =>
    have same : («exists» (call.client s.2) s.1 key').cache = s.1 := by
      unfold «exists»
      split <;> rfl
    simp only [Ran.reply, same]
    exact later

theorem Emptied.absent (localTTL : ℚ) (h : Emptied key t s) {call : Call K V}
    (le : t ≤ call.now) : Absent key s (.call call) (serve localTTL s (.call call)).1 := by
  intro quiet
  simp only [serve, step]
  cases hop : call.op with
  | get key' =>
    rintro rfl
    simp [Ran.reply, h.get_result le quiet, Except.map]
  | getMany keys =>
    intro hkey
    obtain ⟨values, hrun, hget⟩ := h.getMany_result localTTL le quiet hkey
    exact ⟨values, by simp [Ran.reply, hrun, Except.map], hget⟩
  | put _ _ => trivial
  | remove _ => trivial
  | «exists» _ => trivial

theorem serve_emptied (localTTL : ℚ) (h : Emptied key t s) {request : Request K V}
    (le : t ≤ request.opens) (reads : request.opens ≤ request.closes)
    (other : ¬request.Puts key) :
    Absent key s request (serve localTTL s request).1 ∧
      Emptied key request.closes (serve localTTL s request).2 := by
  cases request with
  | truncate now raises =>
    refine ⟨trivial, ?_, h.lapsed.mono le⟩
    cases raises with
    | true => exact h.remote
    | false => rfl
  | call call =>
    have puts : ∀ data, call.op ≠ .put key data := fun data hop => other ⟨data, hop⟩
    exact ⟨h.absent localTTL le, h.step_remote localTTL puts, h.step_lapsed localTTL le reads puts⟩

/-! ## After `truncate` -/

theorem serve_get_hit (localTTL : ℚ) (s : Cache K V × (K → Option V)) {entry : ℚ × V}
    (hit : (clearCache t s.1).get? key = some entry) :
    (serve localTTL s (.call ⟨.get key, t, t, false, [], false⟩)).1.result =
      .ok (.data entry.2) := by
  simp [serve, step, Ran.reply, get_hit _ _ _ _ _ hit, Except.map]

/-- After a `truncate` that returns, and until a `put` of the key, no read gives it a value,
exactly if it has lapsed in the local cache at that time. -/
theorem truncate_empties_iff (localTTL : ℚ) (ttl : 0 ≤ localTTL) (records : K → Option V)
    (before : List (Request K V)) (t : ℚ) (key : K) :
    let s := run (serve localTTL) (∅, records) before
    let truncated := serve localTTL s (.truncate t false)
    truncated.1.result = .ok .done ∧
      ((∀ later, Clocked Request.opens Request.closes t later →
          (∀ request ∈ later, ¬request.Puts key) →
          Always (serve localTTL) (Absent key) truncated.2 later) ↔
        Lapsed t key s.1) := by
  intro s truncated
  refine ⟨rfl, fun empties => ?_, fun lapsed later clock others => ?_⟩
  · by_contra held
    have hkey : key ∈ s.1 := by
      by_contra absent
      exact held (.of_not_mem absent)
    obtain ⟨entry, hentry⟩ := OrderedDict.mem_iff_get?.mp hkey
    let read : Request K V := .call ⟨.get key, t, t, false, [], false⟩
    rcases get?_purge_of_not_lapsed held hentry with hit | ⟨key', ne, hit⟩
    · rw [← clearCache_eq_purge] at hit
      have always := empties [read] ⟨le_rfl, le_rfl, trivial⟩ (by simp [read, Request.Puts])
      have served := serve_get_hit localTTL truncated.2 hit
      rw [always.1 rfl rfl] at served
      cases served
    · -- the key in front is put again, and then blocks the clearing
      let write : Request K V := .call ⟨.put key' entry.2, t, t, false, [], false⟩
      have always := empties [write, read] ⟨le_rfl, le_rfl, le_rfl, le_rfl, trivial⟩
        (by simp [read, write, Request.Puts, ne])
      have stored := hit (t + localTTL, entry.2) (le_add_of_nonneg_right ttl)
      rw [← clearCache_eq_purge] at stored
      have served := serve_get_hit localTTL (serve localTTL truncated.2 write).2 stored
      rw [always.2.1 rfl rfl] at served
      cases served
  · have admitted : Always (serve localTTL) (fun _ request _ => ¬request.Puts key) truncated.2
        later :=
      always_of_forall_mem (fun request mem _ => others request mem) _
    have start : Emptied key t truncated.2 := ⟨rfl, lapsed⟩
    have step (t : ℚ) (s : Cache K V × (K → Option V)) (request : Request K V)
        (h : Emptied key t s) (le : t ≤ request.opens) (reads : request.opens ≤ request.closes)
        (other : ¬request.Puts key) := serve_emptied localTTL h le reads other
    exact (always_of_clocked step start clock admitted).1

theorem truncate_empties_iff_single :
    let stored := run (serve 1) (∅, fun _ => none)
      [(.call ⟨.put "a" 1, 0, 0, false, [], false⟩ : Request String ℕ)]
    ∀ later, Clocked Request.opens Request.closes 5 later →
      (∀ request ∈ later, ¬request.Puts "a") →
      Always (serve 1) (Absent "a") (serve 1 stored (.truncate 5 false)).2 later := by
  intro stored
  refine (truncate_empties_iff 1 (by decide) _ _ 5 "a").2.mpr fun _ => ⟨(1, 1), [], ?_, ?_⟩
  · decide +kernel
  · decide

/-- Stored and truncated at once, the key is still served. -/
theorem truncate_not_empties :
    ¬ ∀ (localTTL : ℚ), 0 ≤ localTTL → ∀ (before later : List (Request String ℕ)) (t : ℚ),
      Clocked Request.opens Request.closes 0 before →
      lastReading Request.closes 0 before ≤ t →
      Clocked Request.opens Request.closes t later → (∀ request ∈ later, ¬request.Puts "a") →
        Always (serve localTTL) (Absent "a")
          (serve localTTL (run (serve localTTL) (∅, fun _ => none) before) (.truncate t false)).2
          later := by
  intro all
  let before : List (Request String ℕ) := [.call ⟨.put "a" 1, 0, 0, false, [], false⟩]
  let read : Request String ℕ := .call ⟨.get "a", 0, 0, false, [], false⟩
  have always := all 1 (by decide) before [read] 0 ⟨le_rfl, le_rfl, trivial⟩ le_rfl
    ⟨le_rfl, le_rfl, trivial⟩ (by simp [read, Request.Puts])
  have held : (clearCache 0 (run (serve 1) (∅, fun _ => none) before).1).get? "a" =
      some (1, 1) := by
    decide +kernel
  have served := serve_get_hit 1
    (serve 1 (run (serve 1) (∅, fun _ => none) before) (.truncate 0 false)).2 held
  rw [always.1 rfl rfl] at served
  cases served

end KhCommon.KeyValueStore
