import KhCommon.Caching.KeyValueStore
import KhCommon.Caching.Order

/-! When the local cache of a `KeyValueStore` serves only unexpired entries.
Eviction looks at the head of the cache alone, so this rests on the order of
the expiries. Reads keep it: they store keys that were not held. `put` keeps it
exactly when nothing behind the key it overwrites expires before the new entry;
otherwise a later `get` is served an expired entry. -/

namespace KhCommon.KeyValueStore

open Machine ExpiringDict

variable {K V : Type*} [DecidableEq K]

def Reply.value (reply : Reply K V) (op : Op K V) (key : K) : Option V :=
  match op, reply.result with
  | .get k, .ok (.data value) => if key = k then some value else none
  | .getMany _, .ok (.many values) => (values.get? key).join
  | _, _ => none

/-- A value given for a key that the client was not asked about is cached under an expiry
that is not before the reading at the start of the call. -/
def Unexpired (cache : Cache K V) (input : (K → Option V) × Call K V) (reply : Reply K V) : Prop :=
  ∀ key data, reply.value input.2.op key = some data → key ∉ reply.asked →
    ∃ exp, cache.get? key = some (exp, data) ∧ input.2.now ≤ exp

def InTurn (localTTL : ℚ) (cache : Cache K V) (input : (K → Option V) × Call K V)
    (_ : Reply K V) : Prop :=
  match input.2.op with
  | .put key _ => input.2.raises = false → KeepsOrder cache key (input.2.t + localTTL)
  | _ => True

variable {localTTL : ℚ}

section Methods

variable (client : Client K V) {cache : Cache K V} {t : ℚ}

theorem put_ordered (h : Ordered localTTL t cache) (key : K) (data : V)
    (turn : client.raises = false → KeepsOrder cache key (t + localTTL)) :
    Ordered localTTL t (put localTTL client cache key data t).cache := by
  cases raised : client.raises with
  | true => simpa [put, Client.put, raised] using h
  | false => simpa [put, Client.put, raised] using h.assign (fun _ => turn raised) data

theorem get_ordered (h : Ordered localTTL t cache) (key : K) (now : ℚ) :
    Ordered localTTL t (get localTTL client cache key now t).cache := by
  cases hit : (clearCache now cache).get? key with
  | some entry =>
    rw [get_hit _ _ _ _ _ hit]
    exact h.clear now
  | none =>
    rw [get_miss _ _ _ _ _ hit]
    cases client.get key with
    | error e => exact h.clear now
    | ok data => exact (h.clear now).add (OrderedDict.get?_eq_none_iff.mp hit) data

theorem getMany_ordered (h : Ordered localTTL t cache) (keys : List K) (now : ℚ) :
    Ordered localTTL t (getMany localTTL client cache keys now t).cache :=
  getMany_cache_inv localTTL client cache now t
    (fun _ _ value hc absent _ => hc.add absent value) keys (h.clear now)

theorem remove_ordered (h : Ordered localTTL t cache) (key : K) :
    Ordered localTTL t (remove client cache key).cache := by
  simp only [remove]
  split_ifs
  · exact ⟨fun httl => (h.inOrder httl).erase key, h.within.erase key⟩
  · exact h

end Methods

theorem get_unexpired {t₀ : ℚ} {cache : Cache K V} (h : Ordered localTTL t₀ cache)
    (records : K → Option V) (call : Call K V) (hnow : t₀ ≤ call.now) {key : K}
    (hop : call.op = .get key) :
    Unexpired cache (records, call) (localStep localTTL cache (records, call)).1 := by
  intro key' data hvalue hasked
  simp only [localStep, step, hop, Ran.reply, Reply.value] at hvalue hasked
  cases hit : (clearCache call.now cache).get? key with
  | some entry =>
    obtain ⟨exp, data'⟩ := entry
    rw [get_hit _ _ _ _ _ hit] at hvalue
    simp only [Except.map] at hvalue
    split_ifs at hvalue with hkey
    cases hvalue
    exact ⟨exp, hkey ▸ (h.get?_clearCache hnow).mp hit⟩
  | none =>
    rw [get_miss _ _ _ _ _ hit] at hvalue hasked
    cases hclient : (call.client records).get key with
    | error e => simp [hclient, Except.map] at hvalue
    | ok data' =>
      simp only [hclient, Except.map] at hvalue hasked
      split_ifs at hvalue with hkey
      simp [hkey] at hasked

theorem getMany_unexpired {t₀ : ℚ} {cache : Cache K V} (h : Ordered localTTL t₀ cache)
    (records : K → Option V) (call : Call K V) (hnow : t₀ ≤ call.now) {keys : List K}
    (hop : call.op = .getMany keys) :
    Unexpired cache (records, call) (localStep localTTL cache (records, call)).1 := by
  intro key data hvalue hasked
  simp only [localStep, step, hop, Ran.reply, Reply.value] at hvalue hasked
  rw [getMany_asked] at hasked
  by_cases quiet : missing cache call.now keys = [] ∨ call.raises = false
  · obtain ⟨values, hrun, hget⟩ :=
      getMany_result localTTL (call.client records) cache call.now call.t keys quiet
    simp only [hrun, Except.map, hget] at hvalue
    split_ifs at hvalue with hkey
    · have held : key ∈ clearCache call.now cache := by
        by_contra absent
        exact hasked ((mem_missing cache call.now).mpr ⟨hkey, absent⟩)
      obtain ⟨⟨exp, data'⟩, hit⟩ := OrderedDict.mem_iff_get?.mp held
      simp only [hit, Option.elim_some, Option.join_some, Option.some.injEq] at hvalue
      exact ⟨exp, hvalue ▸ (h.get?_clearCache hnow).mp hit⟩
    · simp at hvalue
  · rw [not_or, Bool.not_eq_false] at quiet
    rw [getMany_raises _ _ _ _ _ quiet.1 quiet.2] at hvalue
    simp [Except.map] at hvalue

theorem localStep_ordered (t₀ : ℚ) (cache : Cache K V) (input : (K → Option V) × Call K V)
    (h : Ordered localTTL t₀ cache) (hnow : t₀ ≤ input.2.now) (ht : input.2.now ≤ input.2.t)
    (turn : InTurn localTTL cache input (localStep localTTL cache input).1) :
    Unexpired cache input (localStep localTTL cache input).1 ∧
      Ordered localTTL input.2.t (localStep localTTL cache input).2 := by
  obtain ⟨records, call⟩ := input
  have later : Ordered localTTL call.t cache := h.later (hnow.trans ht)
  cases hop : call.op with
  | put key data =>
    refine ⟨fun key' data' hvalue => ?_, ?_⟩
    · simp [localStep, step, hop, Ran.reply, Reply.value] at hvalue
    · simp only [InTurn, hop] at turn
      simpa only [localStep, step, hop, Ran.reply] using
        put_ordered (call.client records) later key data turn
  | get key =>
    refine ⟨get_unexpired h records call hnow hop, ?_⟩
    simpa only [localStep, step, hop, Ran.reply] using
      get_ordered (call.client records) later key call.now
  | getMany keys =>
    refine ⟨getMany_unexpired h records call hnow hop, ?_⟩
    simpa only [localStep, step, hop, Ran.reply] using
      getMany_ordered (call.client records) later keys call.now
  | remove key =>
    refine ⟨fun key' data' hvalue => ?_, ?_⟩
    · simp [localStep, step, hop, Ran.reply, Reply.value] at hvalue
    · simpa only [localStep, step, hop, Ran.reply] using
        remove_ordered (call.client records) later key
  | «exists» key =>
    refine ⟨fun key' data' hvalue => ?_, ?_⟩
    · simp [localStep, step, hop, Ran.reply, Reply.value] at hvalue
    · have same : («exists» (call.client records) cache key).cache = cache := by
        unfold «exists»
        split <;> rfl
      simpa only [localStep, step, hop, Ran.reply, same] using later

/-- In every run whose `put`s are in turn no read is served an expired entry; and one call
more keeps this for whatever may follow it exactly when it is in turn itself. -/
theorem reads_unexpired (localTTL t₀ : ℚ) (ttl : 0 ≤ localTTL)
    (inputs : List ((K → Option V) × Call K V))
    (clock : Clocked (fun i => i.2.now) (fun i => i.2.t) t₀ inputs)
    (turns : Always (localStep localTTL) (InTurn localTTL) ∅ inputs) :
    Always (localStep localTTL) Unexpired ∅ inputs ∧
    ∀ next : (K → Option V) × Call K V,
      lastReading (fun i => i.2.t) t₀ inputs ≤ next.2.now → next.2.now ≤ next.2.t →
      let cache := run (localStep localTTL) ∅ inputs
      (InTurn localTTL cache next (localStep localTTL cache next).1 ↔
        ∀ later : (K → Option V) × Call K V, next.2.t ≤ later.2.now → later.2.now ≤ later.2.t →
          let cache' := (localStep localTTL cache next).2
          Unexpired cache' later (localStep localTTL cache' later).1) := by
  obtain ⟨always, last⟩ := always_of_clocked localStep_ordered (ordered_empty t₀) clock turns
  refine ⟨always, fun next hnow ht => ⟨fun turn later hlater hlater' => ?_, fun safe => ?_⟩⟩
  · obtain ⟨-, ordered⟩ := localStep_ordered _ _ next last hnow ht turn
    cases hop : later.2.op with
    | get key => exact get_unexpired ordered later.1 later.2 hlater hop
    | getMany keys => exact getMany_unexpired ordered later.1 later.2 hlater hop
    | put key data => simp [Unexpired, localStep, step, hop, Ran.reply, Reply.value]
    | remove key => simp [Unexpired, localStep, step, hop, Ran.reply, Reply.value]
    | «exists» key => simp [Unexpired, localStep, step, hop, Ran.reply, Reply.value]
  · obtain ⟨records, call⟩ := next
    cases hop : call.op with
    | put key data =>
      simp only [InTurn, hop]
      intro quiet
      by_contra out
      obtain ⟨late, hlate, key', exp, data', early, stored, served⟩ :=
        stale_of_out_of_turn ttl data out
      -- the read that exposes the entry, at a reading after it expired
      have read := safe (records, ⟨.get key', late, late, false, [], false⟩) hlate le_rfl
      simp only [localStep, step, hop, Ran.reply, put, Client.put, Call.client, quiet] at read
      obtain ⟨exp', hexp', fresh⟩ := read key' data'
        (by simp [Reply.value, get_hit _ _ _ _ _ served, Except.map])
        (by simp [get_hit _ _ _ _ _ served])
      simp only [Bool.false_eq_true, if_false, stored, Option.some.injEq, Prod.mk.injEq] at hexp'
      exact absurd fresh (not_le.mpr (hexp'.1 ▸ early))
    | _ => simp [InTurn, hop]

theorem reads_unexpired_single :
    let empty : String → Option ℕ := fun _ => none
    Always (localStep 10) Unexpired ∅
      [(empty, (⟨.put "a" 1, 0, 0, false, [], false⟩ : Call String ℕ)),
        (empty, ⟨.put "b" 2, 1, 1, false, [], false⟩), (empty, ⟨.get "a", 5, 5, false, [], false⟩),
        (empty, ⟨.getMany ["a", "b"], 11, 11, false, [], false⟩)] := by
  intro empty
  refine (reads_unexpired 10 0 (by decide) _ (by norm_num [Clocked]) ?_).1
  refine ⟨fun _ => ?_, fun _ => ?_, trivial, trivial, trivial⟩
  · simp [KeepsOrder, OrderedDict.after]
  · exact keepsOrder_of_not_mem (by decide) _

/-- `a` stored again at 9 keeps its place before `b`, which expired at 11 and is served at 15. -/
theorem reads_expired :
    ¬ ∀ localTTL : ℚ, 0 ≤ localTTL →
      ∀ (t₀ : ℚ) (inputs : List ((String → Option ℕ) × Call String ℕ)),
      Clocked (fun i => i.2.now) (fun i => i.2.t) t₀ inputs →
        Always (localStep localTTL) Unexpired ∅ inputs := by
  intro all
  have always := all 10 (by decide) 0
    [(fun _ => none, ⟨.put "a" 1, 0, 0, false, [], false⟩),
      (fun _ => none, ⟨.put "b" 2, 1, 1, false, [], false⟩),
      (fun _ => none, ⟨.put "a" 3, 9, 9, false, [], false⟩),
      (fun _ => none, ⟨.get "b", 15, 15, false, [], false⟩)]
    (by norm_num [Clocked])
  obtain ⟨exp, hexp, fresh⟩ := always.2.2.2.1 "b" 2 (by decide +kernel) (by decide +kernel)
  have stored : some (exp, 2) = some ((11 : ℚ), 2) := hexp.symm.trans (by decide +kernel)
  cases stored
  exact absurd fresh (by decide)

end KhCommon.KeyValueStore
