import KhCommon.Caching.KeyValueStoreAsync

/-! `get_many_async` among the other calls on one `KeyValueStore`: local lookup, remote
read, and the merge that reads the local cache again. It has a lock of its own, so
two batches never overlap, but `get_async` may evict and `remove_async` may delete
between the lookup and the merge what the lookup found. -/

namespace KhCommon.KeyValueStore.Many

open Machine Async

variable {K V : Type*}

inductive Phase (K V : Type*)
  | idle
  | missed (found remote : List K) -- `remote` is not cached, the rest of the keys is
  | fetched (found : List K) (data : List (K × Option V)) -- the client has answered
  deriving DecidableEq

structure Store (K V : Type*) where
  shared : Shared K V
  getManyLock : Option ℕ
  batch : ℕ → Phase K V

/-- A step of another call, or of a batch; `raises` and `order` are the client's. -/
inductive Step (K V : Type*)
  | other (step : Async.Step K V)
  | lookup (id : ℕ) (keys : List K) (now : ℚ)
  | remoteRead (id : ℕ) (raises : Bool) (order : List K)
  | merge (id : ℕ) (t : ℚ)

abbrev Output (K V : Type*) := Option (Except Exc (OrderedDict K (Option V)))

variable [DecidableEq K]

def step (localTTL : ℚ) (s : Store K V) : Step K V → Output K V × Store K V
  | .other i => (none, { s with shared := advance localTTL s.shared i })
  | .lookup id keys now =>
    match s.batch id, s.getManyLock with
    | .idle, none =>
      let cache := clearCache now s.shared.cache
      let remoteKeys := missing s.shared.cache now keys
      if remoteKeys = [] then
        (some (mergeLocal cache keys.dedup ∅), { s with shared := { s.shared with cache } })
      else
        (none, ⟨{ s.shared with cache }, some id, Function.update s.batch id
          (.missed (keys.dedup.filter (· ∉ remoteKeys)) remoteKeys)⟩)
    | _, _ => (none, s)
  | .remoteRead id raises order =>
    match s.batch id with
    | .missed found remote =>
      match Client.getMany ⟨s.shared.records, raises, order, false⟩ remote with
      | .error e => (some (.error e), ⟨s.shared, none, Function.update s.batch id .idle⟩)
      | .ok data =>
        (none, { s with batch := Function.update s.batch id (.fetched found data) })
    | _ => (none, s)
  | .merge id t =>
    match s.batch id with
    | .fetched found data =>
      let (dataMap, cache) := absorb (t + localTTL) data ∅ s.shared.cache
      (some (mergeLocal cache found dataMap),
        ⟨{ s.shared with cache }, none, Function.update s.batch id .idle⟩)
    | _ => (none, s)

def start (records : K → Option V) : Store K V := ⟨Async.start records, none, fun _ => .idle⟩

variable {localTTL : ℚ} {s : Store K V}

section Steps

variable (localTTL) {id : ℕ} {keys found remote : List K} {now : ℚ}

theorem lookup_local (idle : s.batch id = .idle) (free : s.getManyLock = none)
    (all : missing s.shared.cache now keys = []) :
    step localTTL s (.lookup id keys now) =
      (some (mergeLocal (clearCache now s.shared.cache) keys.dedup ∅),
        { s with shared := { s.shared with cache := clearCache now s.shared.cache } }) := by
  simp only [step, idle, free, all, if_true]

theorem lookup_missed (idle : s.batch id = .idle) (free : s.getManyLock = none)
    (asks : missing s.shared.cache now keys ≠ []) :
    step localTTL s (.lookup id keys now) =
      (none, ⟨{ s.shared with cache := clearCache now s.shared.cache }, some id,
        Function.update s.batch id
          (.missed (keys.dedup.filter (· ∉ missing s.shared.cache now keys))
            (missing s.shared.cache now keys))⟩) := by
  simp only [step, idle, free, if_neg asks]

theorem remoteRead_missed (missed : s.batch id = .missed found remote) (raises : Bool)
    (order : List K) : step localTTL s (.remoteRead id raises order) =
      match Client.getMany ⟨s.shared.records, raises, order, false⟩ remote with
      | .error e => (some (.error e), ⟨s.shared, none, Function.update s.batch id .idle⟩)
      | .ok data =>
        (none, { s with batch := Function.update s.batch id (.fetched found data) }) := by
  simp only [step, missed]

theorem merge_fetched {data : List (K × Option V)} (fetched : s.batch id = .fetched found data)
    (t : ℚ) : step localTTL s (.merge id t) =
      let filled := absorb (t + localTTL) data ∅ s.shared.cache
      (some (mergeLocal filled.2 found filled.1),
        ⟨{ s.shared with cache := filled.2 }, none, Function.update s.batch id .idle⟩) := by
  simp only [step, fetched]

theorem remoteRead_idle (idle : s.batch id = .idle) (raises : Bool) (order : List K) :
    step localTTL s (.remoteRead id raises order) = (none, s) := by
  simp only [step, idle]

theorem merge_idle (idle : s.batch id = .idle) (t : ℚ) :
    step localTTL s (.merge id t) = (none, s) := by
  simp only [step, idle]

theorem lookup_cases (idle : s.batch id = .idle) (free : s.getManyLock = none) (keys : List K)
    (now : ℚ) :
    (step localTTL s (.lookup id keys now)).2.shared.cache = clearCache now s.shared.cache ∧
      ((step localTTL s (.lookup id keys now)).2.batch id = .idle ∨
        (step localTTL s (.lookup id keys now)).2.batch id =
          .missed (keys.dedup.filter (· ∉ missing s.shared.cache now keys))
            (missing s.shared.cache now keys)) := by
  by_cases all : missing s.shared.cache now keys = []
  · rw [lookup_local localTTL idle free all]
    exact ⟨rfl, .inl idle⟩
  · rw [lookup_missed localTTL idle free all]
    exact ⟨rfl, .inr (Function.update_self ..)⟩

end Steps

theorem getMany_alone {id : ℕ} (idle : s.batch id = .idle) (free : s.getManyLock = none)
    (keys : List K) (now t : ℚ) (raises : Bool) (order : List K) :
    let ran := getMany localTTL ⟨s.shared.records, raises, order, false⟩ s.shared.cache keys now t
    let steps := [.lookup id keys now, .remoteRead id raises order, .merge id t]
    (outputs (step localTTL) s steps).filterMap (fun o => o) = [ran.result] ∧
      (run (step localTTL) s steps).shared.cache = ran.cache := by
  intro ran steps
  simp only [steps, run_cons, run_nil, outputs]
  by_cases all : missing s.shared.cache now keys = []
  · have whole : ran = _ := getMany_local _ _ _ _ _ all
    rw [whole, lookup_local localTTL idle free all, remoteRead_idle, merge_idle]
    · exact ⟨rfl, rfl⟩
    · exact idle
    · exact idle
  · rw [lookup_missed localTTL idle free all,
      remoteRead_missed localTTL (Function.update_self ..)]
    cases raises with
    | true =>
      have whole : ran = _ := getMany_raises _ _ _ _ _ all rfl
      simp only [Client.getMany, if_true]
      rw [merge_idle, whole]
      · exact ⟨rfl, rfl⟩
      · exact Function.update_self ..
    | false =>
      simp only [Client.getMany, Bool.false_eq_true, if_false]
      rw [merge_fetched localTTL (Function.update_self ..)]
      have some : ¬keys.dedup.filter (· ∉ clearCache now s.shared.cache) = [] := all
      simp only [ran, getMany, _getMany, if_neg some, Client.getMany, Bool.false_eq_true, if_false]
      exact ⟨rfl, rfl⟩

/-! ## One step -/

def Exclusive (s : Store K V) : Prop := ∀ id, s.batch id ≠ .idle → s.getManyLock = some id

/-- The local delete of a `remove_async` of the key, or the lookup of a `get_async` at a time when
the entry of the key has expired. -/
def Threatens (s : Store K V) (key : K) : Step K V → Prop
  | .other (.localDelete _ key') => key' = key
  | .other (.lookup _ _ now) => ∃ exp data, s.shared.cache.get? key = some (exp, data) ∧ exp < now
  | _ => False

structure Drops (localTTL : ℚ) (s : Store K V) (key : K) (i : Step K V) : Prop where
  threatens : Threatens s key i
  held : key ∈ s.shared.cache
  gone : key ∉ (step localTTL s i).2.shared.cache

theorem step_batch (s : Store K V) {i : Step K V} {id : ℕ}
    (once : ∀ keys now, i ≠ .lookup id keys now) :
    (step localTTL s i).2.batch id = s.batch id ∨ (step localTTL s i).2.batch id = .idle ∨
      ∃ found remote order answered, i = .remoteRead id false order ∧
        s.batch id = .missed found remote ∧ List.Perm answered remote ∧
        (step localTTL s i).2.batch id =
          .fetched found (answered.map fun key => (key, s.shared.records key)) := by
  cases i with
  | other i => exact .inl rfl
  | lookup id' keys now =>
    have other : id ≠ id' := by
      rintro rfl
      exact once keys now rfl
    simp only [step]
    split
    · split_ifs
      · exact .inl rfl
      · exact .inl (Function.update_of_ne other ..)
    · exact .inl rfl
  | remoteRead id' raises order =>
    simp only [step]
    split
    next found remote missed =>
      by_cases same : id = id'
      · subst same
        cases raises with
        | true => simp [Client.getMany]
        | false =>
          obtain ⟨answered, perm, answer⟩ :=
            client_getMany ⟨s.shared.records, false, order, false⟩ remote rfl
          rw [answer]
          exact .inr (.inr ⟨found, remote, order, answered, rfl, missed, perm,
            Function.update_self ..⟩)
      · split <;> exact .inl (Function.update_of_ne same ..)
    next => exact .inl rfl
  | merge id' t =>
    simp only [step]
    split
    · by_cases same : id = id'
      · exact .inr (.inl (same ▸ Function.update_self ..))
      · exact .inl (Function.update_of_ne same ..)
    · exact .inl rfl

omit [DecidableEq K] in
theorem Exclusive.move (h : Exclusive s) {id : ℕ}
    (mine : s.batch id ≠ .idle ∨ s.getManyLock = none) {phase : Phase K V} {lock : Option ℕ}
    (held : phase ≠ .idle → lock = some id) (shared : Shared K V) :
    Exclusive ⟨shared, lock, Function.update s.batch id phase⟩ := by
  intro id' running
  by_cases same : id' = id
  · subst same
    simp only [Function.update_self] at running
    exact held running
  · simp only [Function.update_of_ne same] at running
    have taken := h id' running
    rcases mine with mine | free
    · rw [h id mine, Option.some.injEq] at taken
      exact absurd taken.symm same
    · rw [free] at taken
      cases taken

theorem step_exclusive (h : Exclusive s) (i : Step K V) : Exclusive (step localTTL s i).2 := by
  cases i with
  | other i => exact h
  | lookup id keys now =>
    simp only [step]
    split
    next free =>
      split_ifs
      · exact h
      · exact h.move (.inr free) (fun _ => rfl) _
    next => exact h
  | remoteRead id raises order =>
    simp only [step]
    split
    next missed =>
      have running : s.batch id ≠ .idle := by simp [missed]
      split
      · exact h.move (.inl running) (fun busy => absurd rfl busy) _
      · exact h.move (.inl running) (fun _ => h id running) _
    next => exact h
  | merge id t =>
    simp only [step]
    split
    next fetched =>
      have running : s.batch id ≠ .idle := by simp [fetched]
      exact h.move (.inl running) (fun busy => absurd rfl busy) _
    next => exact h

theorem mem_assign_of_mem {cache : Cache K V} {key : K} (held : key ∈ cache) (k : K) (e : ℚ × V) :
    key ∈ cache.assign k e := by
  rw [OrderedDict.mem_iff_get?] at held ⊢
  rw [OrderedDict.get?_assign]
  split_ifs
  · exact ⟨e, rfl⟩
  · exact held

theorem lt_of_not_mem_clearCache {cache : Cache K V} {now : ℚ} {key : K} {e : ℚ × V}
    (he : cache.get? key = some e) (gone : key ∉ clearCache now cache) : e.1 < now := by
  obtain ⟨front, back, split⟩ := List.append_of_mem (OrderedDict.get?_eq_some_iff.mp he)
  rw [clearCache_eq_purge] at gone
  exact (ExpiringDict.lt_of_not_mem_purge split
    fun kept => gone (OrderedDict.mem_of_mem_items kept)).1

theorem absorb_keeps (exp : ℚ) (data : List (K × Option V)) (dataMap : OrderedDict K (Option V))
    {cache : Cache K V} {key : K} (held : key ∈ cache) :
    key ∈ (absorb exp data dataMap cache).2 := by
  induction data generalizing dataMap cache with
  | nil => exact held
  | cons datum data ih =>
    obtain ⟨k, record⟩ := datum
    cases record with
    | none => exact ih _ held
    | some value => exact ih _ (mem_assign_of_mem held _ _)

theorem step_keeps (h : Exclusive s) {id : ℕ} (running : s.batch id ≠ .idle) {key : K}
    (held : key ∈ s.shared.cache) {i : Step K V} (kept : ¬Threatens s key i) :
    key ∈ (step localTTL s i).2.shared.cache := by
  have locked := h id running
  cases i with
  | lookup id' keys now =>
    have waits : step localTTL s (.lookup id' keys now) = (none, s) := by
      cases phase : s.batch id' <;> simp only [step, locked, phase]
    rwa [waits]
  | remoteRead id' raises order =>
    simp only [step]
    split
    · split <;> exact held
    · exact held
  | merge id' t =>
    simp only [step]
    split
    · exact absorb_keeps _ _ _ held
    · exact held
  | other i =>
    show key ∈ (advance localTTL s.shared i).cache
    cases i with
    | lookup id' key' now =>
      have cleared : key ∈ clearCache now s.shared.cache := by
        by_contra gone
        obtain ⟨e, he⟩ := OrderedDict.mem_iff_get?.mp held
        exact kept ⟨e.1, e.2, he, lt_of_not_mem_clearCache he gone⟩
      simp only [advance]
      split
      · split_ifs <;> exact cleared
      · exact held
    | remoteRead | remoteWrite | remoteRemove =>
      simp only [advance]
      split
      · first | exact held | (split <;> exact held)
      · exact held
    | localDelete id' key' =>
      simp only [advance]
      split
      · rw [OrderedDict.mem_iff_get?] at held ⊢
        rwa [OrderedDict.get?_erase, if_neg (Ne.symm kept)]
      · exact held
    | localWrite id' t =>
      simp only [advance]
      split
      · exact mem_assign_of_mem held _ _
      · exact mem_assign_of_mem held _ _
      · exact held

/-! ## From the lookup to the merge -/

section Window

variable {id : ℕ} {between : List (Step K V)}

theorem run_idle (idle : s.batch id = .idle)
    (once : ∀ i ∈ between, ∀ keys now, i ≠ .lookup id keys now) :
    (run (step localTTL) s between).batch id = .idle := by
  induction between generalizing s with
  | nil => exact idle
  | cons i between ih =>
    rw [List.forall_mem_cons] at once
    refine ih ?_ once.2
    rcases step_batch s once.1 with same | ended | ⟨_, _, _, _, _, missed, _⟩
    · exact same.trans idle
    · exact ended
    · rw [idle] at missed
      cases missed

theorem run_fetched {found : List K} {data : List (K × Option V)}
    (fetched : s.batch id = .fetched found data)
    (once : ∀ i ∈ between, ∀ keys now, i ≠ .lookup id keys now)
    (running : (run (step localTTL) s between).batch id ≠ .idle) :
    (run (step localTTL) s between).batch id = .fetched found data := by
  induction between generalizing s with
  | nil => exact fetched
  | cons i between ih =>
    rw [List.forall_mem_cons] at once
    rcases step_batch s once.1 with same | ended | ⟨_, _, _, _, _, missed, _⟩
    · exact ih (same.trans fetched) once.2 running
    · exact absurd (run_idle ended once.2) running
    · rw [fetched] at missed
      cases missed

theorem run_missed {found found' remote : List K} {data : List (K × Option V)}
    (missed : s.batch id = .missed found remote)
    (once : ∀ i ∈ between, ∀ keys now, i ≠ .lookup id keys now)
    (fetched : (run (step localTTL) s between).batch id = .fetched found' data) :
    found' = found ∧ ∃ first order rest answered,
      between = first ++ .remoteRead id false order :: rest ∧ List.Perm answered remote ∧
      data = answered.map fun key => (key, (run (step localTTL) s first).shared.records key) := by
  induction between generalizing s with
  | nil =>
    rw [run_nil, missed] at fetched
    cases fetched
  | cons i between ih =>
    rw [List.forall_mem_cons] at once
    rcases step_batch s once.1 with same | ended | ⟨_, _, order, answered, rfl, missed', perm, now⟩
    · obtain ⟨whole, first, order, rest, answered, rfl, perm, hdata⟩ :=
        ih (same.trans missed) once.2 fetched
      exact ⟨whole, i :: first, order, rest, answered, rfl, perm, hdata⟩
    · rw [run_cons, run_idle ended once.2] at fetched
      cases fetched
    · rw [missed] at missed'
      cases missed'
      have still := run_fetched now once.2 (by rw [← run_cons, fetched]; simp)
      rw [← run_cons, fetched, Phase.fetched.injEq] at still
      exact ⟨still.1, [], order, between, answered, rfl, perm, still.2⟩

theorem run_keeps (h : Exclusive s) {key : K} (held : key ∈ s.shared.cache)
    (once : ∀ i ∈ between, ∀ keys now, i ≠ .lookup id keys now)
    (running : (run (step localTTL) s between).batch id ≠ .idle)
    (gone : key ∉ (run (step localTTL) s between).shared.cache) :
    ∃ first i rest, between = first ++ i :: rest ∧
      Drops localTTL (run (step localTTL) s first) key i := by
  induction between generalizing s with
  | nil => exact absurd held gone
  | cons i between ih =>
    have here : s.batch id ≠ .idle := fun idle => running (run_idle idle once)
    rw [List.forall_mem_cons] at once
    by_cases still : key ∈ (step localTTL s i).2.shared.cache
    · obtain ⟨first, i', rest, rfl, drops⟩ := ih (step_exclusive h i) still once.2 running gone
      exact ⟨i :: first, i', rest, rfl, drops⟩
    · refine ⟨[], i, between, rfl, ?_, held, still⟩
      by_contra kept
      exact still (step_keeps h here held kept)

end Window

theorem mergeLocal_lost {cache : Cache K V} {keys : List K} {key : K} (mem : key ∈ keys)
    (lost : key ∉ cache) (dataMap : OrderedDict K (Option V)) :
    mergeLocal cache keys dataMap = .error .keyError := by
  induction keys generalizing dataMap with
  | nil => cases mem
  | cons k keys ih =>
    cases hk : cache.get? k with
    | none => simp [mergeLocal, hk]
    | some entry =>
      have later : key ∈ keys := by
        refine (List.mem_cons.mp mem).resolve_left ?_
        rintro rfl
        rw [OrderedDict.get?_eq_none_iff.mpr lost] at hk
        cases hk
      simp only [mergeLocal, hk]
      exact ih later _

theorem merge_result (records : K → Option V) (cache : Cache K V) {answered found : List K}
    (apart : ∀ key ∈ found, key ∉ answered) (exp : ℚ) :
    let filled := absorb exp (answered.map fun key => (key, records key)) ∅ cache
    ((∀ key ∈ found, key ∈ cache) → ∃ values, mergeLocal filled.2 found filled.1 = .ok values ∧
      ∀ key, values.get? key = if key ∈ found then some ((cache.get? key).map Prod.snd)
        else if key ∈ answered then some (records key) else none) ∧
    ∀ key ∈ found, key ∉ cache → mergeLocal filled.2 found filled.1 = .error .keyError := by
  intro filled
  have same : ∀ key ∈ found, filled.2.get? key = cache.get? key := by
    intro key mem
    rw [absorb_cache, if_neg (apart key mem)]
  constructor
  · intro held
    have kept : ∀ key ∈ found, key ∈ filled.2 := fun key mem => absorb_keeps _ _ _ (held key mem)
    obtain ⟨values, merged, hget⟩ := mergeLocal_ok found kept filled.1
    refine ⟨values, merged, fun key => ?_⟩
    rw [hget, absorb_dataMap]
    split_ifs with mem
    · rw [same key mem]
    · rfl
    · rfl
  · intro key mem lost
    refine mergeLocal_lost mem ?_ _
    rw [← OrderedDict.get?_eq_none_iff, same key mem]
    exact OrderedDict.get?_eq_none_iff.mpr lost

theorem start_exclusive (records : K → Option V) (localTTL : ℚ) (steps : List (Step K V)) :
    Exclusive (run (step localTTL) (start records) steps) := by
  refine run_inv (I := Exclusive) (C := fun _ _ _ => True) (fun s i h _ => step_exclusive h i) ?_
    (always_of_forall_mem (fun _ _ _ => trivial) _)
  intro id running
  exact absurd rfl running

/-- Whatever other calls do between the lookup of a `get_many_async` and its merge: a key that
was not cached gets its record at the moment of the remote read, a key that was cached gets what
the cache holds at the merge. If it holds nothing any more, the call raises `KeyError`, and a
`get_async` that found the entry expired or a `remove_async` took it out meanwhile. -/
theorem getManyAsync_merge (localTTL : ℚ) (records : K → Option V) (before : List (Step K V))
    {s : Store K V} (reached : run (step localTTL) (start records) before = s) {id : ℕ}
    (idle : s.batch id = .idle) (free : s.getManyLock = none) (keys : List K) (now : ℚ)
    {between : List (Step K V)} (once : ∀ i ∈ between, ∀ keys now, i ≠ .lookup id keys now)
    {s' : Store K V} (passed : run (step localTTL) s (.lookup id keys now :: between) = s')
    (fetched : ∃ found data, s'.batch id = .fetched found data) (t : ℚ) :
    let cached := fun key => key ∈ clearCache now s.shared.cache
    let after := fun steps => (run (step localTTL) s (.lookup id keys now :: steps))
    ((∀ key ∈ keys, cached key → key ∈ s'.shared.cache) →
      ∃ values, (step localTTL s' (.merge id t)).1 = some (.ok values) ∧
      ∃ first order rest, between = first ++ .remoteRead id false order :: rest ∧
      ∀ key, values.get? key =
        if key ∈ keys then
          some (if cached key then (s'.shared.cache.get? key).map Prod.snd
            else (after first).shared.records key)
        else none) ∧
    ∀ key ∈ keys, cached key → key ∉ s'.shared.cache →
      (step localTTL s' (.merge id t)).1 = some (.error .keyError) ∧
      ∃ first i rest, between = first ++ i :: rest ∧ Drops localTTL (after first) key i := by
  intro cached after
  obtain ⟨found, data, fetched⟩ := fetched
  have exclusive : Exclusive s := reached ▸ start_exclusive records localTTL before
  rw [run_cons] at passed
  obtain ⟨cleared, ended | missed⟩ := lookup_cases localTTL idle free keys now
  · rw [← passed, run_idle ended once] at fetched
    cases fetched
  rw [← passed] at fetched
  obtain ⟨rfl, first, order, rest, answered, split, perm, rfl⟩ := run_missed missed once fetched
  rw [passed] at fetched
  have inAnswer : ∀ key, key ∈ answered ↔ key ∈ keys ∧ ¬cached key :=
    fun key => perm.mem_iff.trans (mem_missing _ _)
  have inFound : ∀ key, key ∈ keys.dedup.filter (· ∉ missing s.shared.cache now keys) ↔
      key ∈ keys ∧ cached key := by
    intro key
    simp only [cached, List.mem_filter, List.mem_dedup, decide_eq_true_eq, mem_missing]
    tauto
  have apart : ∀ key ∈ keys.dedup.filter (· ∉ missing s.shared.cache now keys), key ∉ answered :=
    fun key mem answer => ((inAnswer key).mp answer).2 ((inFound key).mp mem).2
  obtain ⟨merged, lost⟩ :=
    merge_result (after first).shared.records s'.shared.cache apart (t + localTTL)
  rw [merge_fetched localTTL fetched]
  refine ⟨fun held => ?_, fun key mem wasCached gone => ⟨?_, ?_⟩⟩
  · obtain ⟨values, result, hget⟩ := merged fun key mem =>
      held key ((inFound key).mp mem).1 ((inFound key).mp mem).2
    refine ⟨values, congrArg some result, first, order, rest, split, fun key => ?_⟩
    rw [hget]
    simp only [inFound, inAnswer]
    by_cases mem : key ∈ keys <;> by_cases wasCached : cached key <;> simp [mem, wasCached]
  · exact congrArg some (lost key ((inFound key).mpr ⟨mem, wasCached⟩) gone)
  · refine run_keeps (step_exclusive exclusive _) (cleared ▸ wasCached) once ?_ (passed ▸ gone)
    rw [passed, fetched]
    simp

theorem getManyAsync_merge_evicted :
    let records := fun key => if key = "a" then some 1 else if key = "b" then some 2 else none
    let cached : List (Step String ℕ) :=
      [.other (.lookup 0 "a" 0), .other (.remoteRead 0 false), .other (.localWrite 0 0)]
    let evicted : List (Step String ℕ) := [.remoteRead 0 false ["b"], .other (.lookup 1 "c" 2)]
    let s := run (step 1) (start records) (cached ++ .lookup 0 ["a", "b"] (1 / 2) :: evicted)
    (step 1 s (.merge 0 2)).1 = some (.error .keyError) := by
  intro records cached evicted s
  have split : run (step 1) (run (step 1) (start records) cached)
      (.lookup 0 ["a", "b"] (1 / 2) :: evicted) = s := (run_append ..).symm
  refine ((getManyAsync_merge 1 records cached rfl rfl rfl ["a", "b"] (1 / 2) ?_ split
    ⟨["a"], [("b", some 2)], ?_⟩ 2).2 "a" (by simp) ?_ ?_).1
  · simp [evicted]
  · decide +kernel
  · decide +kernel
  · decide +kernel

end KhCommon.KeyValueStore.Many
