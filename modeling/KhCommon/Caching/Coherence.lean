import KhCommon.Caching.KeyValueStoreAsync

/-! When concurrent calls leave the local cache of a `KeyValueStore` coherent. A call
that carries the present record owes it to the cache; as long as every entry is
the present record or one that a call owes will replace it, the calls in flight
repair the cache. `put_async` and `remove_async` take no lock, so a call may also
store a record that has been overwritten or removed meanwhile; then nothing is
owed and the entry stays. -/

namespace KhCommon.KeyValueStore.Async

open Machine

variable {K V : Type*} [DecidableEq K]

def Owes (s : Shared K V) (id : ℕ) (key : K) : Prop :=
  ∃ data, (s.call id).carried = some (key, data) ∧ s.records key = some data

/-- A local write stores the present record, or another call has yet to store it; a remote
remove finds no local entry for its key. -/
def Settles (s : Shared K V) (i : Step K V) (_ : Unit) : Prop :=
  match i with
  | .localWrite id _ =>
    ∀ key data, (s.call id).carried = some (key, data) →
      s.records key = some data ∨ ∃ other, other ≠ id ∧ Owes s other key
  | .remoteRemove id raises =>
    ∀ key, s.call id = .deleted key → raises = false → s.cache.get? key = none
  | _ => True

def Repairable (s : Shared K V) : Prop :=
  ∀ key exp data, s.cache.get? key = some (exp, data) →
    s.records key = some data ∨ ∃ id, Owes s id key

variable {localTTL : ℚ} {s : Shared K V}

/-! ## What the calls owe one another -/

omit [DecidableEq K] in
theorem Owes.ne {id id' : ℕ} {key : K} (h : Owes s id' key)
    (before : (s.call id).carried = none) : id' ≠ id := by
  rintro rfl
  obtain ⟨data, hcarried, -⟩ := h
  rw [before] at hcarried
  cases hcarried

omit [DecidableEq K] in
theorem Owes.move {id id' : ℕ} {key : K} (h : Owes s id' key) (other : id' ≠ id)
    {records : K → Option V} (hrecord : records key = s.records key) (cache : Cache K V)
    (getLock : Option ℕ) (phase : Phase K V) :
    Owes ⟨cache, records, getLock, Function.update s.call id phase⟩ id' key := by
  obtain ⟨data, hcarried, hdata⟩ := h
  exact ⟨data, by simpa only [Function.update_of_ne other] using hcarried, hrecord.trans hdata⟩

theorem Repairable.move (h : Repairable s) {cache : Cache K V}
    (forgets : ∀ key e, cache.get? key = some e → s.cache.get? key = some e)
    (getLock : Option ℕ) {id : ℕ} (before : (s.call id).carried = none) (phase : Phase K V) :
    Repairable ⟨cache, s.records, getLock, Function.update s.call id phase⟩ := by
  intro key exp data he
  rcases h key exp data (forgets key _ he) with present | ⟨id', owes⟩
  · exact .inl present
  · exact .inr ⟨id', owes.move (owes.ne before) rfl _ _ _⟩

theorem repairable_lookup (h : Repairable s) (id : ℕ) (key : K) (now : ℚ) :
    Repairable (advance localTTL s (.lookup id key now)) := by
  have forgets : ∀ key e, (clearCache now s.cache).get? key = some e →
      s.cache.get? key = some e := by
    intro key e he
    rw [clearCache_eq_purge] at he
    exact ExpiringDict.get?_of_get?_purge he
  simp only [advance]
  split
  next hidle _ =>
    have before : (s.call id).carried = none := by rw [hidle]; rfl
    split_ifs
    · simpa only [Function.update_eq_self] using h.move forgets s.getLock before (s.call id)
    · exact h.move forgets _ before _
  next => exact h

theorem repairable_remoteRead (h : Repairable s) (id : ℕ) (raises : Bool) :
    Repairable (advance localTTL s (.remoteRead id raises)) := by
  simp only [advance]
  split
  next key hmissed =>
    have before : (s.call id).carried = none := by rw [hmissed]; rfl
    split
    · exact h.move (fun _ _ he => he) _ before _
    · exact h.move (fun _ _ he => he) _ before _
  next => exact h

theorem repairable_localDelete (h : Repairable s) (id : ℕ) (key : K) :
    Repairable (advance localTTL s (.localDelete id key)) := by
  simp only [advance]
  split
  next hidle =>
    have before : (s.call id).carried = none := by rw [hidle]; rfl
    refine h.move (fun key' e he => ?_) _ before _
    rw [OrderedDict.get?_erase] at he
    split_ifs at he
    exact he
  next => exact h

theorem repairable_remoteWrite (h : Repairable s) (id : ℕ) (key : K) (data : V) (raises : Bool) :
    Repairable (advance localTTL s (.remoteWrite id key data raises)) := by
  simp only [advance]
  split
  next hidle =>
    have before : (s.call id).carried = none := by rw [hidle]; rfl
    split_ifs
    · exact h
    · intro key' exp data' he
      by_cases hkey : key' = key
      · refine .inr ⟨id, data, ?_, ?_⟩
        · simp [Phase.carried, hkey]
        · simp [hkey]
      · have hrecord : Function.update s.records key (some data) key' = s.records key' :=
          Function.update_of_ne hkey _ _
        rcases h key' exp data' he with present | ⟨id', owes⟩
        · exact .inl (hrecord.trans present)
        · exact .inr ⟨id', owes.move (owes.ne before) hrecord _ _ _⟩
  next => exact h

theorem repairable_remoteRemove (h : Repairable s) (id : ℕ) (raises : Bool)
    (settles : Settles s (.remoteRemove id raises) ()) :
    Repairable (advance localTTL s (.remoteRemove id raises)) := by
  simp only [advance]
  split
  next key hdeleted =>
    have before : (s.call id).carried = none := by rw [hdeleted]; rfl
    cases raises with
    | true => exact h.move (fun _ _ he => he) _ before _
    | false =>
      intro key' exp data he
      have absent := settles key hdeleted rfl
      have hkey : key' ≠ key := by
        rintro rfl
        rw [absent] at he
        cases he
      have hrecord : Function.update s.records key none key' = s.records key' :=
        Function.update_of_ne hkey _ _
      rcases h key' exp data he with present | ⟨id', owes⟩
      · exact .inl (by simpa using hrecord.trans present)
      · exact .inr ⟨id', owes.move (owes.ne before) (by simpa using hrecord) _ _ _⟩
  next => exact h

theorem repairable_store (h : Repairable s) {id : ℕ} {key : K} {data : V}
    (carried : (s.call id).carried = some (key, data))
    (settles : s.records key = some data ∨ ∃ other, other ≠ id ∧ Owes s other key)
    (t : ℚ) (getLock : Option ℕ) :
    Repairable ⟨s.cache.assign key (t + localTTL, data), s.records, getLock,
      Function.update s.call id .idle⟩ := by
  intro key' exp data' he
  rw [OrderedDict.get?_assign] at he
  split_ifs at he with hkey
  · cases he
    subst hkey
    rcases settles with present | ⟨other, hother, owes⟩
    · exact .inl present
    · exact .inr ⟨other, owes.move hother rfl _ _ _⟩
  · rcases h key' exp data' he with present | ⟨id', owes⟩
    · exact .inl present
    · refine .inr ⟨id', owes.move ?_ rfl _ _ _⟩
      rintro rfl
      obtain ⟨_, hcarried, -⟩ := owes
      rw [carried] at hcarried
      cases hcarried
      exact hkey rfl

theorem repairable_localWrite (h : Repairable s) (id : ℕ) (t : ℚ)
    (settles : Settles s (.localWrite id t) ()) :
    Repairable (advance localTTL s (.localWrite id t)) := by
  simp only [advance]
  split
  next key data hphase =>
    have carried : (s.call id).carried = some (key, data) := by rw [hphase]; rfl
    exact repairable_store h carried (settles key data carried) t none
  next key data hphase =>
    have carried : (s.call id).carried = some (key, data) := by rw [hphase]; rfl
    exact repairable_store h carried (settles key data carried) t s.getLock
  next => exact h

theorem repairable_step (s : Shared K V) (i : Step K V) (h : Repairable s)
    (settles : Settles s i (step localTTL s i).1) : Repairable (step localTTL s i).2 := by
  change Repairable (advance localTTL s i)
  cases i with
  | lookup id key now => exact repairable_lookup h id key now
  | remoteRead id raises => exact repairable_remoteRead h id raises
  | remoteWrite id key data raises => exact repairable_remoteWrite h id key data raises
  | localDelete id key => exact repairable_localDelete h id key
  | remoteRemove id raises => exact repairable_remoteRemove h id raises settles
  | localWrite id t => exact repairable_localWrite h id t settles

theorem repairable_start (records : K → Option V) : Repairable (start records) := by
  intro key exp data he
  cases he

theorem Repairable.coherent (h : Repairable s) (quiet : Quiescent s) (now : ℚ) :
    Coherent now s := by
  intro key exp data he
  have present : s.records key = some data := by
    rcases h key exp data he with present | ⟨id, _, hcarried, -⟩
    · exact present
    · rw [quiet id] at hcarried
      cases hcarried
  exact ⟨fun _ => present, by simp [present]⟩

/-! ## A step that does not settle -/

def Broken (now : ℚ) (key : K) (s : Shared K V) : Prop :=
  (∃ exp data, s.cache.get? key = some (exp, data) ∧ s.records key ≠ some data ∧
    (s.records key = none ∨ now ≤ exp)) ∧ ∀ id, ¬ Owes s id key

theorem Broken.not_coherent {now : ℚ} {key : K} (h : Broken now key s) : ¬ Coherent now s := by
  obtain ⟨⟨exp, data, he, differs, reason⟩, -⟩ := h
  intro coherent
  obtain ⟨equal, present⟩ := coherent key exp data he
  rcases reason with absent | fresh
  · exact present absent
  · exact differs (equal fresh)

def finish (now : ℚ) (s : Shared K V) (id : ℕ) : Step K V :=
  match s.call id with
  | .fetched _ _ => .localWrite id now
  | .written _ _ => .localWrite id now
  | .deleted _ => .remoteRemove id true
  | _ => .remoteRead id true

theorem finish_call (now : ℚ) (id : ℕ) :
    (advance localTTL s (finish now s id)).call = Function.update s.call id .idle := by
  cases h : s.call id <;> simp only [finish, h, advance]
  case idle => rw [← h, Function.update_eq_self]
  all_goals rfl

theorem finish_records (now : ℚ) (id : ℕ) :
    (advance localTTL s (finish now s id)).records = s.records := by
  cases h : s.call id <;> simp [finish, h, advance]

theorem finish_cache (localTTL : ℚ) (s : Shared K V) (now : ℚ) (id : ℕ) (key : K) :
    (advance localTTL s (finish now s id)).cache.get? key = s.cache.get? key ∨
      ∃ data, (s.call id).carried = some (key, data) ∧
        (advance localTTL s (finish now s id)).cache.get? key = some (now + localTTL, data) := by
  have stored : ∀ k (d : V), key = k ∨
      (s.cache.assign k (now + localTTL, d)).get? key = s.cache.get? key := by
    intro k d
    by_cases hkey : key = k
    · exact .inl hkey
    · exact .inr (OrderedDict.get?_assign_of_ne _ hkey _)
  cases h : s.call id with
  | fetched k d =>
    simp only [finish, h, advance]
    rcases stored k d with rfl | same
    · exact .inr ⟨d, rfl, OrderedDict.get?_assign_self _ _ _⟩
    · exact .inl same
  | written k d =>
    simp only [finish, h, advance]
    rcases stored k d with rfl | same
    · exact .inr ⟨d, rfl, OrderedDict.get?_assign_self _ _ _⟩
    · exact .inl same
  | idle => exact .inl (by simp [finish, h, advance])
  | missed k => exact .inl (by simp [finish, h, advance])
  | deleted k => exact .inl (by simp [finish, h, advance])

theorem Broken.finish (ttl : 0 ≤ localTTL) {now : ℚ} {key : K} (h : Broken now key s) (id : ℕ) :
    Broken now key (advance localTTL s (finish now s id)) := by
  obtain ⟨⟨exp, data, he, differs, reason⟩, unowed⟩ := h
  refine ⟨?_, fun id' owes => ?_⟩
  · rw [finish_records]
    rcases finish_cache localTTL s now id key with same | ⟨d, hcarried, hd⟩
    · exact ⟨exp, data, same.trans he, differs, reason⟩
    · exact ⟨_, d, hd, fun record => unowed id ⟨d, hcarried, record⟩,
        .inr (le_add_of_nonneg_right ttl)⟩
  · obtain ⟨d, hcarried, record⟩ := owes
    rw [finish_call] at hcarried
    rw [finish_records] at record
    by_cases hid : id' = id
    · simp [hid, Phase.carried] at hcarried
    · rw [Function.update_of_ne hid] at hcarried
      exact unowed id' ⟨d, hcarried, record⟩

theorem Broken.reaches_quiescence (ttl : 0 ≤ localTTL) {now : ℚ} {key : K} (ids : List ℕ)
    (h : Broken now key s) (others : ∀ id, id ∉ ids → s.call id = .idle) :
    ∃ later, Quiescent (run (step localTTL) s later) ∧
      Broken now key (run (step localTTL) s later) := by
  induction ids generalizing s with
  | nil => exact ⟨[], fun id => others id List.not_mem_nil, h⟩
  | cons id ids ih =>
    obtain ⟨later, hquiet, hbroken⟩ := ih (h.finish ttl id) (fun id' hid' => by
      rw [finish_call]
      by_cases e : id' = id
      · rw [e, Function.update_self]
      · rw [Function.update_of_ne e]
        exact others id' (by simp [e, hid']))
    exact ⟨Async.finish now s id :: later, hquiet, hbroken⟩

def Finite (s : Shared K V) : Prop := ∃ ids : List ℕ, ∀ id, id ∉ ids → s.call id = .idle

omit [DecidableEq K] in
theorem Finite.update (h : Finite s) {s' : Shared K V} {id : ℕ} {phase : Phase K V}
    (hcall : s'.call = Function.update s.call id phase) : Finite s' := by
  obtain ⟨ids, hids⟩ := h
  refine ⟨id :: ids, fun id' hid' => ?_⟩
  rw [List.mem_cons, not_or] at hid'
  rw [hcall, Function.update_of_ne hid'.1]
  exact hids id' hid'.2

theorem advance_call (localTTL : ℚ) (s : Shared K V) (i : Step K V) :
    ∃ id phase, (advance localTTL s i).call = Function.update s.call id phase := by
  have stay : ∃ id phase, s.call = Function.update s.call id phase :=
    ⟨0, s.call 0, (Function.update_eq_self 0 s.call).symm⟩
  cases i <;> simp only [advance] <;> split
  all_goals first
    | exact stay
    | exact ⟨_, _, rfl⟩
    | (split_ifs <;> first | exact stay | exact ⟨_, _, rfl⟩)
    | (split <;> exact ⟨_, _, rfl⟩)

theorem finite_run (localTTL : ℚ) (records : K → Option V) (steps : List (Step K V)) :
    Finite (run (step localTTL) (start records) steps) := by
  refine run_inv (I := Finite) (C := fun _ _ _ => True) (fun s i h _ => ?_) ?_
    (always_of_forall_mem (fun _ _ _ => trivial) _)
  · obtain ⟨id, phase, hcall⟩ := advance_call localTTL s i
    exact h.update hcall
  · exact ⟨[], fun _ _ => rfl⟩

theorem broken_of_store (ttl : 0 ≤ localTTL) {id : ℕ} {key : K} {data : V}
    (stale : s.records key ≠ some data) (unowed : ∀ other, other ≠ id → ¬ Owes s other key)
    (t : ℚ) (getLock : Option ℕ) :
    Broken t key ⟨s.cache.assign key (t + localTTL, data), s.records, getLock,
      Function.update s.call id .idle⟩ := by
  refine ⟨⟨_, data, OrderedDict.get?_assign_self _ _ _, stale,
    .inr (le_add_of_nonneg_right ttl)⟩, fun id' owes => ?_⟩
  obtain ⟨d, hcarried, record⟩ := owes
  by_cases hid : id' = id
  · simp [hid, Phase.carried] at hcarried
  · simp only [Function.update_of_ne hid] at hcarried
    exact unowed id' hid ⟨d, hcarried, record⟩

theorem broken_of_not_settles (ttl : 0 ≤ localTTL) (i : Step K V) (h : ¬ Settles s i ()) :
    ∃ now key, Broken now key (advance localTTL s i) := by
  cases i with
  | localWrite id t =>
    simp only [Settles, not_forall, not_or, not_exists, not_and] at h
    obtain ⟨key, data, carried, stale, unowed⟩ := h
    refine ⟨t, key, ?_⟩
    cases hphase : s.call id <;> rw [hphase] at carried <;> cases carried
    all_goals
      simp only [advance, hphase]
      exact broken_of_store ttl stale unowed t _
  | remoteRemove id raises =>
    simp only [Settles, not_forall] at h
    obtain ⟨key, hdeleted, rfl, held⟩ := h
    obtain ⟨⟨exp, data⟩, he⟩ := Option.ne_none_iff_exists'.mp held
    refine ⟨0, key, ?_⟩
    have gone : (advance localTTL s (.remoteRemove id false)).records key = none := by
      simp [advance, hdeleted]
    refine ⟨⟨exp, data, ?_, by simp [gone], .inl gone⟩, fun id' owes => ?_⟩
    · simpa [advance, hdeleted] using he
    · obtain ⟨d, -, record⟩ := owes
      rw [gone] at record
      cases record
  | lookup id key now => exact absurd trivial h
  | remoteRead id raises => exact absurd trivial h
  | remoteWrite id key data raises => exact absurd trivial h
  | localDelete id key => exact absurd trivial h

/-- Whatever the schedule, if every step settles then the cache is coherent whenever no call
is in flight; and from any step that does not settle the calls in flight can end with an
incoherent cache. -/
theorem coherent_of_settling (localTTL : ℚ) (records : K → Option V) (steps : List (Step K V))
    (settles : Always (step localTTL) Settles (start records) steps) :
    (Quiescent (run (step localTTL) (start records) steps) →
      ∀ now, Coherent now (run (step localTTL) (start records) steps)) ∧
    (0 ≤ localTTL → ∀ next, ¬ Settles (run (step localTTL) (start records) steps) next () →
      ∃ later now, Quiescent (run (step localTTL) (start records) (steps ++ next :: later)) ∧
        ¬ Coherent now (run (step localTTL) (start records) (steps ++ next :: later))) := by
  refine ⟨fun quiet now => ?_, fun ttl next unsettled => ?_⟩
  · exact (run_inv repairable_step (repairable_start records) settles).coherent quiet now
  · obtain ⟨now, key, broken⟩ := broken_of_not_settles ttl next unsettled
    obtain ⟨ids, others⟩ := finite_run localTTL records (steps ++ [next])
    rw [run_append] at others
    obtain ⟨later, quiet, still⟩ := broken.reaches_quiescence ttl ids others
    refine ⟨later, now, ?_, ?_⟩
    · rw [run_append]
      exact quiet
    · rw [run_append]
      exact still.not_coherent

theorem coherent_of_settling_put :
    Coherent 2 (run (step 10) (start fun _ => some 0)
      [(.lookup 0 "k" 0 : Step String ℕ), .remoteRead 0 false, .remoteWrite 1 "k" 1 false,
        .localWrite 0 1, .localWrite 1 2]) := by
  have missed : "k" ∉ clearCache 0 (∅ : Cache String ℕ) := by decide
  refine (coherent_of_settling 10 (fun _ => some 0) _ ?_).1 (fun id => ?_) 2
  · simp only [Always, Settles, step, advance, start, missed, if_false, Function.update_self]
    refine ⟨trivial, trivial, trivial, fun key data carries => .inr ⟨1, by decide, ?_⟩, ?_, trivial⟩
    · obtain ⟨rfl, -⟩ : "k" = key ∧ 0 = data := by
        simpa [Phase.carried, Function.update] using carries
      exact ⟨1, by simp [Phase.carried], by simp⟩
    · intro key data carries
      obtain ⟨rfl, rfl⟩ : "k" = key ∧ 1 = data := by
        simpa [Phase.carried, Function.update] using carries
      exact .inl (by simp)
  · by_cases h0 : id = 0 <;> by_cases h1 : id = 1 <;>
      simp [step, advance, start, missed, Function.update, h0, h1]

/-- A `get_async` that read the record before a `put_async` wrote and cached a new one caches
the old record afterwards. -/
theorem stale_read_back :
    ¬ ∀ localTTL : ℚ, 0 ≤ localTTL → ∀ (records : String → Option ℕ) (steps : List (Step String ℕ)),
      Quiescent (run (step localTTL) (start records) steps) →
        ∀ now, Coherent now (run (step localTTL) (start records) steps) := by
  intro all
  have coherent := all 10 (by decide) (fun _ => some 0)
    [.lookup 0 "k" 0, .remoteRead 0 false, .remoteWrite 1 "k" 1 false, .localWrite 1 1,
      .localWrite 0 1] (fun id => ?_) 1
  · obtain ⟨equal, -⟩ := coherent "k" 11 0 (by decide +kernel)
    exact absurd (equal (by decide)) (by decide)
  · have missed : "k" ∉ clearCache 0 (∅ : Cache String ℕ) := by decide
    by_cases h0 : id = 0 <;> by_cases h1 : id = 1 <;>
      simp [step, advance, start, missed, Function.update, h0, h1]

end KhCommon.KeyValueStore.Async
