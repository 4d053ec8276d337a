import KhCommon.Caching.AsyncCache

/-! How old an answer of the asynchronous wrapper can be. A result that is stored over
that of another call keeps its place in the order of eviction, and can so shield
entries that expire before it. But what stands behind the key of a call was stored
after the call began. If every call that stores over another does so within `late` of
its beginning, no entry answers more than `late` after it has expired. -/

namespace KhCommon.Caching

open ExpiringDict

variable {C E K V : Type*} [DecidableEq K] {key : C → K} {ttl late t : ℚ} {began : ℕ → ℚ}
  {Good Better : K → ℚ → V → Prop} {s : Shared C K V}

/-- A call that stores over the result of another does so at most `late` after it began. -/
def Brief (key : C → K) (began : ℕ → ℚ) (late : ℚ) (s : Shared C K V) : Event C E V → Prop
  | .complete id stored (.ok _) =>
    ∀ args, s.awaiting id = some args → key args ∈ s.cache → stored ≤ began id + late
  | _ => True

structure Aged (Good : K → ℚ → V → Prop) (key : C → K) (ttl late : ℚ) (began : ℕ → ℚ) (t : ℚ)
    (s : Shared C K V) : Prop where
  within : Within (t + ttl) s.cache
  nearly : NearlyInOrder late s.cache
  source : ∀ k exp data, s.cache.get? k = some (exp, data) → ∃ c, exp = c + ttl ∧ Good k c data
  running : ∀ id args, s.awaiting id = some args →
    began id ≤ t ∧ KeepsOrder s.cache (key args) (began id + ttl)

omit [DecidableEq K] in
theorem within_later {cache : Cache K V} {t' : ℚ} (h : Within (t + ttl) cache) (ht : t ≤ t') :
    Within (t' + ttl) cache :=
  h.mono (add_le_add ht le_rfl)

theorem aged_idle (t : ℚ) : Aged Good key ttl late began t (idle : Shared C K V) where
  within := within_empty _
  nearly := nearlyInOrder_empty _
  source k exp data h := by simp [idle] at h
  running id args h := by cases h

theorem Aged.later {t' : ℚ} (h : Aged Good key ttl late began t s) (ht : t ≤ t') :
    Aged Good key ttl late began t' s where
  within := within_later h.within ht
  nearly := h.nearly
  source := h.source
  running id args hid := ⟨(h.running id args hid).1.trans ht, (h.running id args hid).2⟩

theorem Aged.mono (h : Aged Good key ttl late began t s)
    (imp : ∀ k c data, Good k c data → Better k c data) : Aged Better key ttl late began t s where
  within := h.within
  nearly := h.nearly
  source k exp data hk := by
    obtain ⟨c, hexp, good⟩ := h.source k exp data hk
    exact ⟨c, hexp, imp k c data good⟩
  running := h.running

theorem Aged.clear {now : ℚ} (h : Aged Good key ttl late began t s) (hnow : t ≤ now) :
    Aged Good key ttl late began now { s with cache := clearCache now s.cache } := by
  rw [clearCache_eq_purge]
  exact {
    within := (within_later h.within hnow).purge now
    nearly := h.nearly.purge now
    source := fun k exp data hk => h.source k exp data (get?_of_get?_purge hk)
    running := fun id args hid =>
      ⟨(h.running id args hid).1.trans hnow, (h.running id args hid).2.purge now⟩ }

theorem Aged.served (hlate : 0 ≤ late) (h : Aged Good key ttl late began t s) {now exp : ℚ} {k : K}
    {data : V} (hit : (clearCache now s.cache).get? k = some (exp, data)) :
    ∃ c, Good k c data ∧ now ≤ c + ttl + late := by
  rw [clearCache_eq_purge] at hit
  obtain ⟨c, rfl, good⟩ := h.source k exp data (get?_of_get?_purge hit)
  exact ⟨c, good, h.nearly.le_of_get?_purge hlate hit⟩

theorem Aged.await {id : ℕ} {args : C} (h : Aged Good key ttl late began t s)
    (missed : key args ∉ s.cache) (hbegan : began id ≤ t) :
    Aged Good key ttl late began t
      { s with awaiting := Function.update s.awaiting id (some args) } where
  within := h.within
  nearly := h.nearly
  source := h.source
  running id' args' hid' := by
    rcases update_eq_some_iff.mp hid' with ⟨rfl, ⟨⟩⟩ | ⟨-, hid'⟩
    · exact ⟨hbegan, keepsOrder_of_not_mem missed _⟩
    · exact h.running id' args' hid'

theorem Aged.leave (h : Aged Good key ttl late began t s) (id : ℕ) :
    Aged Good key ttl late began t { s with awaiting := Function.update s.awaiting id none } where
  within := h.within
  nearly := h.nearly
  source := h.source
  running id' args' hid' := by
    rcases update_eq_some_iff.mp hid' with ⟨-, ⟨⟩⟩ | ⟨-, hid'⟩
    exact h.running id' args' hid'

theorem Aged.store (hlate : 0 ≤ late) (h : Aged Good key ttl late began t s) {id : ℕ} {args : C}
    (hid : s.awaiting id = some args) {data : V} (good : Good (key args) t data)
    (brief : key args ∈ s.cache → t ≤ began id + late) :
    Aged Good key ttl late began t
      { s with cache := s.cache.assign (key args) (t + ttl, data) } where
  within := h.within.assign _ _
  nearly := by
    refine h.nearly.assign hlate h.within (fun e he => ?_) data
    by_cases held : key args ∈ s.cache
    · calc t + ttl ≤ began id + late + ttl := add_le_add (brief held) le_rfl
        _ = began id + ttl + late := add_right_comm _ _ _
        _ ≤ e.2.1 + late := add_le_add ((h.running id args hid).2 e he) le_rfl
    · rw [OrderedDict.after_eq_nil_of_not_mem held] at he
      cases he
  source k exp data' hk := by
    rw [OrderedDict.get?_assign] at hk
    split_ifs at hk with same
    · cases hk
      exact ⟨t, rfl, same ▸ good⟩
    · exact h.source k exp data' hk
  running id' args' hid' := by
    obtain ⟨hbegan, behind⟩ := h.running id' args' hid'
    exact ⟨hbegan, behind.assign (add_le_add hbegan le_rfl) _ _⟩

theorem Aged.start (hlate : 0 ≤ late) (h : Aged Good key ttl late began t s) {now : ℚ}
    (hnow : t ≤ now) (id : ℕ) (hbegan : began id ≤ now) (args : C) :
    Aged Good key ttl late began now
        (asyncWrapper key ttl s (.start id args now : Event C E V)).2 ∧
      ∀ data, (asyncWrapper key ttl s (.start id args now : Event C E V)).1 = .cached data →
        ∃ c, Good (key args) c data ∧ now ≤ c + ttl + late := by
  cases free : s.awaiting id with
  | some _ => simpa [asyncWrapper, free] using h.later hnow
  | none =>
    cases hit : (clearCache now s.cache).get? (key args) with
    | some entry =>
      rw [asyncWrapper_hit free hit]
      refine ⟨h.clear hnow, ?_⟩
      rintro data ⟨⟩
      exact h.served hlate hit
    | none =>
      rw [asyncWrapper_miss free hit]
      refine ⟨(h.clear hnow).await (OrderedDict.get?_eq_none_iff.mp hit) hbegan, ?_⟩
      rintro data ⟨⟩

theorem Aged.fail (h : Aged Good key ttl late began t s) (id : ℕ) (stored : ℚ) (e : E) :
    Aged Good key ttl late began t
      (asyncWrapper key ttl s (.complete id stored (.error e) : Event C E V)).2 := by
  cases hid : s.awaiting id with
  | none => simpa [asyncWrapper, hid] using h
  | some args =>
    rw [asyncWrapper_complete hid]
    exact h.leave id

theorem Aged.complete (hlate : 0 ≤ late) (h : Aged Good key ttl late began t s) {stored : ℚ}
    (hstored : t ≤ stored) (id : ℕ) (result : Except E V)
    (good : ∀ args data, s.awaiting id = some args → result = .ok data →
      Good (key args) stored data)
    (brief : Brief key began late s (.complete id stored result)) :
    Aged Good key ttl late began stored
      (asyncWrapper key ttl s (.complete id stored result)).2 := by
  cases result with
  | error e => exact (h.fail id stored e).later hstored
  | ok data =>
    have later := h.later hstored
    cases hid : s.awaiting id with
    | none => simpa [asyncWrapper, hid] using later
    | some args =>
      rw [asyncWrapper_complete hid]
      exact (later.store hlate hid (good args data hid rfl) (brief args hid)).leave id

end KhCommon.Caching
