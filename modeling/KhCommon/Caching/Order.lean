import KhCommon.Utilities

/-! The order that every local cache of `kh_common.caching` needs: `__clear_cache__`
looks at the head only, so it evicts exactly the expired entries when expiries do
not decrease in the order of storing. An entry stored for a key that was not held
keeps the order; one stored over a held key keeps it exactly when nothing behind
that key expires earlier. With a negative TTL every entry has expired when it is
stored, and no order is needed. -/

namespace KhCommon

open ExpiringDict

variable {K V : Type*} [DecidableEq K]

/-- The cache after the reading `t`: expiries in order, none later than an entry stored now. -/
structure Ordered (ttl t : ℚ) (cache : Cache K V) : Prop where
  inOrder : 0 ≤ ttl → InOrder cache
  within : Within (t + ttl) cache

variable {ttl : ℚ}

omit [DecidableEq K] in
theorem ordered_empty (t : ℚ) : Ordered ttl t (∅ : Cache K V) :=
  ⟨fun _ => inOrder_empty, within_empty _⟩

omit [DecidableEq K] in
theorem Ordered.later {t t' : ℚ} {cache : Cache K V} (h : Ordered ttl t cache)
    (ht : t ≤ t') : Ordered ttl t' cache :=
  ⟨h.inOrder, h.within.mono (add_le_add ht le_rfl)⟩

theorem Ordered.clear {t : ℚ} {cache : Cache K V} (h : Ordered ttl t cache) (now : ℚ) :
    Ordered ttl t (clearCache now cache) := by
  rw [clearCache_eq_purge]
  exact ⟨fun httl => (h.inOrder httl).purge now, h.within.purge now⟩

theorem Ordered.assign {t : ℚ} {cache : Cache K V} (h : Ordered ttl t cache) {key : K}
    (turn : 0 ≤ ttl → KeepsOrder cache key (t + ttl)) (data : V) :
    Ordered ttl t (cache.assign key (t + ttl, data)) :=
  ⟨fun httl => (inOrder_assign_iff (h.inOrder httl) h.within key data).mpr (turn httl),
    h.within.assign key data⟩

theorem Ordered.add {t : ℚ} {cache : Cache K V} (h : Ordered ttl t cache) {key : K}
    (absent : key ∉ cache) (data : V) :
    Ordered ttl t (cache.assign key (t + ttl, data)) :=
  h.assign (fun _ => keepsOrder_of_not_mem absent _) data

theorem Ordered.get?_clearCache {t now : ℚ} {cache : Cache K V} (h : Ordered ttl t cache)
    (hnow : t ≤ now) {key : K} {exp : ℚ} {data : V} :
    (clearCache now cache).get? key = some (exp, data) ↔
      cache.get? key = some (exp, data) ∧ now ≤ exp := by
  rw [clearCache_eq_purge]
  rcases le_or_gt 0 ttl with httl | negative
  · exact get?_purge (h.inOrder httl) now key _
  · have past : t + ttl < now := (add_lt_of_neg_right t negative).trans_le hnow
    rw [get?_purge_of_within h.within past]
    refine iff_of_false nofun fun he => ?_
    have bound := h.within _ (OrderedDict.get?_eq_some_iff.mp he.1)
    exact absurd he.2 (not_le.mpr (bound.trans_lt past))

theorem stale_of_out_of_turn (httl : 0 ≤ ttl) {cache : Cache K V} {key : K} {t : ℚ} (data : V)
    (out : ¬ KeepsOrder cache key (t + ttl)) :
    ∃ late, t ≤ late ∧ ∃ key' exp data', exp < late ∧
      (cache.assign key (t + ttl, data)).get? key' = some (exp, data') ∧
      (clearCache late (cache.assign key (t + ttl, data))).get? key' = some (exp, data') := by
  simp only [KeepsOrder, not_forall, not_le] at out
  obtain ⟨⟨key', exp, data'⟩, behind, early⟩ := out
  have held : key ∈ cache := by
    by_contra absent
    rw [OrderedDict.after_eq_nil_of_not_mem absent] at behind
    cases behind
  obtain ⟨old, hold⟩ := OrderedDict.mem_iff_get?.mp held
  obtain ⟨front, -, hnew⟩ := OrderedDict.assign_split hold (t + ttl, data)
  refine ⟨t + ttl, le_add_of_nonneg_right httl, key', exp, data', early, ?_, ?_⟩
  · rw [OrderedDict.get?_eq_some_iff, hnew]
    exact List.mem_append_right _ (List.mem_cons_of_mem _ behind)
  · rw [clearCache_eq_purge, OrderedDict.get?_eq_some_iff]
    change _ ∈ List.dropWhile _ (cache.assign key (t + ttl, data)).items
    rw [hnew, List.dropWhile_append]
    split_ifs
    · rw [List.dropWhile_cons, if_neg (by simp)]
      exact List.mem_cons_of_mem _ behind
    · exact List.mem_append_right _ (List.mem_cons_of_mem _ behind)

end KhCommon
