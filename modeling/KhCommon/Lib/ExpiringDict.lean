import KhCommon.Lib.OrderedDict
import Mathlib.Algebra.Order.Monoid.Defs
import Mathlib.Order.Lattice

/-! Dictionaries whose values carry an expiry, cleared from the oldest entry on.
`purge now d` drops entries from the front until one has not expired. This removes
every expired entry when `InOrder` holds: expiries do not decrease in the order of
storing. `KeepsOrder d k x` is the condition under which storing `k` with expiry `x`
keeps a dictionary in order. `NearlyInOrder late` lets an entry expire that much
after one behind it; a clearing then leaves nothing that expired longer ago.
`Lapsed now k d` says that every clearing from now on drops `k`, whatever else is
stored. -/

namespace ExpiringDict

variable {K T V : Type*} [LinearOrder T]

def purge (now : T) (d : OrderedDict K (T × V)) : OrderedDict K (T × V) :=
  d.restrict (d.items.dropWhile fun e => e.2.1 < now) (List.dropWhile_sublist _)

theorem items_purge (now : T) (d : OrderedDict K (T × V)) :
    (purge now d).items = d.items.dropWhile fun e => e.2.1 < now := rfl

def InOrder (d : OrderedDict K (T × V)) : Prop :=
  d.items.Pairwise fun a b => a.2.1 ≤ b.2.1

def Within (x : T) (d : OrderedDict K (T × V)) : Prop := ∀ e ∈ d.items, e.2.1 ≤ x

theorem inOrder_empty : InOrder (∅ : OrderedDict K (T × V)) := List.Pairwise.nil

theorem within_empty (x : T) : Within x (∅ : OrderedDict K (T × V)) := by
  intro e he
  cases he

theorem Within.mono {x y : T} {d : OrderedDict K (T × V)} (h : Within x d) (hxy : x ≤ y) :
    Within y d := fun e he => (h e he).trans hxy

theorem InOrder.purge {d : OrderedDict K (T × V)} (h : InOrder d) (now : T) :
    InOrder (purge now d) :=
  List.Pairwise.sublist (List.dropWhile_sublist _) h

theorem Within.purge {x : T} {d : OrderedDict K (T × V)} (h : Within x d) (now : T) :
    Within x (purge now d) :=
  fun e he => h e ((List.dropWhile_sublist _).subset he)

theorem mem_dropWhile_of_le {now : T} {es : List (K × (T × V))} {e : K × (T × V)}
    (he : e ∈ es) (fresh : now ≤ e.2.1) : e ∈ es.dropWhile fun e => e.2.1 < now := by
  induction es with
  | nil => cases he
  | cons a es ih =>
    rw [List.dropWhile_cons]
    split_ifs with stale
    · rcases List.mem_cons.mp he with rfl | he
      · exact absurd (of_decide_eq_true stale) (not_lt.mpr fresh)
      · exact ih he
    · exact he

/-- Clearing stops at a fresh entry, so it leaves only entries that are fresh by the bound `g`, if
`g` bounds what stands in front of an entry. -/
theorem le_of_mem_dropWhile {now : T} {es : List (K × (T × V))} {g : K × (T × V) → T}
    (own : ∀ e ∈ es, e.2.1 ≤ g e) (h : es.Pairwise fun a b => a.2.1 ≤ g b) {e : K × (T × V)}
    (he : e ∈ es.dropWhile fun e => e.2.1 < now) : now ≤ g e := by
  induction es with
  | nil => cases he
  | cons a es ih =>
    rw [List.forall_mem_cons] at own
    rw [List.pairwise_cons] at h
    rw [List.dropWhile_cons] at he
    split_ifs at he with stale
    · exact ih own.2 h.2 he
    · have fresh : now ≤ a.2.1 := by simpa using stale
      rcases List.mem_cons.mp he with rfl | he
      · exact fresh.trans own.1
      · exact fresh.trans (h.1 e he)

theorem items_purge_of_inOrder {d : OrderedDict K (T × V)} (h : InOrder d) (now : T) :
    (purge now d).items = d.items.filter fun e => now ≤ e.2.1 := by
  have kept : ∀ e ∈ (purge now d).items, now ≤ e.2.1 :=
    fun e he => le_of_mem_dropWhile (fun _ _ => le_rfl) h he
  have dropped : ∀ e ∈ d.items.takeWhile (fun e => e.2.1 < now), e.2.1 < now :=
    fun e he => by simpa using List.mem_takeWhile_imp he
  have parts := List.takeWhile_append_dropWhile (p := fun e => decide (e.2.1 < now)) (l := d.items)
  conv_rhs => rw [← parts, List.filter_append]
  rw [List.filter_eq_nil_iff.mpr fun e he => by simpa using dropped e he, List.nil_append,
    ← items_purge, List.filter_eq_self.mpr fun e he => by simpa using kept e he]

theorem lt_of_not_mem_purge {now : T} {d : OrderedDict K (T × V)} {front back : List (K × (T × V))}
    {e : K × (T × V)} (split : d.items = front ++ e :: back) (gone : e ∉ (purge now d).items) :
    e.2.1 < now ∧ ∀ a ∈ front, a.2.1 < now := by
  rw [items_purge, split, List.dropWhile_append] at gone
  split_ifs at gone with all
  · rw [List.isEmpty_iff, List.dropWhile_eq_nil_iff] at all
    rw [List.dropWhile_cons] at gone
    split_ifs at gone with stale
    · exact ⟨of_decide_eq_true stale, fun a ha => of_decide_eq_true (all a ha)⟩
    · exact absurd List.mem_cons_self gone
  · exact absurd (List.mem_append_right _ List.mem_cons_self) gone

variable [DecidableEq K]

/-- Every entry behind `k` expires at `x` or later. -/
def KeepsOrder (d : OrderedDict K (T × V)) (k : K) (x : T) : Prop :=
  ∀ e ∈ d.after k, x ≤ e.2.1

instance (d : OrderedDict K (T × V)) (k : K) (x : T) : Decidable (KeepsOrder d k x) :=
  inferInstanceAs (Decidable (∀ e ∈ d.after k, x ≤ e.2.1))

theorem keepsOrder_of_not_mem {d : OrderedDict K (T × V)} {k : K} (h : k ∉ d) (x : T) :
    KeepsOrder d k x := by
  intro e he
  rw [OrderedDict.after_eq_nil_of_not_mem h] at he
  cases he

theorem KeepsOrder.purge {d : OrderedDict K (T × V)} {k : K} {x : T} (h : KeepsOrder d k x)
    (now : T) : KeepsOrder (purge now d) k x :=
  fun e he => h e (OrderedDict.mem_after_of_suffix (List.dropWhile_suffix _) he)

theorem KeepsOrder.assign {d : OrderedDict K (T × V)} {k : K} {x y : T} (h : KeepsOrder d k x)
    (hxy : x ≤ y) (k' : K) (v : V) : KeepsOrder (d.assign k' (y, v)) k x := by
  intro e he
  rcases OrderedDict.mem_after_assign he with he | rfl
  · exact h e he
  · exact hxy

theorem get?_purge {d : OrderedDict K (T × V)} (h : InOrder d) (now : T) (k : K) (e : T × V) :
    (purge now d).get? k = some e ↔ d.get? k = some e ∧ now ≤ e.1 := by
  simp only [OrderedDict.get?_eq_some_iff]
  exact ⟨fun he => ⟨(List.dropWhile_sublist _).subset he,
      le_of_mem_dropWhile (fun _ _ => le_rfl) h he⟩,
    fun he => mem_dropWhile_of_le he.1 he.2⟩

theorem get?_of_get?_purge {d : OrderedDict K (T × V)} {now : T} {k : K} {e : T × V}
    (h : (purge now d).get? k = some e) : d.get? k = some e :=
  OrderedDict.get?_restrict _ h

theorem get?_purge_of_within {x now : T} {d : OrderedDict K (T × V)} (h : Within x d)
    (past : x < now) (k : K) : (purge now d).get? k = none := by
  rw [OrderedDict.get?_eq_none_iff]
  have emptied : d.items.dropWhile (fun e => e.2.1 < now) = [] :=
    List.dropWhile_eq_nil_iff.mpr fun e he => decide_eq_true ((h e he).trans_lt past)
  simp [purge, OrderedDict.restrict, OrderedDict.mem_def, emptied]

theorem Within.assign {x : T} {d : OrderedDict K (T × V)} (h : Within x d) (k : K) (v : V) :
    Within x (d.assign k (x, v)) := by
  intro e he
  rcases OrderedDict.mem_assign_items.mp he with ⟨he, -⟩ | rfl
  · exact h e he
  · exact le_rfl

theorem inOrder_assign_iff {x : T} {d : OrderedDict K (T × V)} (h : InOrder d) (hx : Within x d)
    (k : K) (v : V) : InOrder (d.assign k (x, v)) ↔ KeepsOrder d k x :=
  OrderedDict.pairwise_assign_iff h fun e he => hx e he

theorem InOrder.erase {d : OrderedDict K (T × V)} (h : InOrder d) (k : K) :
    InOrder (d.erase k) :=
  List.Pairwise.sublist List.filter_sublist h

theorem Within.erase {x : T} {d : OrderedDict K (T × V)} (h : Within x d) (k : K) :
    Within x (d.erase k) :=
  fun e he => h e (List.filter_sublist.subset he)

/-! ## Dictionaries that are nearly in order -/

section Nearly

variable [AddCommMonoid T]

/-- No entry expires more than `late` after one that stands behind it. -/
def NearlyInOrder (late : T) (d : OrderedDict K (T × V)) : Prop :=
  d.items.Pairwise fun a b => a.2.1 ≤ b.2.1 + late

omit [DecidableEq K] in
theorem nearlyInOrder_empty (late : T) : NearlyInOrder late (∅ : OrderedDict K (T × V)) :=
  List.Pairwise.nil

omit [DecidableEq K] in
theorem NearlyInOrder.purge {late : T} {d : OrderedDict K (T × V)} (h : NearlyInOrder late d)
    (now : T) : NearlyInOrder late (purge now d) :=
  List.Pairwise.sublist (List.dropWhile_sublist _) h

variable [IsOrderedAddMonoid T] {late : T}

theorem NearlyInOrder.assign (hlate : 0 ≤ late) {d : OrderedDict K (T × V)}
    (h : NearlyInOrder late d) {x : T} (hx : Within x d) {k : K}
    (behind : ∀ e ∈ d.after k, x ≤ e.2.1 + late) (v : V) :
    NearlyInOrder late (d.assign k (x, v)) :=
  (OrderedDict.pairwise_assign_iff h fun e he =>
    (hx e he).trans (le_add_of_nonneg_right hlate)).mpr behind

theorem NearlyInOrder.le_of_get?_purge (hlate : 0 ≤ late) {d : OrderedDict K (T × V)}
    (h : NearlyInOrder late d) {now : T} {k : K} {e : T × V}
    (he : (ExpiringDict.purge now d).get? k = some e) : now ≤ e.1 + late :=
  le_of_mem_dropWhile (fun _ _ => le_add_of_nonneg_right hlate) h
    (OrderedDict.get?_eq_some_iff.mp he)

end Nearly

/-! ## What holds of all that is stored -/

def Holds (P : K → V → Prop) (d : OrderedDict K (T × V)) : Prop :=
  ∀ k x v, d.get? k = some (x, v) → P k v

theorem Holds.purge {P : K → V → Prop} {d : OrderedDict K (T × V)} (h : Holds P d) (now : T) :
    Holds P (purge now d) :=
  fun k x v he => h k x v (get?_of_get?_purge he)

omit [LinearOrder T] in
theorem Holds.assign {P Q : K → V → Prop} {d : OrderedDict K (T × V)} (h : Holds P d) {k : K}
    {v : V} (others : ∀ k' v', k' ≠ k → P k' v' → Q k' v') (stored : Q k v) (x : T) :
    Holds Q (d.assign k (x, v)) := by
  intro k' x' v' he
  rw [OrderedDict.get?_assign] at he
  split_ifs at he with same
  · cases he
    exact same ▸ stored
  · exact others k' v' same (h k' x' v' he)

omit [LinearOrder T] in
theorem Holds.erase {P Q : K → V → Prop} {d : OrderedDict K (T × V)} (h : Holds P d) {k : K}
    (others : ∀ k' v', k' ≠ k → P k' v' → Q k' v') : Holds Q (d.erase k) := by
  intro k' x v he
  rw [OrderedDict.get?_erase] at he
  split_ifs at he with other
  exact others k' v other (h k' x v he)

/-! ## What no later clearing can miss -/

/-- `k` is not held, or it stands at the front and has expired at `now`: storing other keys never
puts anything in front of it. -/
def Lapsed (now : T) (k : K) (d : OrderedDict K (T × V)) : Prop :=
  k ∈ d → ∃ e es, d.items = (k, e) :: es ∧ e.1 < now

omit [DecidableEq K] in
theorem Lapsed.mono {now later : T} {k : K} {d : OrderedDict K (T × V)} (h : Lapsed now k d)
    (le : now ≤ later) : Lapsed later k d := by
  intro hk
  obtain ⟨e, es, first, past⟩ := h hk
  exact ⟨e, es, first, past.trans_le le⟩

omit [DecidableEq K] in
theorem Lapsed.of_not_mem {now : T} {k : K} {d : OrderedDict K (T × V)} (h : k ∉ d) :
    Lapsed now k d := fun hk => absurd hk h

theorem Lapsed.assign {now : T} {k k' : K} {d : OrderedDict K (T × V)} (h : Lapsed now k d)
    (ne : k ≠ k') (x : T × V) : Lapsed now k (d.assign k' x) := by
  intro hk
  obtain ⟨w, hw⟩ := OrderedDict.mem_iff_get?.mp hk
  rw [OrderedDict.get?_assign_of_ne d ne] at hw
  obtain ⟨e, es, first, past⟩ := h (OrderedDict.mem_iff_get?.mpr ⟨w, hw⟩)
  by_cases held : k' ∈ d
  · rw [OrderedDict.assign_items_of_mem held, first, OrderedDict.overwrite, List.map_cons,
      if_neg ne]
    exact ⟨e, _, rfl, past⟩
  · rw [OrderedDict.assign_items_of_not_mem held, first]
    exact ⟨e, _, rfl, past⟩

theorem Lapsed.erase {now : T} {k : K} {d : OrderedDict K (T × V)} (h : Lapsed now k d) (k' : K) :
    Lapsed now k (d.erase k') := by
  intro hk
  obtain ⟨w, hw⟩ := OrderedDict.mem_iff_get?.mp hk
  rw [OrderedDict.get?_erase] at hw
  split_ifs at hw with same
  obtain ⟨e, es, first, past⟩ := h (OrderedDict.mem_iff_get?.mpr ⟨w, hw⟩)
  refine ⟨e, es.filter fun e => e.1 ≠ k', ?_, past⟩
  simp [OrderedDict.erase, OrderedDict.restrict, first, same]

theorem Lapsed.not_mem_purge {now : T} {k : K} {d : OrderedDict K (T × V)} (h : Lapsed now k d) :
    k ∉ purge now d := by
  intro hk
  obtain ⟨w, hw⟩ := OrderedDict.mem_iff_get?.mp hk
  obtain ⟨e, es, first, past⟩ := h (OrderedDict.mem_iff_get?.mpr ⟨w, get?_of_get?_purge hw⟩)
  have distinct := d.nodup
  rw [first, List.map_cons, List.nodup_cons] at distinct
  rw [OrderedDict.mem_def, items_purge, first, List.dropWhile_cons, if_pos (by simpa using past)]
    at hk
  exact distinct.1 (((List.dropWhile_sublist _).map Prod.fst).subset hk)

/-- Otherwise the entry survives a clearing now, or one after what is in front is stored anew. -/
theorem get?_purge_of_not_lapsed {now : T} {k : K} {d : OrderedDict K (T × V)}
    (h : ¬Lapsed now k d) {e : T × V} (he : d.get? k = some e) :
    (purge now d).get? k = some e ∨
      ∃ k' ≠ k, ∀ x, now ≤ x.1 → (purge now (d.assign k' x)).get? k = some e := by
  by_cases fresh : now ≤ e.1
  · refine .inl ?_
    rw [OrderedDict.get?_eq_some_iff] at he ⊢
    exact mem_dropWhile_of_le he fresh
  · rcases hitems : d.items with _ | ⟨⟨k', e'⟩, es⟩
    · rw [OrderedDict.get?_eq_some_iff, hitems] at he
      cases he
    · have ne : k' ≠ k := by
        rintro rfl
        have same : d.get? k' = some e' := by
          rw [OrderedDict.get?_eq_some_iff, hitems]
          exact List.mem_cons_self
        rw [he] at same
        cases same
        exact h fun _ => ⟨e, es, hitems, not_le.mp fresh⟩
      refine .inr ⟨k', ne, fun x late => ?_⟩
      have held : k' ∈ d := by
        rw [OrderedDict.mem_def, hitems]
        exact List.mem_cons_self
      -- the entry in front is fresh, so nothing is dropped
      have whole : purge now (d.assign k' x) = d.assign k' x := by
        apply OrderedDict.ext
        rw [items_purge, OrderedDict.assign_items_of_mem held, hitems, OrderedDict.overwrite,
          List.map_cons, if_pos rfl, List.dropWhile_cons, if_neg (by simpa using late)]
      rw [whole, OrderedDict.get?_assign_of_ne d ne.symm, he]

end ExpiringDict
