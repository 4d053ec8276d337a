import Mathlib.Data.List.Nodup
import Mathlib.Data.List.TakeWhile
import Mathlib.Tactic.TypeStar

/-! A dictionary that remembers the order in which its keys were first stored.
Assigning to a key it already holds replaces the value where it stands; a new
key goes to the end. The distinctness of the keys is a field, so it is never
proved again by a client. `after d k` is what stands behind `k`. -/

structure OrderedDict (K V : Type*) where
  items : List (K × V)
  nodup : (items.map Prod.fst).Nodup

namespace OrderedDict

variable {K V : Type*}

@[ext] theorem ext {d e : OrderedDict K V} (h : d.items = e.items) : d = e := by
  cases d
  cases e
  cases h
  rfl

def empty : OrderedDict K V := ⟨[], List.nodup_nil⟩

instance : EmptyCollection (OrderedDict K V) := ⟨empty⟩

@[simp] theorem items_empty : (∅ : OrderedDict K V).items = [] := rfl

def keys (d : OrderedDict K V) : List K := d.items.map Prod.fst

def restrict (d : OrderedDict K V) (es : List (K × V)) (h : es.Sublist d.items) :
    OrderedDict K V :=
  ⟨es, d.nodup.sublist (h.map Prod.fst)⟩

instance : Membership K (OrderedDict K V) := ⟨fun d k => k ∈ d.keys⟩

theorem mem_def {d : OrderedDict K V} {k : K} : k ∈ d ↔ k ∈ d.items.map Prod.fst := Iff.rfl

theorem mem_of_mem_items {d : OrderedDict K V} {e : K × V} (h : e ∈ d.items) : e.1 ∈ d :=
  List.mem_map_of_mem h

variable [DecidableEq K]

def get? (d : OrderedDict K V) (k : K) : Option V := d.items.lookup k

instance (d : OrderedDict K V) (k : K) : Decidable (k ∈ d) :=
  inferInstanceAs (Decidable (k ∈ d.keys))

def overwrite (k : K) (v : V) (es : List (K × V)) : List (K × V) :=
  es.map fun e => if e.1 = k then (e.1, v) else e

theorem overwrite_keys (k : K) (v : V) (es : List (K × V)) :
    (overwrite k v es).map Prod.fst = es.map Prod.fst := by
  rw [overwrite, List.map_map]
  refine List.map_congr_left fun e _ => ?_
  simp only [Function.comp_apply]
  split <;> rfl

def assign (d : OrderedDict K V) (k : K) (v : V) : OrderedDict K V :=
  if h : k ∈ d then
    ⟨overwrite k v d.items, by rw [overwrite_keys]; exact d.nodup⟩
  else
    ⟨d.items ++ [(k, v)], by
      rw [List.map_append, List.nodup_append]
      refine ⟨d.nodup, List.nodup_singleton k, ?_⟩
      intro a ha b hb hab
      rw [hab, List.mem_singleton.mp hb] at ha
      exact h (mem_def.mpr ha)⟩

def erase (d : OrderedDict K V) (k : K) : OrderedDict K V :=
  d.restrict (d.items.filter fun e => e.1 ≠ k) List.filter_sublist

/-- The entries stored behind the one for `k`; none when `k` is not held. -/
def after (d : OrderedDict K V) (k : K) : List (K × V) :=
  (d.items.dropWhile fun e => e.1 ≠ k).tail

/-! ## Reading -/

theorem lookup_eq_some_iff {es : List (K × V)} (h : (es.map Prod.fst).Nodup) {k : K} {v : V} :
    es.lookup k = some v ↔ (k, v) ∈ es := by
  induction es with
  | nil => simp
  | cons e es ih =>
    obtain ⟨a, b⟩ := e
    simp only [List.map_cons, List.nodup_cons, List.mem_map] at h
    by_cases hk : k = a
    · subst hk
      have absent : (k, v) ∉ es := fun hm => h.1 ⟨(k, v), hm, rfl⟩
      simp [absent, eq_comm]
    · have hb : (k == a) = false := by simpa using hk
      simp [List.lookup_cons, hb, hk, ih h.2]

theorem lookup_eq_none {es : List (K × V)} {k : K} (absent : k ∉ es.map Prod.fst) :
    es.lookup k = none := by
  rw [List.lookup_eq_none_iff]
  intro e he
  rw [bne_iff_ne]
  rintro rfl
  exact absent (List.mem_map_of_mem he)

theorem get?_eq_some_iff {d : OrderedDict K V} {k : K} {v : V} :
    d.get? k = some v ↔ (k, v) ∈ d.items :=
  lookup_eq_some_iff d.nodup

theorem mem_iff_get? {d : OrderedDict K V} {k : K} : k ∈ d ↔ ∃ v, d.get? k = some v := by
  simp [mem_def, get?_eq_some_iff]

theorem get?_eq_none_iff {d : OrderedDict K V} {k : K} : d.get? k = none ↔ k ∉ d := by
  rw [mem_iff_get?, Option.eq_none_iff_forall_ne_some]
  push Not
  rfl

@[simp] theorem get?_empty (k : K) : (∅ : OrderedDict K V).get? k = none := rfl

theorem get?_restrict {d : OrderedDict K V} {es : List (K × V)} (h : es.Sublist d.items)
    {k : K} {v : V} (hv : (d.restrict es h).get? k = some v) : d.get? k = some v :=
  get?_eq_some_iff.mpr (h.subset (get?_eq_some_iff.mp hv))

/-! ## Assigning and erasing -/

theorem mem_overwrite {k : K} {v : V} {es : List (K × V)} {e : K × V} :
    e ∈ overwrite k v es ↔ (e ∈ es ∧ e.1 ≠ k) ∨ (e = (k, v) ∧ k ∈ es.map Prod.fst) := by
  simp only [overwrite, List.mem_map]
  constructor
  · rintro ⟨a, ha, rfl⟩
    by_cases h : a.1 = k
    · exact .inr ⟨by simp [h], a, ha, h⟩
    · exact .inl ⟨by simpa [h] using ha, by simp [h]⟩
  · rintro (⟨he, hk⟩ | ⟨rfl, a, ha, rfl⟩)
    · exact ⟨e, he, by simp [hk]⟩
    · exact ⟨a, ha, by simp⟩

theorem assign_items_of_mem {d : OrderedDict K V} {k : K} (h : k ∈ d) (v : V) :
    (d.assign k v).items = overwrite k v d.items := by
  rw [assign, dif_pos h]

theorem assign_items_of_not_mem {d : OrderedDict K V} {k : K} (h : k ∉ d) (v : V) :
    (d.assign k v).items = d.items ++ [(k, v)] := by
  rw [assign, dif_neg h]

theorem mem_assign_items {d : OrderedDict K V} {k : K} {v : V} {e : K × V} :
    e ∈ (d.assign k v).items ↔ (e ∈ d.items ∧ e.1 ≠ k) ∨ e = (k, v) := by
  by_cases h : k ∈ d
  · rw [assign_items_of_mem h, mem_overwrite]
    exact or_congr_right (and_iff_left h)
  · rw [assign_items_of_not_mem h, List.mem_append, List.mem_singleton]
    refine or_congr_left (iff_self_and.mpr ?_)
    rintro he rfl
    exact h (mem_of_mem_items he)

theorem get?_assign (d : OrderedDict K V) (k : K) (v : V) (k' : K) :
    (d.assign k v).get? k' = if k' = k then some v else d.get? k' := by
  refine Option.ext fun w => ?_
  rw [get?_eq_some_iff, mem_assign_items]
  split_ifs with h
  · simp [h, eq_comm]
  · simp [h, get?_eq_some_iff]

@[simp] theorem get?_assign_self (d : OrderedDict K V) (k : K) (v : V) :
    (d.assign k v).get? k = some v := by
  rw [get?_assign, if_pos rfl]

theorem get?_assign_of_ne (d : OrderedDict K V) {k k' : K} (h : k' ≠ k) (v : V) :
    (d.assign k v).get? k' = d.get? k' := by
  rw [get?_assign, if_neg h]

theorem get?_erase (d : OrderedDict K V) (k k' : K) :
    (d.erase k).get? k' = if k' = k then none else d.get? k' := by
  refine Option.ext fun w => ?_
  rw [get?_eq_some_iff]
  split_ifs with h
  · simp [erase, restrict, h]
  · simp [erase, restrict, h, get?_eq_some_iff]

theorem erase_of_not_mem {d : OrderedDict K V} {k : K} (h : k ∉ d) : d.erase k = d := by
  apply ext
  refine List.filter_eq_self.mpr fun e he => ?_
  simp only [ne_eq, decide_eq_true_eq]
  rintro rfl
  exact h (mem_of_mem_items he)

theorem erase_head {d : OrderedDict K V} {e : K × V} {es : List (K × V)}
    (h : d.items = e :: es) : (d.erase e.1).items = es := by
  have distinct := d.nodup
  rw [h, List.map_cons, List.nodup_cons] at distinct
  have kept : es.filter (fun a => a.1 ≠ e.1) = es := by
    refine List.filter_eq_self.mpr fun a ha => ?_
    simp only [ne_eq, decide_eq_true_eq]
    intro ha'
    exact distinct.1 (ha' ▸ List.mem_map_of_mem ha)
  simp only [erase, restrict, h, List.filter_cons]
  simpa using kept

/-! ## Many keys at once -/

def update (d : OrderedDict K V) (items : List (K × V)) : OrderedDict K V :=
  items.foldl (fun d e => d.assign e.1 e.2) d

def select (d : OrderedDict K V) (keys : List K) : OrderedDict K V :=
  keys.foldl (fun e k => match d.get? k with | some v => e.assign k v | none => e) ∅

/-- A dictionary with a default value: reading a key it does not hold stores the default. -/
def getDefault (d : OrderedDict K V) (default : V) (k : K) : V × OrderedDict K V :=
  match d.get? k with
  | some v => (v, d)
  | none => (default, d.assign k default)

def mapValues {W : Type*} (f : V → W) (d : OrderedDict K V) : OrderedDict K W :=
  ⟨d.items.map fun e => (e.1, f e.2), by
    rw [List.map_map]
    exact d.nodup⟩

theorem get?_mapValues {W : Type*} (f : V → W) (d : OrderedDict K V) (k : K) :
    (d.mapValues f).get? k = (d.get? k).map f := by
  refine Option.ext fun w => ?_
  rw [get?_eq_some_iff, Option.map_eq_some_iff, mapValues, List.mem_map]
  simp only [get?_eq_some_iff, Prod.mk.injEq, Prod.exists]
  constructor
  · rintro ⟨a, v, held, rfl, rfl⟩
    exact ⟨v, held, rfl⟩
  · rintro ⟨v, held, rfl⟩
    exact ⟨k, v, held, rfl, rfl⟩

theorem get?_update {items : List (K × V)} (distinct : (items.map Prod.fst).Nodup)
    (d : OrderedDict K V) (k : K) : (d.update items).get? k = (items.lookup k).or (d.get? k) := by
  induction items generalizing d with
  | nil => rfl
  | cons e items ih =>
    rw [List.map_cons, List.nodup_cons] at distinct
    have rest : (d.update (e :: items)).get? k =
        (items.lookup k).or ((d.assign e.1 e.2).get? k) := ih distinct.2 _
    rw [rest, get?_assign, List.lookup_cons]
    by_cases same : k = e.1
    · rw [same, lookup_eq_none distinct.1]
      simp
    · have other : (k == e.1) = false := by simpa using same
      simp [same, other]

theorem update_append (d : OrderedDict K V) (items items' : List (K × V)) :
    d.update (items ++ items') = (d.update items).update items' :=
  List.foldl_append

theorem get?_update_last (d : OrderedDict K V) (items : List (K × V)) (k : K) :
    (d.update items).get? k = (items.reverse.lookup k).or (d.get? k) := by
  induction items generalizing d with
  | nil => rfl
  | cons e items ih =>
    obtain ⟨key, value⟩ := e
    have rest : (d.update ((key, value) :: items)).get? k =
        ((d.assign key value).update items).get? k := rfl
    rw [rest, ih, get?_assign, List.reverse_cons, List.lookup_append, Option.or_assoc]
    congr 1
    by_cases same : k = key
    · simp [same]
    · simp [same, List.lookup_cons, beq_false_of_ne same]

def LastValues (P : V → Prop) : List (K × V) → Prop
  | [] => True
  | (k, v) :: items => (P v ∨ k ∈ items.map Prod.fst) ∧ LastValues P items

theorem forall_update_iff {P : V → Prop} {items : List (K × V)} {d : OrderedDict K V} :
    (∀ e ∈ (d.update items).items, P e.2) ↔
      (∀ e ∈ d.items, P e.2 ∨ e.1 ∈ items.map Prod.fst) ∧ LastValues P items := by
  induction items generalizing d with
  | nil => simp [update, LastValues]
  | cons item items ih =>
    obtain ⟨k, v⟩ := item
    have rest : d.update ((k, v) :: items) = (d.assign k v).update items := rfl
    rw [rest, ih, LastValues, ← and_assoc]
    refine and_congr_left' ⟨fun all => ⟨fun e he => ?_, all (k, v) ?_⟩, fun all e he => ?_⟩
    · by_cases same : e.1 = k
      · exact .inr (by simp [same])
      · exact (all e (mem_assign_items.mpr (.inl ⟨he, same⟩))).imp_right (List.mem_cons_of_mem _)
    · exact mem_assign_items.mpr (.inr rfl)
    · rcases mem_assign_items.mp he with ⟨he, other⟩ | rfl
      · exact (all.1 e he).imp_right fun later => (List.mem_cons.mp later).resolve_left other
      · exact all.2

theorem get?_select (d : OrderedDict K V) (keys : List K) (k : K) :
    (d.select keys).get? k = if k ∈ keys then d.get? k else none := by
  have from_dict (e : OrderedDict K V) :
      (keys.foldl (fun e k => match d.get? k with | some v => e.assign k v | none => e) e).get? k =
        if k ∈ keys then (d.get? k).or (e.get? k) else e.get? k := by
    induction keys generalizing e with
    | nil => rfl
    | cons key keys ih =>
      rw [List.foldl_cons, ih]
      cases held : d.get? key with
      | none =>
        by_cases same : k = key
        · simp [same, held]
        · simp [same]
      | some v =>
        by_cases same : k = key
        · simp [same, held]
        · simp [same, get?_assign]
  rw [select, from_dict, get?_empty, Option.or_none]

@[simp] theorem getDefault_fst (d : OrderedDict K V) (default : V) (k : K) :
    (d.getDefault default k).1 = (d.get? k).getD default := by
  rw [getDefault]
  cases d.get? k <;> rfl

theorem getDefault_of_some {d : OrderedDict K V} {k : K} {v : V} (h : d.get? k = some v)
    (default : V) : d.getDefault default k = (v, d) := by
  rw [getDefault, h]

theorem get?_getDefault (d : OrderedDict K V) (default : V) (k k' : K) :
    (d.getDefault default k).2.get? k' =
      (d.get? k').or (if k' = k then some default else none) := by
  rw [getDefault]
  cases held : d.get? k with
  | some v =>
    by_cases same : k' = k
    · simp [same, held]
    · simp [same]
  | none =>
    rw [get?_assign]
    by_cases same : k' = k
    · simp [same, held]
    · simp [same]

theorem get?_getDefault_assign (d : OrderedDict K V) (default : V) (k : K) (v : V) (k' : K) :
    ((d.getDefault default k).2.assign k v).get? k' = if k' = k then some v else d.get? k' := by
  rw [get?_assign, getDefault]
  split_ifs with same
  · rfl
  · cases d.get? k with
    | none => exact get?_assign_of_ne d same default
    | some w => rfl

/-! ## What stands behind a key -/

theorem after_eq_nil_of_not_mem {d : OrderedDict K V} {k : K} (h : k ∉ d) : d.after k = [] := by
  have all : d.items.dropWhile (fun e => e.1 ≠ k) = [] := by
    refine List.dropWhile_eq_nil_iff.mpr fun e he => ?_
    simp only [ne_eq, decide_eq_true_eq]
    rintro rfl
    exact h (mem_of_mem_items he)
  rw [after, all]
  rfl

theorem items_split {d : OrderedDict K V} {k : K} {v : V} (h : d.get? k = some v) :
    ∃ front, d.items = front ++ (k, v) :: d.after k ∧ k ∉ front.map Prod.fst := by
  obtain ⟨front, back, heq⟩ := List.append_of_mem (get?_eq_some_iff.mp h)
  have distinct := d.nodup
  rw [heq, List.map_append, List.map_cons, List.nodup_append] at distinct
  have absent : k ∉ front.map Prod.fst := fun hk =>
    distinct.2.2 k hk k List.mem_cons_self rfl
  have skipped : front.dropWhile (fun e => e.1 ≠ k) = [] := by
    refine List.dropWhile_eq_nil_iff.mpr fun e he => ?_
    simp only [ne_eq, decide_eq_true_eq]
    rintro rfl
    exact absent (List.mem_map_of_mem he)
  have hback : d.after k = back := by
    rw [after, heq, List.dropWhile_append, skipped]
    simp
  exact ⟨front, hback ▸ heq, absent⟩

theorem overwrite_split {k : K} {v w : V} {front back : List (K × V)}
    (hf : k ∉ front.map Prod.fst) (hb : k ∉ back.map Prod.fst) :
    overwrite k w (front ++ (k, v) :: back) = front ++ (k, w) :: back := by
  have unchanged : ∀ es : List (K × V), k ∉ es.map Prod.fst → overwrite k w es = es := by
    intro es hes
    refine (List.map_congr_left fun e he => if_neg ?_).trans (List.map_id es)
    rintro rfl
    exact hes (List.mem_map_of_mem he)
  have hfront := unchanged front hf
  have hback := unchanged back hb
  simp only [overwrite] at hfront hback ⊢
  simp [hfront, hback]

theorem assign_split {d : OrderedDict K V} {k : K} {v : V} (h : d.get? k = some v) (w : V) :
    ∃ front, d.items = front ++ (k, v) :: d.after k ∧
      (d.assign k w).items = front ++ (k, w) :: d.after k := by
  obtain ⟨front, heq, hf⟩ := items_split h
  have distinct := d.nodup
  rw [heq, List.map_append, List.map_cons, List.nodup_append, List.nodup_cons] at distinct
  refine ⟨front, heq, ?_⟩
  rw [assign_items_of_mem (mem_iff_get?.mpr ⟨v, h⟩)]
  conv_lhs => rw [heq]
  exact overwrite_split hf distinct.2.1.1

theorem pairwise_assign_iff {R : K × V → K × V → Prop} {d : OrderedDict K V} {k : K} {v : V}
    (h : d.items.Pairwise R) (fits : ∀ e ∈ d.items, R e (k, v)) :
    (d.assign k v).items.Pairwise R ↔ ∀ e ∈ d.after k, R (k, v) e := by
  by_cases hk : k ∈ d
  · obtain ⟨w, hw⟩ := mem_iff_get?.mp hk
    obtain ⟨front, old, new⟩ := assign_split hw v
    rw [old, List.pairwise_append, List.pairwise_cons] at h
    rw [new, List.pairwise_append, List.pairwise_cons]
    refine ⟨fun hnew => hnew.2.1.1, fun hbehind => ⟨h.1, ⟨hbehind, h.2.1.2⟩, ?_⟩⟩
    intro a ha b hb
    rcases List.mem_cons.mp hb with rfl | hb
    · exact fits a (by rw [old]; exact List.mem_append_left _ ha)
    · exact h.2.2 a ha b (List.mem_cons_of_mem _ hb)
  · rw [assign_items_of_not_mem hk, List.pairwise_append, after_eq_nil_of_not_mem hk]
    refine iff_of_true ⟨h, List.pairwise_singleton _ _, fun a ha b hb => ?_⟩
      (fun e he => by cases he)
    rw [List.mem_singleton.mp hb]
    exact fits a ha

theorem mem_after_assign {d : OrderedDict K V} {k k' : K} {v : V} {e : K × V}
    (he : e ∈ (d.assign k' v).after k) : e ∈ d.after k ∨ e = (k', v) := by
  unfold after at he ⊢
  by_cases hk : k' ∈ d
  · have sameKeys : ((fun e : K × V => decide (e.1 ≠ k)) ∘
        fun e => if e.1 = k' then (e.1, v) else e) = fun e => decide (e.1 ≠ k) := by
      funext e
      by_cases h : e.1 = k' <;> simp [h]
    rw [assign_items_of_mem hk, overwrite, List.dropWhile_map, sameKeys, ← List.map_tail,
      List.mem_map] at he
    obtain ⟨a, ha, rfl⟩ := he
    split_ifs with h
    · exact .inr (congrArg (Prod.mk · v) h)
    · exact .inl ha
  · rw [assign_items_of_not_mem hk, List.dropWhile_append] at he
    split_ifs at he with none
    · rw [List.dropWhile_cons] at he
      split_ifs at he <;> simp at he
    · rw [List.tail_append_of_ne_nil (by simpa using none), List.mem_append,
        List.mem_singleton] at he
      exact he

theorem mem_after_of_suffix {d d' : OrderedDict K V} (suffix : d'.items <:+ d.items) {k : K}
    {e : K × V} (he : e ∈ d'.after k) : e ∈ d.after k := by
  obtain ⟨front, hitems⟩ := suffix
  unfold after at he ⊢
  rw [← hitems, List.dropWhile_append]
  split_ifs with skipped
  · exact he
  · rw [List.tail_append_of_ne_nil (by simpa using skipped)]
    exact List.mem_append_right _ ((List.dropWhile_sublist _).subset (List.mem_of_mem_tail he))

theorem assign_eq_self {d : OrderedDict K V} {k : K} {v : V} (h : d.get? k = some v) :
    d.assign k v = d := by
  obtain ⟨front, items, assigned⟩ := assign_split h v
  exact ext (assigned.trans items.symm)

theorem update_eq_self_iff {d : OrderedDict K V} {items : List (K × V)}
    (distinct : (items.map Prod.fst).Nodup) :
    d.update items = d ↔ ∀ e ∈ items, d.get? e.1 = some e.2 := by
  constructor
  · intro same e he
    rw [← same, get?_update distinct, (lookup_eq_some_iff distinct).mpr he, Option.some_or]
  · intro held
    clear distinct
    induction items with
    | nil => rfl
    | cons e items ih =>
      rw [List.forall_mem_cons] at held
      have first : d.update (e :: items) = (d.assign e.1 e.2).update items := rfl
      rw [first, assign_eq_self held.1]
      exact ih held.2

end OrderedDict
