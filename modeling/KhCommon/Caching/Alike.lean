import KhCommon.Caching.CacheKey

/-! When two calls get the same key from `KwargsCache`. The flattening keeps atoms
and strings and sees every container as the sequence of its items, a dict as its
sorted pairs; `Alike` is what it cannot tell apart. Two calls have equal keys if and
only if, name by name, they pass alike values or both none. -/

namespace KhCommon

variable {A : Type*} [NatCast A]

def PyVal.stream : PyVal A → Option (List (PyVal A))
  | .atom _ => none
  | .str _ => none
  | .bytes value => some (value.map fun b => .atom b.toNat)
  | .list items => some items
  | .tuple items => some items
  | .dict items => some ((sortedItems items).map fun item => .tuple [.str item.1, item.2])

/-- Equal up to the kind of every container and the order of every dict. -/
inductive Alike : PyVal A → PyVal A → Prop
  | atom (value : A) : Alike (.atom value) (.atom value)
  | str (value : String) : Alike (.str value) (.str value)
  | stream {x y : PyVal A} {xs ys : List (PyVal A)} (hx : x.stream = some xs)
      (hy : y.stream = some ys) (items : List.Forall₂ Alike xs ys) : Alike x y

theorem convertItems_eq_map (items : List (PyVal A)) :
    convertItems items = items.map convertItem := by
  induction items with
  | nil => rfl
  | cons item items ih => rw [convertItems, ih, List.map_cons]

theorem convertEntries_eq_map (items : List (String × PyVal A)) :
    convertEntries items = items.map fun item => (item.1, convertItem item.2) := by
  induction items with
  | nil => rfl
  | cons item items ih => rw [convertEntries, ih, List.map_cons]

omit [NatCast A] in
theorem sortedItems_map {α β : Type*} (f : α → β) (items : List (String × α)) :
    sortedItems (items.map fun item => (item.1, f item.2)) =
      (sortedItems items).map fun item => (item.1, f item.2) :=
  (List.map_insertionSort (fun a b : String × α => a.1 ≤ b.1) (fun a b : String × β => a.1 ≤ b.1)
    (fun item => (item.1, f item.2)) items fun _ _ _ _ => Iff.rfl).symm

theorem convertItem_stream {x : PyVal A} {xs : List (PyVal A)} (h : x.stream = some xs) :
    convertItem x = .tuple (xs.map convertItem) := by
  cases x with
  | atom value => cases h
  | str value => cases h
  | bytes value =>
    cases h
    simp [convertItem]
  | list items =>
    cases h
    rw [convertItem, convertItems_eq_map]
  | tuple items =>
    cases h
    rw [convertItem, convertItems_eq_map]
  | dict items =>
    cases h
    rw [convertItem, convertEntries_eq_map, sortedItems_map, List.map_map, List.map_map]
    rfl

omit [NatCast A] in
theorem map_eq_map_iff_forall₂ {α β : Type*} {f : α → β} {R : α → α → Prop} {xs : List α}
    (h : ∀ x ∈ xs, ∀ y, f x = f y ↔ R x y) (ys : List α) :
    xs.map f = ys.map f ↔ List.Forall₂ R xs ys := by
  induction xs generalizing ys with
  | nil => cases ys <;> simp
  | cons x xs ih =>
    rw [List.forall_mem_cons] at h
    cases ys with
    | nil => simp
    | cons y ys => rw [List.map_cons, List.map_cons, List.cons.injEq, List.forall₂_cons, h.1,
        ih h.2]

theorem alike_iff_of_stream {x y : PyVal A} {xs ys : List (PyVal A)} (hx : x.stream = some xs)
    (hy : y.stream = some ys) : Alike x y ↔ List.Forall₂ Alike xs ys := by
  constructor
  · intro h
    cases h with
    | atom value => cases hx
    | str value => cases hx
    | stream hx' hy' items =>
      rw [hx] at hx'
      rw [hy] at hy'
      cases hx'
      cases hy'
      exact items
  · exact .stream hx hy

theorem convertItem_eq_iff_of_plain {x : PyVal A} (h : x.stream = none) (y : PyVal A) :
    (convertItem x = convertItem y ↔ x = y) ∧ (Alike x y ↔ x = y) := by
  have plain : (∃ value, x = .atom value) ∨ ∃ value, x = .str value := by
    cases x with
    | atom value => exact .inl ⟨value, rfl⟩
    | str value => exact .inr ⟨value, rfl⟩
    | _ => cases h
  refine ⟨⟨fun same => ?_, fun same => by rw [same]⟩, fun same => ?_, fun same => ?_⟩
  · cases hy : y.stream with
    | some ys =>
      rw [convertItem_stream hy] at same
      rcases plain with ⟨value, rfl⟩ | ⟨value, rfl⟩ <;> simp [convertItem] at same
    | none =>
      cases y with
      | atom value' => rcases plain with ⟨value, rfl⟩ | ⟨value, rfl⟩ <;> simp_all [convertItem]
      | str value' => rcases plain with ⟨value, rfl⟩ | ⟨value, rfl⟩ <;> simp_all [convertItem]
      | _ => cases hy
  · cases same with
    | atom value => rfl
    | str value => rfl
    | stream hx hy items =>
      rw [h] at hx
      cases hx
  · subst same
    rcases plain with ⟨value, rfl⟩ | ⟨value, rfl⟩
    · exact .atom value
    · exact .str value

/-- The flattening forgets exactly what `Alike` forgets. The induction is on the key, whose
items are the keys of the items. -/
theorem convertItem_eq_iff (x y : PyVal A) : convertItem x = convertItem y ↔ Alike x y := by
  suffices ∀ n : ℕ, ∀ x y : PyVal A, sizeOf (convertItem x) < n →
      (convertItem x = convertItem y ↔ Alike x y) from this _ x y (Nat.lt_succ_self _)
  intro n
  induction n with
  | zero => exact fun x y h => absurd h (Nat.not_lt_zero _)
  | succ n ih =>
    intro x y bound
    cases hx : x.stream with
    | none =>
      obtain ⟨key, alike⟩ := convertItem_eq_iff_of_plain hx y
      exact key.trans alike.symm
    | some xs =>
      cases hy : y.stream with
      | none =>
        have other : y ≠ x := by
          rintro rfl
          rw [hx] at hy
          cases hy
        obtain ⟨key, -⟩ := convertItem_eq_iff_of_plain hy x
        refine iff_of_false (fun same => other (key.mp same.symm)) fun alike => ?_
        cases alike with
        | atom value => cases hx
        | str value => cases hx
        | stream hx' hy' items =>
          rw [hy] at hy'
          cases hy'
      | some ys =>
        have smaller : ∀ x' ∈ xs, sizeOf (convertItem x') < n := by
          intro x' hx'
          have := List.sizeOf_lt_of_mem (List.mem_map_of_mem (f := convertItem) hx')
          rw [convertItem_stream hx, CacheKey.tuple.sizeOf_spec] at bound
          omega
        rw [alike_iff_of_stream hx hy, convertItem_stream hx, convertItem_stream hy,
          CacheKey.tuple.injEq]
        exact map_eq_map_iff_forall₂ (fun x' hx' y' => ih x' y' (smaller x' hx')) ys

mutual

def Tupled : PyVal A → Prop
  | .atom _ => True
  | .str _ => True
  | .tuple items => TupledItems items
  | _ => False

def TupledItems : List (PyVal A) → Prop
  | [] => True
  | item :: items => Tupled item ∧ TupledItems items

end

mutual

theorem eq_of_alike : ∀ x y : PyVal A, Alike x y → Tupled x → Tupled y → x = y
  | .atom value, y, h, _, _ => ((convertItem_eq_iff_of_plain rfl y).2.mp h)
  | .str value, y, h, _, _ => ((convertItem_eq_iff_of_plain rfl y).2.mp h)
  | .tuple items, .tuple items', h, hx, hy =>
    congrArg PyVal.tuple (eq_of_alike_items items items' ((alike_iff_of_stream rfl rfl).mp h) hx hy)
  | .tuple items, .atom value, h, _, _ => by
    cases h with
    | stream hx hy items => cases hy
  | .tuple items, .str value, h, _, _ => by
    cases h with
    | stream hx hy items => cases hy

theorem eq_of_alike_items : ∀ xs ys : List (PyVal A), List.Forall₂ Alike xs ys → TupledItems xs →
    TupledItems ys → xs = ys
  | [], _, h, _, _ => (List.forall₂_nil_left_iff.mp h).symm
  | x :: xs, [], h, _, _ => by cases h
  | x :: xs, y :: ys, h, hx, hy => by
    obtain ⟨head, tail⟩ := List.forall₂_cons.mp h
    rw [eq_of_alike x y head hx.1 hy.1, eq_of_alike_items xs ys tail hx.2 hy.2]

end

/-! ## Calls -/

section Names

variable {α β : Type*} {xs ys : List (String × α)}

omit [NatCast A] in
theorem lookup_sortedItems (hx : (xs.map Prod.fst).Nodup) (name : String) :
    (sortedItems xs).lookup name = xs.lookup name := by
  have perm : (sortedItems xs).Perm xs := List.perm_insertionSort _ xs
  have distinct : ((sortedItems xs).map Prod.fst).Nodup := (perm.map Prod.fst).nodup_iff.mpr hx
  refine Option.ext fun value => ?_
  rw [OrderedDict.lookup_eq_some_iff distinct, OrderedDict.lookup_eq_some_iff hx, perm.mem_iff]

theorem sortedItems_eq_iff (hx : (xs.map Prod.fst).Nodup) (hy : (ys.map Prod.fst).Nodup) :
    sortedItems xs = sortedItems ys ↔ ∀ name, xs.lookup name = ys.lookup name := by
  constructor
  · intro same name
    rw [← lookup_sortedItems hx, ← lookup_sortedItems hy, same]
  · intro same
    have members (item : String × α) : item ∈ xs ↔ item ∈ ys := by
      rw [← OrderedDict.lookup_eq_some_iff hx, ← OrderedDict.lookup_eq_some_iff hy, same]
    have perm : (sortedItems xs).Perm (sortedItems ys) :=
      ((List.perm_insertionSort _ xs).trans ((List.perm_ext_iff_of_nodup hx.of_map hy.of_map).mpr
        members)).trans (List.perm_insertionSort _ ys).symm
    have sorted (items : List (String × α)) :
        (sortedItems items).Pairwise fun a b => a.1 ≤ b.1 := by
      have : Std.Total fun a b : String × α => a.1 ≤ b.1 := ⟨fun a b => le_total a.1 b.1⟩
      have : IsTrans (String × α) fun a b => a.1 ≤ b.1 := ⟨fun a b c => le_trans⟩
      exact List.pairwise_insertionSort _ items
    refine perm.eq_of_pairwise (fun a b ha hb hab hba => ?_) (sorted xs) (sorted ys)
    -- the keys are equal, and the key determines the item
    have name := le_antisymm hab hba
    have ha' := (OrderedDict.lookup_eq_some_iff hx).mpr ((List.perm_insertionSort _ xs).subset ha)
    have hb' := (OrderedDict.lookup_eq_some_iff hy).mpr ((List.perm_insertionSort _ ys).subset hb)
    rw [name, same, hb', Option.some.injEq] at ha'
    exact Prod.ext name ha'.symm

theorem lookup_reverse (hx : (xs.map Prod.fst).Nodup) (name : String) :
    xs.reverse.lookup name = xs.lookup name := by
  have distinct : (xs.reverse.map Prod.fst).Nodup := by
    rw [List.map_reverse]
    exact List.nodup_reverse.mpr hx
  refine Option.ext fun value => ?_
  rw [OrderedDict.lookup_eq_some_iff distinct, OrderedDict.lookup_eq_some_iff hx, List.mem_reverse]

theorem get?_foldl_assign (d : OrderedDict String α) (name : String) :
    (xs.foldl (fun d e => d.assign e.1 e.2) d).get? name =
      (xs.reverse.lookup name).or (d.get? name) := by
  induction xs generalizing d with
  | nil => rfl
  | cons item xs ih =>
    obtain ⟨key, value⟩ := item
    rw [List.foldl_cons, ih, List.reverse_cons, List.lookup_append, Option.or_assoc,
      OrderedDict.get?_assign]
    by_cases here : name = key
    · simp [here]
    · simp [here, List.lookup_cons, beq_false_of_ne here]

theorem lookup_map_snd (f : α → β) (name : String) :
    (xs.map fun item => (item.1, f item.2)).lookup name = (xs.lookup name).map f := by
  induction xs with
  | nil => rfl
  | cons item xs ih =>
    rw [List.map_cons, List.lookup_cons, List.lookup_cons, ih]
    split <;> rfl

theorem map_fst_zip (names : List String) (values : List α) :
    (names.zip values).map Prod.fst = names.take values.length := by
  induction names generalizing values with
  | nil => simp
  | cons name names ih =>
    cases values with
    | nil => simp
    | cons value values => simpa using ih values

theorem nodup_zip {names : List String} (hnames : names.Nodup) (values : List α) :
    ((names.zip values).map Prod.fst).Nodup := by
  rw [map_fst_zip]
  exact hnames.sublist (List.take_sublist _ _)

theorem lookup_eq_none_of_not_mem {name : String} (h : name ∉ xs.map Prod.fst) :
    xs.lookup name = none := by
  rw [List.lookup_eq_none_iff]
  intro item hitem
  refine bne_iff_ne.mpr ?_
  rintro rfl
  exact h (List.mem_map_of_mem hitem)

end Names

/-- Name by name the two calls pass alike values, or both none; a keyword counts before a
position, and that before a default. -/
def PassAlike (spec : ArgSpec A) (call call' : Args (PyVal A)) : Prop :=
  ∀ name, Option.Rel Alike ((spec.merge call).get? name) ((spec.merge call').get? name)

omit [NatCast A] in
theorem merge_get? (spec : ArgSpec A) (hnames : spec.args.Nodup) {call : Args (PyVal A)}
    (hkwargs : (call.kwargs.map Prod.fst).Nodup) (name : String) :
    (spec.merge call).get? name = (call.kwargs.lookup name).or
      (((spec.args.zip call.args).lookup name).or (spec.kw.lookup name)) := by
  have defaults : (spec.kw.map Prod.fst).Nodup :=
    nodup_zip (hnames.sublist (List.drop_sublist _ _)) _
  rw [ArgSpec.merge, get?_foldl_assign, List.reverse_append, List.reverse_append,
    List.lookup_append, List.lookup_append, lookup_reverse hkwargs,
    lookup_reverse (nodup_zip hnames _), lookup_reverse defaults, OrderedDict.get?_empty,
    Option.or_none]

theorem key_eq_iff (spec : ArgSpec A) (call call' : Args (PyVal A)) :
    spec.key call = spec.key call' ↔ PassAlike spec call call' := by
  have names (m : OrderedDict String (PyVal A)) :
      ((m.items.map fun item => (item.1, convertItem item.2)).map Prod.fst).Nodup := by
    rw [List.map_map]
    exact m.nodup
  have pairs : Function.Injective (pairKey (A := A)) := by
    rintro ⟨a, x⟩ ⟨b, y⟩ same
    simpa [pairKey] using same
  rw [ArgSpec.key, ArgSpec.key, cacheStream, cacheStream, convertItem, convertItem,
    CacheKey.tuple.injEq, pairs.list_map.eq_iff, convertEntries_eq_map, convertEntries_eq_map,
    sortedItems_eq_iff (names _) (names _)]
  refine forall_congr' fun name => ?_
  rw [lookup_map_snd, lookup_map_snd]
  change ((spec.merge call).get? name).map convertItem =
    ((spec.merge call').get? name).map convertItem ↔ _
  rcases (spec.merge call).get? name with _ | x <;> rcases (spec.merge call').get? name with _ | y
  · simp
  · simp
  · simp
  · simp [convertItem_eq_iff]

end KhCommon
