import KhCommon.Caching.Transparent

/-! The keys of `KwargsCache` are canonical. However the arguments of a call are
divided between positions, keywords and defaults, and in whatever order its dicts
were filled, the key is determined by the values of the parameters up to `==`. -/

namespace KhCommon

variable {A : Type*} [NatCast A]

/-- `x == y`. Sequences of different types are not equal, and the order of a dict does not
count. -/
inductive Equal : PyVal A → PyVal A → Prop
  | atom (value : A) : Equal (.atom value) (.atom value)
  | str (value : String) : Equal (.str value) (.str value)
  | bytes (value : List UInt8) : Equal (.bytes value) (.bytes value)
  | list {xs ys : List (PyVal A)} (items : List.Forall₂ Equal xs ys) : Equal (.list xs) (.list ys)
  | tuple {xs ys : List (PyVal A)} (items : List.Forall₂ Equal xs ys) :
    Equal (.tuple xs) (.tuple ys)
  | dict {xs ys : List (String × PyVal A)} (hx : (xs.map Prod.fst).Nodup)
    (hy : (ys.map Prod.fst).Nodup)
    (entries : ∀ name, Option.Rel Equal (xs.lookup name) (ys.lookup name)) :
    Equal (.dict xs) (.dict ys)

omit [NatCast A] in
theorem map_eq_of_forall₂ {α β : Type*} {f : α → β} {R : α → α → Prop} {xs ys : List α}
    (h : ∀ x ∈ xs, ∀ y, R x y → f x = f y) (items : List.Forall₂ R xs ys) :
    xs.map f = ys.map f := by
  induction items with
  | nil => rfl
  | cons head tail ih =>
    rw [List.forall_mem_cons] at h
    rw [List.map_cons, List.map_cons, h.1 _ head, ih h.2]

/-- Equal values are flattened alike. The induction is on the size of the value, at whatever
depth it holds another. -/
theorem Equal.convertItem_eq {x y : PyVal A} (h : Equal x y) : convertItem x = convertItem y := by
  suffices ∀ n : ℕ, ∀ x y : PyVal A, sizeOf x < n → Equal x y → convertItem x = convertItem y from
    this _ x y (Nat.lt_succ_self _) h
  intro n
  induction n with
  | zero => exact fun x y bound => absurd bound (Nat.not_lt_zero _)
  | succ n ih =>
    intro x y bound equal
    have inItems {xs : List (PyVal A)} (small : sizeOf xs < n) :
        ∀ x ∈ xs, ∀ y, Equal x y → convertItem x = convertItem y :=
      fun x hx y => ih x y ((List.sizeOf_lt_of_mem hx).trans small)
    cases equal with
    | atom value => rfl
    | str value => rfl
    | bytes value => rfl
    | list items =>
      rw [PyVal.list.sizeOf_spec] at bound
      rw [convertItem, convertItem, convertItems_eq_map, convertItems_eq_map,
        map_eq_of_forall₂ (inItems (by omega)) items]
    | tuple items =>
      rw [PyVal.tuple.sizeOf_spec] at bound
      rw [convertItem, convertItem, convertItems_eq_map, convertItems_eq_map,
        map_eq_of_forall₂ (inItems (by omega)) items]
    | @dict xs ys hx hy entries =>
      rw [PyVal.dict.sizeOf_spec] at bound
      have names {items : List (String × PyVal A)} (distinct : (items.map Prod.fst).Nodup) :
          ((items.map fun item => (item.1, convertItem item.2)).map Prod.fst).Nodup := by
        rwa [List.map_map]
      have sorted : sortedItems (convertEntries xs) = sortedItems (convertEntries ys) := by
        rw [convertEntries_eq_map, convertEntries_eq_map, sortedItems_eq_iff (names hx) (names hy)]
        intro name
        rw [lookup_map_snd, lookup_map_snd]
        have entry := entries name
        rcases hv : xs.lookup name with _ | v <;> rcases hv' : ys.lookup name with _ | v'
        · rfl
        · simp [hv, hv'] at entry
        · simp [hv, hv'] at entry
        · have inside := List.sizeOf_lt_of_mem ((OrderedDict.lookup_eq_some_iff hx).mp hv)
          rw [Prod.mk.sizeOf_spec] at inside
          have equal : Equal v v' := by simpa [hv, hv'] using entry
          rw [Option.map_some, Option.map_some, ih v v' (by omega) equal]
      rw [convertItem, convertItem, sorted]

theorem Equal.alike {x y : PyVal A} (h : Equal x y) : Alike x y :=
  (convertItem_eq_iff x y).mp h.convertItem_eq

/-! ## Calls -/

namespace Caching

variable {sig : Signature A}

omit [NatCast A] in
theorem equal_of_mapM {f f' : String → Option (PyVal A)} {names : List String}
    {values values' : List (PyVal A)} (h : names.mapM f = some values)
    (h' : names.mapM f' = some values') (equal : List.Forall₂ Equal values values') :
    ∀ name ∈ names, ∃ value value', f name = some value ∧ f' name = some value' ∧
      Equal value value' := by
  induction names generalizing values values' with
  | nil => simp
  | cons name names ih =>
    rw [List.mapM_cons] at h h'
    obtain ⟨value, hvalue, h⟩ := Option.bind_eq_some_iff.mp h
    obtain ⟨rest, hrest, h⟩ := Option.bind_eq_some_iff.mp h
    obtain ⟨value', hvalue', h'⟩ := Option.bind_eq_some_iff.mp h'
    obtain ⟨rest', hrest', h'⟩ := Option.bind_eq_some_iff.mp h'
    cases h
    cases h'
    obtain ⟨head, tail⟩ := List.forall₂_cons.mp equal
    exact List.forall_mem_cons.mpr ⟨⟨value, value', hvalue, hvalue', head⟩,
      ih hrest hrest' tail⟩

structure Signature.Plain (sig : Signature A) : Prop where
  posonly : sig.posonly = []
  varargs : sig.varargs = false
  kwonly : sig.kwonly = []
  varkw : sig.varkw = false

omit [NatCast A] in
theorem Signature.merge_get?_of_not_mem (plain : sig.Plain) {call : Args (PyVal A)}
    (fits : sig.Fits call) {name : String} (other : name ∉ sig.params) :
    (sig.spec.merge call).get? name = none := by
  have notKeyword : name ∉ call.kwargs.map Prod.fst := by
    intro passed
    obtain ⟨-, args | kwonly | varkw⟩ := fits.2.2 name passed
    · exact other (List.mem_append_right _ args)
    · simp [plain.kwonly] at kwonly
    · rw [plain.varkw] at varkw
      cases varkw
  have notByPosition : name ∉ (sig.params.zip call.args).map Prod.fst := by
    rw [map_fst_zip]
    exact fun h => other (List.mem_of_mem_take h)
  have noDefault : name ∉ sig.spec.kw.map Prod.fst := by
    rw [ArgSpec.kw, map_fst_zip]
    exact fun h => other (List.mem_of_mem_drop (List.mem_of_mem_take h))
  have unset : (sig.spec.args.zip call.args).lookup name = none :=
    lookup_eq_none_of_not_mem notByPosition
  rw [merge_get? sig.spec sig.nodup_params fits.2.1, lookup_eq_none_of_not_mem notKeyword, unset,
    lookup_eq_none_of_not_mem noDefault]
  rfl

omit [NatCast A] in
theorem Signature.mapM_param_of_bind {call : Args (PyVal A)} {binding : Binding A}
    (bound : sig.bind call = some binding) :
    sig.params.mapM (sig.param call) = some binding.params := by
  have fits := Signature.fits_of_bind (by rw [bound]; rfl)
  rw [Signature.bind, if_pos fits] at bound
  obtain ⟨params, hparams, bound⟩ := Option.bind_eq_some_iff.mp bound
  obtain ⟨kwonly, -, bound⟩ := Option.bind_eq_some_iff.mp bound
  cases bound
  exact hparams

/-- Two calls that bind every parameter to equal values have one key. -/
theorem kwargsCache_canonical (plain : sig.Plain) {call call' : Args (PyVal A)}
    {binding binding' : Binding A} (bound : sig.bind call = some binding)
    (bound' : sig.bind call' = some binding')
    (equal : List.Forall₂ Equal binding.params binding'.params) :
    sig.spec.key call = sig.spec.key call' := by
  have fits := Signature.fits_of_bind (by rw [bound]; rfl)
  have fits' := Signature.fits_of_bind (by rw [bound']; rfl)
  rw [key_eq_iff]
  intro name
  by_cases param : name ∈ sig.params
  · obtain ⟨value, value', hvalue, hvalue', same⟩ := equal_of_mapM
      (Signature.mapM_param_of_bind bound) (Signature.mapM_param_of_bind bound') equal name param
    rw [← Signature.param_eq_merge plain.varkw fits, ← Signature.param_eq_merge plain.varkw fits',
      hvalue, hvalue']
    exact .some same.alike
  · rw [Signature.merge_get?_of_not_mem plain fits param,
      Signature.merge_get?_of_not_mem plain fits' param]
    exact .none

theorem kwargsCache_canonical_default :
    let sig : Signature ℤ := ⟨[], ["a", "b"], [.list [.atom 2]], false, [], false, by decide⟩
    sig.spec.key ⟨[.dict [("x", .atom 1), ("y", .str "z")]], []⟩ =
      sig.spec.key ⟨[], [("b", .list [.atom 2]),
        ("a", .dict [("y", .str "z"), ("x", .atom 1)])]⟩ := by
  intro sig
  have two : Equal (.list [.atom (2 : ℤ)]) (.list [.atom 2]) := .list (.cons (.atom 2) .nil)
  have entries : Equal (.dict [("x", .atom (1 : ℤ)), ("y", .str "z")])
      (.dict [("y", .str "z"), ("x", .atom 1)]) := by
    refine .dict (by decide) (by decide) fun name => ?_
    by_cases hx : name = "x"
    · subst hx
      exact .some (.atom 1)
    · by_cases hy : name = "y"
      · subst hy
        exact .some (.str "z")
      · simp [List.lookup_cons, beq_false_of_ne hx, beq_false_of_ne hy]
  exact kwargsCache_canonical ⟨rfl, rfl, rfl, rfl⟩ rfl rfl (.cons entries (.cons two .nil))

end Caching

end KhCommon
