import KhCommon.Caching.Alike
import KhCommon.Caching.ArgsCache
import Mathlib.Data.List.Pairwise

/-! When `KwargsCache` is transparent for a pure function. `Signature.bind` is how
Python binds the arguments of a call; a pure function is a function of the
binding. The key sees the arguments by name only: extra positional arguments are
not in it, a keyword hides the positional-only parameter of the same name, and
values are told apart up to `Alike` only. A run within the TTL is transparent if and only
if no two of its calls that pass alike values are bound differently. -/

namespace KhCommon.Caching

open Machine

/-- The parameters of a function; `defaults` are those of the last parameters before `*`. -/
structure Signature (A : Type*) where
  posonly : List String
  args : List String
  defaults : List (PyVal A)
  varargs : Bool
  kwonly : List (String × Option (PyVal A))
  varkw : Bool
  nodup : (posonly ++ args ++ kwonly.map Prod.fst).Nodup

structure Binding (A : Type*) where
  params : List (PyVal A)
  varargs : List (PyVal A)
  kwonly : List (PyVal A)
  varkw : List (String × PyVal A)

namespace Signature

variable {A : Type*} (sig : Signature A)

def params : List String := sig.posonly ++ sig.args

/-- What `getfullargspec` makes of it: positional-only parameters are parameters like others. -/
def spec : ArgSpec A := ⟨sig.params, sig.defaults⟩

/-- The value of a parameter: by position, by keyword unless it is positional-only, or its
default. -/
def param (call : Args (PyVal A)) (name : String) : Option (PyVal A) :=
  ((sig.params.zip call.args).lookup name).or <|
    (if name ∈ sig.posonly then none else call.kwargs.lookup name).or (sig.spec.kw.lookup name)

def Fits (call : Args (PyVal A)) : Prop :=
  (call.args.length ≤ sig.params.length ∨ sig.varargs) ∧
    (call.kwargs.map Prod.fst).Nodup ∧
    ∀ name ∈ call.kwargs.map Prod.fst,
      (name ∈ sig.args → name ∉ sig.params.take call.args.length) ∧
        (name ∈ sig.args ∨ name ∈ sig.kwonly.map Prod.fst ∨ sig.varkw)

instance (call : Args (PyVal A)) : Decidable (sig.Fits call) :=
  inferInstanceAs (Decidable (_ ∧ _ ∧ _))

/-- The binding of a call; `none` is Python's `TypeError`. -/
def bind (call : Args (PyVal A)) : Option (Binding A) :=
  if sig.Fits call then do
    let params ← sig.params.mapM (sig.param call)
    let kwonly ← sig.kwonly.mapM fun p => (call.kwargs.lookup p.1).or p.2
    some ⟨params, call.args.drop sig.params.length, kwonly,
      call.kwargs.filter fun e => e.1 ∉ sig.args ∧ e.1 ∉ sig.kwonly.map Prod.fst⟩
  else none

inductive Raised (E : Type*)
  | typeError
  | func (error : E)

def call {E V : Type*} (f : Binding A → Except E V) (args : Args (PyVal A)) :
    Except (Raised E) V :=
  match sig.bind args with
  | some binding => (f binding).mapError .func
  | none => .error .typeError

end Signature

/-! ## Functions with named parameters only -/

section Named

variable {A : Type*} [NatCast A] {sig : Signature A}

/-- The function takes named parameters only, and no default is a list, a dict or a byte string. -/
structure Signature.Named (sig : Signature A) : Prop where
  varargs : sig.varargs = false
  varkw : sig.varkw = false
  defaults : ∀ x ∈ sig.defaults, Tupled x

structure TupledArgs (call : Args (PyVal A)) : Prop where
  args : ∀ x ∈ call.args, Tupled x
  kwargs : ∀ e ∈ call.kwargs, Tupled e.2

omit [NatCast A] in
theorem Signature.fits_of_bind {call : Args (PyVal A)} (h : (sig.bind call).isSome) :
    sig.Fits call := by
  unfold Signature.bind at h
  by_contra out
  rw [if_neg out] at h
  cases h

omit [NatCast A] in
theorem Signature.nodup_params : sig.params.Nodup :=
  sig.nodup.sublist (List.sublist_append_left _ _)

omit [NatCast A] in
theorem Signature.param_eq_merge (noVarkw : sig.varkw = false) {call : Args (PyVal A)}
    (fits : sig.Fits call) (name : String) :
    sig.param call name = (sig.spec.merge call).get? name := by
  obtain ⟨-, distinct, known⟩ := fits
  have merged := merge_get? sig.spec sig.nodup_params distinct name
  rw [merged, Signature.param]
  cases hkw : call.kwargs.lookup name with
  | none =>
    rw [ite_self]
    rfl
  | some value =>
    have passed : name ∈ call.kwargs.map Prod.fst := List.mem_map_of_mem
      ((OrderedDict.lookup_eq_some_iff distinct).mp hkw)
    have byKeyword : name ∉ sig.posonly := by
      intro h
      have parts := List.nodup_append.mp sig.nodup
      obtain ⟨-, args | kwonly | varkw⟩ := known name passed
      · exact (List.nodup_append.mp parts.1).2.2 name h name args rfl
      · exact parts.2.2 name (List.mem_append_left _ h) name kwonly rfl
      · rw [noVarkw] at varkw
        cases varkw
    have notByPosition : name ∉ sig.params.take call.args.length := by
      obtain ⟨once, args | kwonly | varkw⟩ := known name passed
      · exact once args
      · exact fun h => (List.nodup_append.mp sig.nodup).2.2 name (List.mem_of_mem_take h) name
          kwonly rfl
      · rw [noVarkw] at varkw
        cases varkw
    have unset : (sig.params.zip call.args).lookup name = none :=
      lookup_eq_none_of_not_mem (by rwa [map_fst_zip])
    change ((sig.params.zip call.args).lookup name).or _ = some value
    rw [unset, if_neg byKeyword]
    rfl

omit [NatCast A] in
theorem Signature.kwonly_eq_merge {call : Args (PyVal A)} (fits : sig.Fits call)
    {p : String × Option (PyVal A)} (hp : p ∈ sig.kwonly) :
    call.kwargs.lookup p.1 = (sig.spec.merge call).get? p.1 := by
  have other : p.1 ∉ sig.params := fun h =>
    (List.nodup_append.mp sig.nodup).2.2 p.1 h p.1 (List.mem_map_of_mem hp) rfl
  have unset : (sig.params.zip call.args).lookup p.1 = none := lookup_eq_none_of_not_mem (by
    rw [map_fst_zip]
    exact fun h => other (List.mem_of_mem_take h))
  have noDefault : sig.spec.kw.lookup p.1 = none := lookup_eq_none_of_not_mem (by
    rw [ArgSpec.kw, map_fst_zip]
    exact fun h => other (List.mem_of_mem_drop (List.mem_of_mem_take h)))
  rw [merge_get? sig.spec sig.nodup_params fits.2.1, noDefault]
  change _ = (call.kwargs.lookup p.1).or (((sig.params.zip call.args).lookup p.1).or none)
  rw [unset, Option.or_none, Option.or_none]

omit [NatCast A] in
theorem TupledArgs.merge_get? (named : sig.Named) {call : Args (PyVal A)}
    (tupled : TupledArgs call) (fits : sig.Fits call) {name : String} {x : PyVal A}
    (h : (sig.spec.merge call).get? name = some x) : Tupled x := by
  have positions := nodup_zip sig.nodup_params call.args
  have defaults : (sig.spec.kw.map Prod.fst).Nodup :=
    nodup_zip (sig.nodup_params.sublist (List.drop_sublist _ _)) _
  rw [KhCommon.merge_get? sig.spec sig.nodup_params fits.2.1, Option.or_eq_some_iff,
    Option.or_eq_some_iff] at h
  rcases h with keyword | ⟨-, position | ⟨-, default⟩⟩
  · exact tupled.kwargs _ ((OrderedDict.lookup_eq_some_iff fits.2.1).mp keyword)
  · have := (OrderedDict.lookup_eq_some_iff positions).mp position
    exact tupled.args _ (List.of_mem_zip this).2
  · have := (OrderedDict.lookup_eq_some_iff defaults).mp default
    exact named.defaults _ (List.of_mem_zip this).2

omit [NatCast A] in
theorem Signature.bind_of_named (named : sig.Named) {call : Args (PyVal A)}
    (fits : sig.Fits call) :
    sig.bind call = (do
      let params ← sig.params.mapM (sig.param call)
      let kwonly ← sig.kwonly.mapM fun p => (call.kwargs.lookup p.1).or p.2
      some ⟨params, [], kwonly, []⟩) := by
  have extra : call.args.drop sig.params.length = [] := by
    rcases fits.1 with bound | varargs
    · exact List.drop_eq_nil_of_le bound
    · rw [named.varargs] at varargs
      cases varargs
  have known : (call.kwargs.filter fun e =>
      e.1 ∉ sig.args ∧ e.1 ∉ sig.kwonly.map Prod.fst) = [] := by
    refine List.filter_eq_nil_iff.mpr fun e he => ?_
    obtain ⟨-, args | kwonly | varkw⟩ := fits.2.2 e.1 (List.mem_map_of_mem he)
    · simp [args]
    · simp only [kwonly, not_true_eq_false, and_false, decide_false, Bool.false_eq_true,
        not_false_eq_true]
    · rw [named.varkw] at varkw
      cases varkw
  rw [bind, if_pos fits, extra, known]

theorem mapM_congr {α β : Type*} {f g : α → Option β} {xs : List α} (h : ∀ x ∈ xs, f x = g x) :
    xs.mapM f = xs.mapM g := by
  induction xs with
  | nil => rfl
  | cons x xs ih =>
    rw [List.forall_mem_cons] at h
    rw [List.mapM_cons, List.mapM_cons, h.1, ih h.2]

theorem Signature.bind_eq_of_passAlike (named : sig.Named) {call call' : Args (PyVal A)}
    (valid : (sig.bind call).isSome) (valid' : (sig.bind call').isSome) (tupled : TupledArgs call)
    (tupled' : TupledArgs call') (alike : PassAlike sig.spec call call') :
    sig.bind call = sig.bind call' := by
  have fits := fits_of_bind valid
  have fits' := fits_of_bind valid'
  have merged (name : String) :
      (sig.spec.merge call).get? name = (sig.spec.merge call').get? name := by
    cases hx : (sig.spec.merge call).get? name with
    | none =>
      cases hy : (sig.spec.merge call').get? name with
      | none => rfl
      | some y => simpa [hx, hy] using alike name
    | some x =>
      cases hy : (sig.spec.merge call').get? name with
      | none => simpa [hx, hy] using alike name
      | some y =>
        have same : Alike x y := by simpa [hx, hy] using alike name
        rw [eq_of_alike x y same (tupled.merge_get? named fits hx)
          (tupled'.merge_get? named fits' hy)]
  have params : sig.param call = sig.param call' := funext fun name => by
    rw [param_eq_merge named.varkw fits, param_eq_merge named.varkw fits', merged]
  have kwonly : (sig.kwonly.mapM fun p => (call.kwargs.lookup p.1).or p.2) =
      sig.kwonly.mapM fun p => (call'.kwargs.lookup p.1).or p.2 := by
    refine mapM_congr fun p hp => ?_
    rw [kwonly_eq_merge fits hp, kwonly_eq_merge fits' hp, merged]
  rw [bind_of_named named fits, bind_of_named named fits', params, kwonly]

end Named

/-! ## A cache in front of a pure function, for any key -/

section Pure

variable {C K E V : Type*} [DecidableEq K] {ttl : ℚ}

def still (g : C → Except E V) (args : C) (w : Unit) : Except E V × Unit := (g args, w)

theorem wrapper_transparent (key : C → K) (ttl : ℚ) (g : C → Except E V) {calls : List (Call C)}
    (apart : ∀ c ∈ calls, ∀ c' ∈ calls, key c.args = key c'.args → g c.args = g c'.args) :
    outputs (wrapper key ttl (still g)) (∅, ()) calls = calls.map fun c => g c.args := by
  refine outputs_eq_map (I := fun s : Cache K V × Unit => ∀ k exp data,
    s.1.get? k = some (exp, data) → ∀ c ∈ calls, key c.args = k → g c.args = .ok data)
    (fun s call inCalls right => ?_) (by simp)
  have cleared : ∀ k exp data, (clearCache call.now s.1).get? k = some (exp, data) →
      ∀ c ∈ calls, key c.args = k → g c.args = .ok data := by
    intro k exp data he
    rw [clearCache_eq_purge] at he
    exact right k exp data (ExpiringDict.get?_of_get?_purge he)
  unfold wrapper still
  cases hit : (clearCache call.now s.1).get? (key call.args) with
  | some entry =>
    simp only [hit]
    exact ⟨(cleared _ _ _ hit call inCalls rfl).symm, cleared⟩
  | none =>
    simp only [hit]
    rcases hrun : g call.args with e | data
    · exact ⟨rfl, cleared⟩
    · refine ⟨rfl, fun k exp data' he c hc hk => ?_⟩
      rw [OrderedDict.get?_assign] at he
      split_ifs at he with same
      · cases he
        rw [apart c hc call inCalls (hk.trans same), hrun]
      · exact cleared k exp data' he c hc hk

theorem due_latest_of_ne {key : C → K} {func : C → Unit → Except E V × Unit} {r : Runs K V × Unit}
    {call : Call C} {k : K} (other : key call.args ≠ k) :
    (due key ttl func r call).2.1.latest k = r.1.latest k := by
  unfold due
  split
  · rfl
  · rcases func call.args r.2 with ⟨e | data', w⟩
    · rfl
    · rw [latest_cons, if_neg other]

theorem due_latest (key : C → K) (func : C → Unit → Except E V × Unit) {r : Runs K V × Unit}
    {call : Call C} {k : K} {t : ℚ} {data : V} (hlatest : r.1.latest k = some (t, data))
    (fresh : call.now ≤ t + ttl) :
    (key call.args = k → (due key ttl func r call).1 = .ok data) ∧
      (due key ttl func r call).2.1.latest k = some (t, data) := by
  by_cases same : key call.args = k
  · have hit : r.1.recent ttl call.now (key call.args) = some data :=
      recent_eq_some_iff.mpr ⟨t, same ▸ hlatest, fresh⟩
    simp [due, hit, hlatest]
  · exact ⟨fun h => absurd h same, (due_latest_of_ne same).trans hlatest⟩

theorem eq_latest_of_outputs {key : C → K} {func : C → Unit → Except E V × Unit} {k : K} {t : ℚ}
    {data : V} {g : Call C → Except E V} {calls : List (Call C)}
    (fresh : ∀ c ∈ calls, c.now ≤ t + ttl) {r : Runs K V × Unit}
    (hlatest : r.1.latest k = some (t, data))
    (transparent : outputs (due key ttl func) r calls = calls.map g) :
    ∀ c ∈ calls, key c.args = k → g c = .ok data := by
  induction calls generalizing r with
  | nil => nofun
  | cons call calls ih =>
    rw [List.forall_mem_cons] at fresh
    rw [outputs, List.map_cons, List.cons.injEq] at transparent
    obtain ⟨answer, later⟩ := due_latest key func hlatest fresh.1
    rw [List.forall_mem_cons]
    exact ⟨fun same => transparent.1.symm.trans (answer same), ih fresh.2 later transparent.2⟩

theorem due_answered {key : C → K} {func : C → Unit → Except E V × Unit} {r : Runs K V × Unit}
    {call : Call C} {data : V} (h : (due key ttl func r call).1 = .ok data) :
    ∃ t, (due key ttl func r call).2.1.latest (key call.args) = some (t, data) ∧
      (t = call.stored ∨ r.1.latest (key call.args) = some (t, data)) := by
  cases hit : r.1.recent ttl call.now (key call.args) with
  | some data' =>
    obtain ⟨t, hlatest, -⟩ := recent_eq_some_iff.mp hit
    simp only [due, hit, Except.ok.injEq] at h ⊢
    exact ⟨t, h ▸ hlatest, .inr (h ▸ hlatest)⟩
  | none =>
    rcases hrun : func call.args r.2 with ⟨e | data', w⟩
    · simp [due, hit, hrun] at h
    · simp only [due, hit, hrun, Except.ok.injEq] at h ⊢
      exact ⟨call.stored, by rw [latest_cons, if_pos rfl, h], .inl rfl⟩

theorem pairwise_of_outputs {key : C → K} {func : C → Unit → Except E V × Unit} {g : C → V}
    {calls : List (Call C)} (within : ∀ c ∈ calls, ∀ c' ∈ calls, c'.now ≤ c.stored + ttl)
    {r : Runs K V × Unit}
    (fresh : ∀ k t data, r.1.latest k = some (t, data) → ∀ c ∈ calls, c.now ≤ t + ttl)
    (transparent : outputs (due key ttl func) r calls = calls.map fun c => .ok (g c.args)) :
    calls.Pairwise fun c c' => key c.args = key c'.args → g c.args = g c'.args := by
  induction calls generalizing r with
  | nil => exact .nil
  | cons call calls ih =>
    rw [outputs, List.map_cons, List.cons.injEq] at transparent
    obtain ⟨answer, later⟩ := transparent
    obtain ⟨t, hlatest, ht⟩ := due_answered answer
    have due_fresh : ∀ c ∈ calls, c.now ≤ t + ttl := by
      intro c hc
      rcases ht with rfl | earlier
      · exact within call List.mem_cons_self c (List.mem_cons_of_mem _ hc)
      · exact fresh _ _ _ earlier c (List.mem_cons_of_mem _ hc)
    refine List.pairwise_cons.mpr ⟨fun c hc same => ?_, ?_⟩
    · have equal := eq_latest_of_outputs due_fresh hlatest later c hc same.symm
      exact (Except.ok.inj equal).symm
    · refine ih (fun c hc c' hc' => within c (List.mem_cons_of_mem _ hc) c'
        (List.mem_cons_of_mem _ hc')) (fun k t' data' hk c hc => ?_) later
      by_cases same : key call.args = k
      · rw [← same, hlatest, Option.some.injEq, Prod.mk.injEq] at hk
        exact hk.1 ▸ due_fresh c hc
      · rw [due_latest_of_ne same] at hk
        exact fresh k t' data' hk c (List.mem_cons_of_mem _ hc)

end Pure

theorem kwargsCache_named {A : Type*} [DecidableEq A] [NatCast A] {sig : Signature A}
    (named : sig.Named) {E V : Type*} (f : Binding A → Except E V) (ttl : ℚ)
    {calls : List (Call (Args (PyVal A)))}
    (valid : ∀ c ∈ calls, (sig.bind c.args).isSome ∧ TupledArgs c.args) :
    outputs (kwargsCache ttl sig.spec (still (sig.call f))) (∅, ()) calls =
      calls.map fun c => sig.call f c.args := by
  refine wrapper_transparent sig.spec.key ttl (sig.call f) fun c hc c' hc' same => ?_
  have bindings := sig.bind_eq_of_passAlike named (valid c hc).1 (valid c' hc').1 (valid c hc).2
    (valid c' hc').2 ((key_eq_iff _ _ _).mp same)
  rw [Signature.call, Signature.call, bindings]

/-- In a run of valid calls within the TTL the cached function returns for each call what every
pure function with this signature returns, if and only if no two calls that pass alike values are
bound differently; and that is when calls bound differently never share a key. -/
theorem kwargsCache_transparent_iff {A : Type} [DecidableEq A] [NatCast A] (sig : Signature A)
    (ttl t₀ : ℚ) (calls : List (Call (Args (PyVal A))))
    (valid : ∀ c ∈ calls, (sig.bind c.args).isSome)
    (clock : Clocked Call.now Call.stored t₀ calls)
    (within : ∀ c ∈ calls, ∀ c' ∈ calls, c'.now ≤ c.stored + ttl) :
    ((∀ (E V : Type) (f : Binding A → Except E V),
        outputs (kwargsCache ttl sig.spec (still (sig.call f))) (∅, ()) calls =
          calls.map fun c => sig.call f c.args) ↔
      ∀ c ∈ calls, ∀ c' ∈ calls, PassAlike sig.spec c.args c'.args →
        sig.bind c.args = sig.bind c'.args) ∧
    ((∀ c ∈ calls, ∀ c' ∈ calls, sig.bind c.args ≠ sig.bind c'.args →
        sig.spec.key c.args ≠ sig.spec.key c'.args) ↔
      ∀ c ∈ calls, ∀ c' ∈ calls, PassAlike sig.spec c.args c'.args →
        sig.bind c.args = sig.bind c'.args) := by
  refine ⟨⟨fun transparent c hc c' hc' alike => ?_, fun apart E V f => ?_⟩, ?_⟩
  · -- the function that returns its binding tells all bindings apart
    have tells : ∀ c ∈ calls, sig.call (fun b => (.ok (some b) : Except Empty _)) c.args =
        .ok (sig.bind c.args) := by
      intro c hc
      obtain ⟨binding, hb⟩ := Option.isSome_iff_exists.mp (valid c hc)
      rw [Signature.call, hb]
      rfl
    have own := transparent Empty (Option (Binding A)) fun b => .ok (some b)
    rw [kwargsCache, (wrapper_run sig.spec.key ttl _ () clock).1, List.map_congr_left tells] at own
    have pairs := pairwise_of_outputs within (fun _ _ _ h => by simp at h) own
    have : Std.Symm fun c c' : Call (Args (PyVal A)) =>
        sig.spec.key c.args = sig.spec.key c'.args → sig.bind c.args = sig.bind c'.args :=
      ⟨fun c c' h same => (h same.symm).symm⟩
    exact pairs.forall_of_forall (fun _ _ _ => rfl) hc hc' ((key_eq_iff _ _ _).mpr alike)
  · refine wrapper_transparent sig.spec.key ttl (sig.call f) fun c hc c' hc' same => ?_
    rw [Signature.call, Signature.call, apart c hc c' hc' ((key_eq_iff _ _ _).mp same)]
  · refine forall₂_congr fun c hc => forall₂_congr fun c' hc' => ?_
    rw [← key_eq_iff]
    exact ⟨fun h same => by_contra fun other => h other same, fun h other same => other (h same)⟩

theorem kwargsCache_transparent_numbers :
    let sig : Signature ℤ := ⟨[], ["a"], [], false, [], false, by decide⟩
    let call (n : ℤ) : Call (Args (PyVal ℤ)) := ⟨⟨[.atom n], []⟩, 0, 0⟩
    let calls := [call 1, call 2]
    ∀ (E V : Type) (f : Binding ℤ → Except E V),
      outputs (kwargsCache 60 sig.spec (still (sig.call f))) (∅, ()) calls =
        calls.map fun c => sig.call f c.args := by
  intro sig call calls
  have other : sig.spec.key (call 1).args ≠ sig.spec.key (call 2).args := by decide
  refine (kwargsCache_transparent_iff sig 60 0 calls (by decide) (by simp [calls, call, Clocked])
    (by simp [calls, call])).1.mpr fun c hc c' hc' alike => ?_
  have same := (key_eq_iff _ _ _).mpr alike
  rcases List.mem_pair.mp hc with rfl | rfl <;> rcases List.mem_pair.mp hc' with rfl | rfl
  · rfl
  · exact absurd same other
  · exact absurd same.symm other
  · rfl

/-- `def f(*a): return len(a)` is asked for one argument and then for two, and answers 1 twice. -/
theorem kwargsCache_drops_varargs :
    ¬ ∀ (sig : Signature ℤ) (ttl t₀ : ℚ) (calls : List (Call (Args (PyVal ℤ)))),
      (∀ c ∈ calls, (sig.bind c.args).isSome) → Clocked Call.now Call.stored t₀ calls →
      (∀ c ∈ calls, ∀ c' ∈ calls, c'.now ≤ c.stored + ttl) →
      ∀ (E V : Type) (f : Binding ℤ → Except E V),
        outputs (kwargsCache ttl sig.spec (still (sig.call f))) (∅, ()) calls =
          calls.map fun c => sig.call f c.args := by
  intro all
  have transparent := all ⟨[], [], [], true, [], false, by decide⟩ 60 0
    [⟨⟨[.atom 1], []⟩, 0, 0⟩, ⟨⟨[.atom 1, .atom 2], []⟩, 1, 1⟩] (by decide)
    (by norm_num [Clocked]) (by norm_num) Empty ℕ fun b => .ok b.varargs.length
  have answers := congrArg (List.map Except.toOption) transparent
  revert answers
  decide +kernel

end KhCommon.Caching
