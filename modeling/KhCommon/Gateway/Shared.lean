import KhCommon.Gateway
import KhCommon.Lib.Machine
import Mathlib.Data.List.Induction
import Mathlib.Logic.Function.Basic

/-! Calls of gateways whose caller passes one dictionary to several of them. `req` holds
the dictionaries themselves, so every attempt sends what they have come to by then; and
a call with params and a method without a body leaves its params in the body. A call
waits at its attempts only, and there others begin or make theirs. The dictionaries are
not changed otherwise. -/

namespace KhCommon.Gateway.Shared

open Machine

variable {G E R D M V Ref : Type*}

structure Args (Ref : Type*) where
  body : Option Ref := none
  params : Option Ref := none
  headers : Option (OrderedDict String String) := none
  auth : Option String := none

def Args.caller (args : Args Ref) (heap : Ref → OrderedDict String V) : Caller V :=
  ⟨args.body.map heap, args.params.map heap, args.headers⟩

/-- A request that was built, and the dictionaries it holds. -/
structure Held (Ref V : Type*) where
  req : Req V
  json : Option (Option Ref)
  params : Option (Option Ref)

def Held.now (held : Held Ref V) (heap : Ref → OrderedDict String V) : Req V :=
  { held.req with
    json := held.json.map (Option.map heap)
    params := held.params.map (Option.map heap) }

inductive Phase (G Ref V : Type*)
  | idle
  | trying (g : G) (held : Held Ref V) (attempt : ℕ)
  | ended

def Phase.attempt? : Phase G Ref V → Option (G × ℕ)
  | .trying g _ attempt => some (g, attempt)
  | _ => none

theorem Phase.attempt?_eq_some {phase : Phase G Ref V} {g : G} {attempt : ℕ}
    (h : phase.attempt? = some (g, attempt)) : ∃ held, phase = .trying g held attempt := by
  cases phase with
  | trying g' held attempt' =>
    cases h
    exact ⟨held, rfl⟩
  | idle => cases h
  | ended => cases h

structure State (G Ref V : Type*) where
  heap : Ref → OrderedDict String V
  phase : ℕ → Phase G Ref V

def start (heap : Ref → OrderedDict String V) : State G Ref V := ⟨heap, fun _ => .idle⟩

inductive Step (G Ref E R : Type*)
  | begins (id : ℕ) (g : G) (args : Args Ref)
  | attempts (id : ℕ) (answer : Except (Fault E) R)

inductive Event (E D M Ref V : Type*)
  | raised (id : ℕ) (error : Fault E)
  | began (id : ℕ) (body : Option Ref) (put : List (String × V))
  | sent (id attempt : ℕ) (req : Req V) (result : Option (Except (Fault E) (Returned D M)))

section Call

variable (self : Gateway E R D M) (args : Args Ref)

def puts (caller : Caller V) : List (String × V) :=
  if self._method ∈ methodsWithoutBody then (caller.params.getD ∅).items else []

def hold (caller : Caller V) (req : Req V) : Held Ref V :=
  if self._method ∈ methodsWithoutBody then ⟨req, none, some args.body⟩
  else ⟨req, some args.body,
    (caller.params.filter fun params => !params.items.isEmpty).map fun _ => args.params⟩

def Phase.next (g : G) (held : Held Ref V) (attempt : ℕ) : Phase G Ref V :=
  if (attempt : ℤ) ≤ self.attempts then .trying g held attempt else .ended

def stored [DecidableEq Ref] (heap : Ref → OrderedDict String V) (after : Caller V) :
    Ref → OrderedDict String V :=
  match args.body, after.body with
  | some ref, some body => Function.update heap ref body
  | _, _ => heap

end Call

def step [DecidableEq Ref] (gateway : G → Gateway E R D M) (s : State G Ref V) :
    Step G Ref E R → Option (Event E D M Ref V) × State G Ref V
  | .begins id g args =>
    match s.phase id with
    | .idle =>
      let caller := args.caller s.heap
      match (gateway g).build caller args.auth with
      | (.error e, _) =>
        (some (.raised id e), { s with phase := Function.update s.phase id .ended })
      | (.ok req, after) =>
        let held := hold (gateway g) args caller req
        (some (.began id args.body (puts (gateway g) caller)),
          ⟨stored args s.heap after, Function.update s.phase id (.next (gateway g) g held 1)⟩)
    | _ => (none, s)
  | .attempts id answer =>
    match s.phase id with
    | .trying g held attempt =>
      let req := held.now s.heap
      let outcome := answer.bind (gateway g).respond
      if (gateway g).ends attempt outcome then
        (some (.sent id attempt req (some outcome)),
          { s with phase := Function.update s.phase id .ended })
      else
        (some (.sent id attempt req none),
          { s with phase := Function.update s.phase id (.next (gateway g) g held (attempt + 1)) })
    | _ => (none, s)

/-! ## What a call puts into its body -/

section Build

variable {self : Gateway E R D M} {args : Args Ref}
  {heap : Ref → OrderedDict String V} {req : Req V} {after : Caller V}

theorem build_ok (built : self.build (args.caller heap) args.auth = (.ok req, after)) :
    ∃ req₀ sent, addParams (E := E) (self.base (args.caller heap)) (args.caller heap) =
      (.ok req₀, after) ∧ req = { req₀ with headers := sent } := by
  rw [build] at built
  rcases added : addParams (E := E) (self.base (args.caller heap)) (args.caller heap) with
    ⟨e | req₀, caller⟩
  · rw [added] at built
    cases built
  · rw [added] at built
    obtain ⟨sent, headers⟩ := addAuth_addHeaders args.auth caller.headers req₀
    cases built
    exact ⟨req₀, sent, rfl, headers⟩

theorem stored_same [DecidableEq Ref] (args : Args Ref) (heap : Ref → OrderedDict String V) :
    stored args heap (args.caller heap) = heap := by
  unfold stored Args.caller
  cases args.body with
  | none => rfl
  | some ref => exact Function.update_eq_self ref heap

theorem build_spec [DecidableEq Ref]
    (built : self.build (args.caller heap) args.auth = (.ok req, after)) :
    (∀ ref, stored args heap after ref =
      (heap ref).update (if args.body = some ref then puts self (args.caller heap) else [])) ∧
    (hold self args (args.caller heap) req).now (stored args heap after) = req := by
  obtain ⟨req₀, sent, added, rfl⟩ := build_ok built
  by_cases falsy : ∀ params, (args.caller heap).params = some params → params.items = []
  · rw [addParams_of_falsy falsy] at added
    cases added
    have nothing : puts self (args.caller heap) = [] := by
      unfold puts
      cases given : (args.caller heap).params with
      | none => exact ite_self _
      | some params => rw [Option.getD_some, falsy params given, ite_self]
    have unheld :
        ((args.caller heap).params.filter fun params => !params.items.isEmpty) = none := by
      rw [Option.filter_eq_none_iff]
      intro params given
      simp [falsy params given]
    rw [stored_same]
    refine ⟨fun ref => ?_, ?_⟩
    · rw [nothing, ite_self]
      rfl
    · rw [hold, base, unheld]
      split_ifs <;> rfl
  · push Not at falsy
    obtain ⟨params, given, some_params⟩ := falsy
    have truthy : params.items.isEmpty = false := by simpa using some_params
    by_cases bodyless : self._method ∈ methodsWithoutBody
    · have hparams := base_params self (args.caller heap)
      rw [if_pos bodyless] at hparams
      cases hbody : args.body with
      | none =>
        have none : (args.caller heap).body = none := by rw [Args.caller, hbody]; rfl
        rw [none] at hparams
        simp [addParams, given, truthy, hparams] at added
      | some ref =>
        have body : (args.caller heap).body = some (heap ref) := by rw [Args.caller, hbody]; rfl
        rw [addParams_of_body given some_params body hparams] at added
        cases added
        have after : stored args heap { args.caller heap with
            body := some ((heap ref).update params.items) } =
              Function.update heap ref ((heap ref).update params.items) := by
          simp only [stored, hbody]
        have put : puts self (args.caller heap) = params.items := by
          rw [puts, if_pos bodyless, given, Option.getD_some]
        rw [after, put]
        refine ⟨fun ref' => ?_, ?_⟩
        · by_cases same : ref = ref'
          · subst same
            rw [Function.update_self, if_pos rfl]
          · rw [Function.update_of_ne (Ne.symm same),
              if_neg fun h => same (Option.some.inj h)]
            rfl
        · rw [hold, if_pos bodyless, base, if_pos bodyless, hbody]
          simp [Held.now]
    · have hparams := base_params self (args.caller heap)
      rw [if_neg bodyless] at hparams
      have separate : addParams (E := E) (self.base (args.caller heap)) (args.caller heap) =
          (.ok { self.base (args.caller heap) with params := some (some params) },
            args.caller heap) := by
        simp [addParams, given, truthy, hparams]
      rw [separate] at added
      cases added
      have nothing : puts self (args.caller heap) = [] := if_neg bodyless
      have held : ((args.caller heap).params.filter fun params => !params.items.isEmpty) =
          some params := by
        rw [given]
        simp [truthy]
      rw [stored_same]
      refine ⟨fun ref => ?_, ?_⟩
      · rw [nothing, ite_self]
        rfl
      · rw [hold, if_neg bodyless, base, if_neg bodyless, held]
        have same : args.params.map heap = some params := given
        simp [Held.now, Args.caller, same]

end Build

/-! ## One call -/

variable [DecidableEq Ref] {gateway : G → Gateway E R D M}

def requests (events : List (Option (Event E D M Ref V))) : List (Req V) :=
  events.filterMap fun
    | some (.sent _ _ req _) => some req
    | _ => none

theorem requests_ended {s : State G Ref V} {id : ℕ} (gone : s.phase id = .ended)
    (answers : List (Except (Fault E) R)) :
    requests (outputs (step gateway) s (answers.map (.attempts id))) = [] := by
  induction answers with
  | nil => rfl
  | cons answer answers ih =>
    have stays : step gateway s (.attempts id answer) = (none, s) := by simp only [step, gone]
    rw [List.map_cons, outputs, stays]
    exact ih

theorem requests_attempts {g : G} {held : Held Ref V} {id : ℕ}
    (server : ℕ → Req V → Except (Fault E) R) (left k : ℕ) {s : State G Ref V}
    (at_k : s.phase id = .next (gateway g) g held k)
    (inside : (k : ℤ) + left = (gateway g).attempts + 1) :
    requests (outputs (step gateway) s (((List.range' k left).map
        fun n => server n (held.now s.heap)).map (.attempts id))) =
      List.replicate (Retry.loop (gateway g).ends
        ((gateway g).attempt server (held.now s.heap)) left k).tries (held.now s.heap) := by
  induction left generalizing k s with
  | zero => rfl
  | succ left ih =>
    have trying : s.phase id = .trying g held k := by
      rw [at_k, Phase.next, if_pos (by omega)]
    let after : State G Ref V :=
      { s with phase := Function.update s.phase id (.next (gateway g) g held (k + 1)) }
    have moves : step gateway s (.attempts id (server k (held.now s.heap))) =
        if (gateway g).ends k ((gateway g).attempt server (held.now s.heap) k) then
          (some (.sent id k (held.now s.heap)
            (some ((gateway g).attempt server (held.now s.heap) k))),
            { s with phase := Function.update s.phase id .ended })
        else (some (.sent id k (held.now s.heap) none), after) := by
      simp only [step, trying]
      rfl
    rw [List.range'_succ, List.map_cons, List.map_cons, outputs, moves, Retry.loop]
    split_ifs with ends
    · rw [requests, List.filterMap_cons, ← requests, requests_ended (Function.update_self ..)]
      rfl
    · have next : after.phase id = .next (gateway g) g held (k + 1) := Function.update_self ..
      have rest := ih (k + 1) next (by omega)
      rw [requests, List.filterMap_cons, ← requests]
      exact congrArg (held.now s.heap :: ·) rest

theorem call_alone (g : G) (args : Args Ref) (heap : Ref → OrderedDict String V) (id : ℕ)
    (server : ℕ → Req V → Except (Fault E) R) {req : Req V} {after : Caller V}
    (built : (gateway g).build (args.caller heap) args.auth = (.ok req, after)) :
    requests (outputs (step gateway) (start heap) (.begins id g args ::
        ((List.range' 1 (gateway g).attempts.toNat).map fun n => server n req).map
          (.attempts id))) =
      ((gateway g).call server (args.caller heap) args.auth).1.requests := by
  let began : State G Ref V := ⟨stored args heap after, Function.update (fun _ => .idle) id
    (.next (gateway g) g (hold (gateway g) args (args.caller heap) req) 1)⟩
  have begins : step gateway (start heap) (.begins id g args) =
      (some (.began id args.body (puts (gateway g) (args.caller heap))), began) := by
    simp only [step, start, built]
    rfl
  have now : (hold (gateway g) args (args.caller heap) req).now began.heap = req :=
    (build_spec built).2
  have called : ((gateway g).call server (args.caller heap) args.auth).1 =
      (gateway g).send server req := call_of_built (congrArg Prod.fst built)
  rw [outputs, begins, requests, List.filterMap_cons, ← requests, called, send]
  by_cases some_attempts : 1 ≤ (gateway g).attempts
  · have at_one : began.phase id = .next (gateway g) g
        (hold (gateway g) args (args.caller heap) req) 1 := by
      simp only [began, Function.update_self]
    have alone := requests_attempts server (gateway g).attempts.toNat 1 at_one (by omega)
    rw [now] at alone
    exact alone
  · have none : (gateway g).attempts.toNat = 0 := by omega
    rw [none]
    rfl

/-! ## What the dictionaries come to -/

def putInto (ref : Ref) : Option (Event E D M Ref V) → List (String × V)
  | some (.began _ body put) => if body = some ref then put else []
  | _ => []

def added (ref : Ref) (events : List (Option (Event E D M Ref V))) : List (String × V) :=
  events.flatMap (putInto ref)

omit [DecidableEq Ref] in
theorem next_eq_trying {self : Gateway E R D M} {g g' : G} {held held' : Held Ref V}
    {attempt attempt' : ℕ} (h : Phase.next self g held attempt = .trying g' held' attempt') :
    g' = g ∧ held' = held ∧ attempt' = attempt := by
  unfold Phase.next at h
  split_ifs at h
  cases h
  exact ⟨rfl, rfl, rfl⟩

theorem step_heap (s : State G Ref V) (i : Step G Ref E R) (ref : Ref) :
    (step gateway s i).2.heap ref = (s.heap ref).update (added ref [(step gateway s i).1]) := by
  cases i with
  | begins id g args =>
    cases phase : s.phase id with
    | idle =>
      rcases built : (gateway g).build (args.caller s.heap) args.auth with ⟨e | req, after⟩
      · simp only [step, phase, built]
        rfl
      · simp only [step, phase, built, added, List.flatMap_singleton]
        exact (build_spec built).1 ref
    | trying g' held attempt =>
      simp only [step, phase]
      rfl
    | ended =>
      simp only [step, phase]
      rfl
  | attempts id answer =>
    cases phase : s.phase id with
    | idle =>
      simp only [step, phase]
      rfl
    | trying g held attempt =>
      simp only [step, phase]
      split_ifs <;> rfl
    | ended =>
      simp only [step, phase]
      rfl

theorem run_heap (heap : Ref → OrderedDict String V) (steps : List (Step G Ref E R)) (ref : Ref) :
    (run (step gateway) (start heap) steps).heap ref =
      (heap ref).update (added ref (outputs (step gateway) (start heap) steps)) := by
  have always : Always (step gateway) (fun _ _ _ => True) (start heap) steps :=
    always_of_forall_mem (fun _ _ _ => trivial) _
  have first : ∀ ref, (start heap : State G Ref V).heap ref =
      (heap ref).update (added ref ([] : List (Option (Event E D M Ref V)))) := fun _ => rfl
  refine outputs_inv (I := fun events s =>
    ∀ ref, s.heap ref = (heap ref).update (added ref events)) (fun events s i before _ ref => ?_)
    first always ref
  rw [step_heap, before, ← OrderedDict.update_append, added, added, added, List.flatMap_append]

theorem step_trying {s : State G Ref V} {i : Step G Ref E R} {id : ℕ} {g : G} {held : Held Ref V}
    {attempt : ℕ} (h : (step gateway s i).2.phase id = .trying g held attempt) :
    (∃ earlier, s.phase id = .trying g held earlier) ∨
    ∃ args req after, i = .begins id g args ∧
      (gateway g).build (args.caller s.heap) args.auth = (.ok req, after) ∧
      (step gateway s i).1 = some (.began id args.body (puts (gateway g) (args.caller s.heap))) ∧
      held = hold (gateway g) args (args.caller s.heap) req := by
  have moved {id' : ℕ} {phase : Phase G Ref V}
      (h : Function.update s.phase id' phase id = .trying g held attempt) :
      (∃ earlier, s.phase id = .trying g held earlier) ∨
        (id' = id ∧ phase = .trying g held attempt) := by
    by_cases own : id = id'
    · subst own
      rw [Function.update_self] at h
      exact .inr ⟨rfl, h⟩
    · rw [Function.update_of_ne own] at h
      exact .inl ⟨_, h⟩
  cases i with
  | begins id' g' args =>
    cases phase : s.phase id' with
    | idle =>
      rcases built : (gateway g').build (args.caller s.heap) args.auth with ⟨e | req, after⟩
      · simp only [step, phase, built] at h
        obtain old | ⟨-, new⟩ := moved h
        · exact .inl old
        · cases new
      · simp only [step, phase, built] at h
        obtain old | ⟨rfl, new⟩ := moved h
        · exact .inl old
        · obtain ⟨rfl, rfl, -⟩ := next_eq_trying new
          exact .inr ⟨args, req, after, rfl, built, by simp only [step, phase, built], rfl⟩
    | trying g'' held' attempt' =>
      simp only [step, phase] at h
      exact .inl ⟨_, h⟩
    | ended =>
      simp only [step, phase] at h
      exact .inl ⟨_, h⟩
  | attempts id' answer =>
    cases phase : s.phase id' with
    | idle =>
      simp only [step, phase] at h
      exact .inl ⟨_, h⟩
    | trying g' held' attempt' =>
      simp only [step, phase] at h
      split_ifs at h
      · obtain old | ⟨-, new⟩ := moved h
        · exact .inl old
        · cases new
      · obtain old | ⟨rfl, new⟩ := moved h
        · exact .inl old
        · obtain ⟨rfl, rfl, -⟩ := next_eq_trying new
          exact .inl ⟨_, phase⟩
    | ended =>
      simp only [step, phase] at h
      exact .inl ⟨_, h⟩

variable (gateway) in
/-- The call began with these arguments after these steps, and built a request. -/
structure Begun (heap : Ref → OrderedDict String V) (before : List (Step G Ref E R)) (id : ℕ)
    (g : G) (first : List (Step G Ref E R)) (args : Args Ref) (req : Req V) (caller : Caller V) :
    Prop where
  order : ∃ rest, before = first ++ .begins id g args :: rest
  passed : caller = args.caller (run (step gateway) (start heap) first).heap
  built : ∃ after, (gateway g).build caller args.auth = (.ok req, after)
  event : (step gateway (run (step gateway) (start heap) first) (.begins id g args)).1 =
    some (.began id args.body (puts (gateway g) caller))

theorem run_trying (heap : Ref → OrderedDict String V) (before : List (Step G Ref E R)) {id : ℕ}
    {g : G} {held : Held Ref V} {attempt : ℕ}
    (h : (run (step gateway) (start heap) before).phase id = .trying g held attempt) :
    ∃ first args req caller, Begun gateway heap before id g first args req caller ∧
      held = hold (gateway g) args caller req := by
  induction before using List.reverseRecOn generalizing attempt with
  | nil => cases h
  | append_singleton before i ih =>
    rw [run_append, run_cons, run_nil] at h
    obtain ⟨earlier, old⟩ | ⟨args, req, after, rfl, built, event, rfl⟩ := step_trying h
    · obtain ⟨first, args, req, caller, ⟨⟨rest, order⟩, same, built, event⟩, hold⟩ := ih old
      refine ⟨first, args, req, caller, ⟨⟨rest ++ [i], ?_⟩, same, built, event⟩, hold⟩
      rw [order, List.append_assoc, List.cons_append]
    · exact ⟨before, args, req, _, ⟨⟨[], rfl⟩, rfl, ⟨after, built⟩, event⟩, rfl⟩

/-! ## What is sent -/

def lastPut (ref : Ref) (events : List (Option (Event E D M Ref V))) (name : String) : Option V :=
  (added ref events).reverse.lookup name

theorem Begun.put {heap : Ref → OrderedDict String V} {before first : List (Step G Ref E R)}
    {id : ℕ} {g : G} {args : Args Ref} {req : Req V} {caller : Caller V}
    (h : Begun gateway heap before id g first args req caller) {ref : Ref}
    (body : args.body = some ref) :
    puts (gateway g) caller ⊆ added ref (outputs (step gateway) (start heap) before) := by
  obtain ⟨rest, rfl⟩ := h.order
  have own : putInto ref (some (.began id args.body (puts (gateway g) caller)) :
      Option (Event E D M Ref V)) = puts (gateway g) caller := if_pos body
  rw [outputs_append, outputs, h.event, added, List.flatMap_append, List.flatMap_cons, own]
  intro entry mem
  exact List.mem_append_right _ (List.mem_append_left _ mem)

theorem not_mem_of_lookup_reverse {entries : List (String × V)} {name : String}
    (none : entries.reverse.lookup name = none) : name ∉ entries.map Prod.fst := by
  intro mem
  obtain ⟨entry, held, rfl⟩ := List.mem_map.mp mem
  have other := List.lookup_eq_none_iff.mp none entry (List.mem_reverse.mpr held)
  simp at other

end KhCommon.Gateway.Shared
