import KhCommon.Lib.OrderedDict
import KhCommon.Lib.Retry
import Mathlib.Data.Rat.Defs
import Mathlib.Data.String.Basic

/-! `kh_common.gateway.Gateway`: the request that a call builds, and the loop that
sends it. The dictionaries belong to the caller, and `req['params']` is the body
itself when the method has none, so updating it updates the caller's. The server,
the decoder and the response model are parameters. The url is left out. -/

namespace KhCommon

namespace Gateway

/-- What is raised: aiohttp's `ClientResponseError`, the `AttributeError` of an `update` on None, or
something else. -/
inductive Fault (E : Type*)
  | clientResponseError (status : ℤ)
  | attributeError
  | other (error : E)

structure Caller (V : Type*) where
  body : Option (OrderedDict String V) := none
  params : Option (OrderedDict String V) := none
  headers : Option (OrderedDict String String) := none

/-- The keyword arguments of a request; `json` and `params` may be missing, and they may be None. -/
structure Req (V : Type*) where
  timeout : ℚ
  raiseForStatus : Bool
  headers : OrderedDict String String
  json : Option (Option (OrderedDict String V))
  params : Option (Option (OrderedDict String V))

end Gateway

open Gateway in
/-- `ClientResponse.json` is the usual decoder; one that is None is skipped, and so is the model. -/
structure Gateway (E R D M : Type*) where
  model : Option (D → Except (Fault E) M) := none
  method : String := "GET"
  timeout : ℚ := 30
  attempts : ℤ := 3
  statusToRetry : List ℤ := [429, 502, 503, 504]
  backoff : ℕ → ℚ := fun attempt => attempt ^ 2
  decoder : Option (R → Except (Fault E) D)

namespace Gateway

variable {E R D M V : Type*}

def methodsWithoutBody : List String := ["get", "head", "delete", "options", "trace", "connect"]

variable (self : Gateway E R D M)

def _method : String := self.method.toLower

/-! ## The request -/

def addParams (req : Req V) (caller : Caller V) : Except (Fault E) (Req V) × Caller V :=
  match caller.params with
  | none => (.ok req, caller)
  | some params =>
    if params.items.isEmpty then (.ok req, caller) else
      match req.params with
      | none => (.ok { req with params := some (some params) }, caller)
      | some none => (.error .attributeError, caller)
      | some (some body) =>
        -- the dictionary that is updated is the caller's body
        let body := body.update params.items
        (.ok { req with params := some (some body) }, { caller with body := some body })

def addHeaders (headers : Option (OrderedDict String String)) (req : Req V) : Req V :=
  match headers with
  | none => req
  | some headers => { req with headers := req.headers.update headers.items }

def addAuth (auth : Option String) (req : Req V) : Req V :=
  match auth with
  | none => req
  | some auth =>
    if auth = "" then req
    else { req with headers := req.headers.assign "authorization" ("Bearer " ++ auth) }

/-- `req` with the body as params or as json. -/
def base (caller : Caller V) : Req V :=
  let headers : OrderedDict String String :=
    (∅ : OrderedDict String String).assign "accept" "application/json"
  if self._method ∈ methodsWithoutBody then ⟨self.timeout, true, headers, none, some caller.body⟩
  else ⟨self.timeout, true, headers, some caller.body, none⟩

/-- `__call__` up to its loop. -/
def build (caller : Caller V) (auth : Option String) : Except (Fault E) (Req V) × Caller V :=
  let (built, caller) := addParams (self.base caller) caller
  (built.map fun req => addAuth auth (addHeaders caller.headers req), caller)

/-! ## The loop -/

inductive Returned (D M : Type*)
  | nothing
  | data (data : D)
  | parsed (value : M)

def respond (response : R) : Except (Fault E) (Returned D M) :=
  match self.decoder with
  | none => .ok .nothing
  | some decode =>
    match decode response with
    | .error e => .error e
    | .ok data =>
      match self.model with
      | none => .ok (.data data)
      | some parse => (parse data).map .parsed

def attempt (server : ℕ → Req V → Except (Fault E) R) (req : Req V) (attempt : ℕ) :
    Except (Fault E) (Returned D M) :=
  (server attempt req).bind self.respond

def ends (attempt : ℕ) : Except (Fault E) (Returned D M) → Bool
  | .ok _ => true
  | .error (.clientResponseError status) => status ∉ self.statusToRetry ∨ attempt = self.attempts
  | .error _ => true

/-- The requests that were made, the seconds slept between them, and how the call ends; none when
the loop runs out. -/
structure Called (E D M V : Type*) where
  requests : List (Req V)
  sleeps : List ℚ
  result : Option (Except (Fault E) (Returned D M))

def send (server : ℕ → Req V → Except (Fault E) R) (req : Req V) : Called E D M V :=
  let trace := Retry.loop self.ends (self.attempt server req) self.attempts.toNat 1
  ⟨List.replicate trace.tries req, trace.waits.map self.backoff, trace.last⟩

def call (server : ℕ → Req V → Except (Fault E) R) (caller : Caller V) (auth : Option String) :
    Called E D M V × Caller V :=
  match self.build caller auth with
  | (.error e, caller) => (⟨[], [], some (.error e)⟩, caller)
  | (.ok req, caller) => (self.send server req, caller)

/-! ## Attempt after attempt -/

def Stops : Except (Fault E) (Returned D M) → Prop
  | .ok _ => True
  | .error e => ∀ status ∈ self.statusToRetry, e ≠ .clientResponseError status

variable {self}

theorem ends_iff {attempt : ℕ} {outcome : Except (Fault E) (Returned D M)} :
    self.ends attempt outcome ↔ self.Stops outcome ∨
      ((attempt : ℤ) = self.attempts ∧
        ∃ status, outcome = .error (.clientResponseError status)) := by
  cases outcome with
  | ok value => simp [ends, Stops]
  | error e =>
    cases e with
    | clientResponseError status =>
      have other : (∀ s ∈ self.statusToRetry, ¬status = s) ↔ status ∉ self.statusToRetry :=
        ⟨fun h hs => h status hs rfl, fun h s hs same => h (same ▸ hs)⟩
      simp [ends, Stops, other]
    | attributeError => simp [ends, Stops]
    | other e => simp [ends, Stops]

theorem ends_last {attempt : ℕ} (last : (attempt : ℤ) = self.attempts)
    (outcome : Except (Fault E) (Returned D M)) : self.ends attempt outcome := by
  cases outcome with
  | ok value => rfl
  | error e => cases e <;> simp [ends, last]

theorem call_of_built {server : ℕ → Req V → Except (Fault E) R} {caller : Caller V}
    {auth : Option String} {req : Req V} (built : (self.build caller auth).1 = .ok req) :
    (self.call server caller auth).1 = self.send server req := by
  rcases hbuild : self.build caller auth with ⟨answer, caller'⟩
  rw [hbuild] at built
  cases built
  simp only [call, hbuild]

theorem call_of_raised {server : ℕ → Req V → Except (Fault E) R} {caller : Caller V}
    {auth : Option String} {e : Fault E} (raised : (self.build caller auth).1 = .error e) :
    (self.call server caller auth).1 = ⟨[], [], some (.error e)⟩ := by
  rcases hbuild : self.build caller auth with ⟨answer, caller'⟩
  rw [hbuild] at raised
  cases raised
  simp only [call, hbuild]

theorem send_retries (self : Gateway E R D M) (attempts : 1 ≤ self.attempts)
    (server : ℕ → Req V → Except (Fault E) R) (req : Req V) :
    ∃ k : ℕ, (1 ≤ k ∧ (k : ℤ) ≤ self.attempts) ∧
      (self.Stops (self.attempt server req k) ∨ (k : ℤ) = self.attempts) ∧
      (∀ i : ℕ, 1 ≤ i → i < k → ¬self.Stops (self.attempt server req i)) ∧
      self.send server req =
        ⟨List.replicate k req, (List.range' 1 (k - 1)).map self.backoff,
          some (self.attempt server req k)⟩ := by
  have last : (self.attempts.toNat : ℤ) = self.attempts := Int.toNat_of_nonneg (by omega)
  obtain ⟨k, le, first⟩ : ∃ k ≤ self.attempts.toNat,
      Retry.FirstEnd self.ends (self.attempt server req) 1 k :=
    Retry.exists_firstEnd (by omega) (ends_last last _)
  have loop := Retry.loop_of_firstEnd self.attempts.toNat first (by omega)
  refine ⟨k, ⟨first.le, by omega⟩, ?_, fun i hi before stops => ?_, ?_⟩
  · exact (ends_iff.mp first.stops).imp_right And.left
  · exact first.earlier i hi before (ends_iff.mpr (.inl stops))
  · rw [send, loop, Nat.sub_add_cancel first.le]

/-- Once its request is built, a call does what its loop does; else it raises without a request. -/
theorem call_retries (self : Gateway E R D M) (attempts : 1 ≤ self.attempts)
    (server : ℕ → Req V → Except (Fault E) R) (caller : Caller V) (auth : Option String) :
    (∀ req, (self.build caller auth).1 = .ok req →
      ∃ k : ℕ, (1 ≤ k ∧ (k : ℤ) ≤ self.attempts) ∧
        (self.Stops (self.attempt server req k) ∨ (k : ℤ) = self.attempts) ∧
        (∀ i : ℕ, 1 ≤ i → i < k → ¬self.Stops (self.attempt server req i)) ∧
        (self.call server caller auth).1 =
          ⟨List.replicate k req, (List.range' 1 (k - 1)).map self.backoff,
            some (self.attempt server req k)⟩) ∧
    ∀ e, (self.build caller auth).1 = .error e →
      (self.call server caller auth).1 = ⟨[], [], some (.error e)⟩ := by
  constructor
  · intro req built
    rw [call_of_built built]
    exact send_retries self attempts server req
  · exact fun e raised => call_of_raised raised

theorem call_retries_second :
    let self : Gateway Empty ℕ ℕ ℕ := { decoder := some .ok }
    let server (attempt : ℕ) (_ : Req ℕ) : Except (Fault Empty) ℕ :=
      if attempt = 1 then .error (.clientResponseError 429) else .ok 7
    ∃ k : ℕ, (1 ≤ k ∧ (k : ℤ) ≤ self.attempts) ∧
      (self.call server {} none).1.sleeps = (List.range' 1 (k - 1)).map self.backoff := by
  intro self server
  obtain ⟨req, built⟩ : ∃ req : Req ℕ, (self.build {} none).1 = .ok req := ⟨_, rfl⟩
  obtain ⟨k, range, -, -, call⟩ := (call_retries self (by decide) server {} none).1 req built
  exact ⟨k, range, by rw [call]⟩

/-! ## What is sent -/

def promisedParams (self : Gateway E R D M) (caller : Caller V) : OrderedDict String V :=
  if self._method ∈ methodsWithoutBody then
    (caller.body.getD ∅).update (caller.params.getD ∅).items
  else caller.params.getD ∅

/-- Of the names that are `authorization` when case is ignored, the headers have one. -/
def OneAuthorization (headers : OrderedDict String String) (value : String) : Prop :=
  ∃ name, name.toLower = "authorization" ∧ headers.get? name = some value ∧
    ∀ other ∈ headers, other.toLower = "authorization" → other = name

def Promised (self : Gateway E R D M) (caller : Caller V) (auth : Option String) : Prop :=
  ∃ req, self.build caller auth = (.ok req, caller) ∧
    req.params.join.getD ∅ = self.promisedParams caller ∧
    (self._method ∉ methodsWithoutBody → req.json = some caller.body) ∧
    ∀ token, auth = some token → OneAuthorization req.headers ("Bearer " ++ token)

/-- Without a body of the request there are no params to add, or all of them stand in the body. -/
def ParamsFit (self : Gateway E R D M) (caller : Caller V) : Prop :=
  self._method ∈ methodsWithoutBody → ∀ params, caller.params = some params → params.items ≠ [] →
    ∃ body, caller.body = some body ∧ ∀ e ∈ params.items, body.get? e.1 = some e.2

/-- The caller's headers name authorization in lower case only; for an empty token, which is taken
for none, they have the promised header themselves. -/
def AuthFits (caller : Caller V) (token : String) : Prop :=
  if token = "" then OneAuthorization (caller.headers.getD ∅) "Bearer "
  else ∀ name ∈ caller.headers.getD ∅, name.toLower = "authorization" → name = "authorization"

def plainHeaders (caller : Caller V) : OrderedDict String String :=
  ((∅ : OrderedDict String String).assign "accept" "application/json").update
    (caller.headers.getD ∅).items

theorem get?_plainHeaders (caller : Caller V) {name : String}
    (h : name.toLower = "authorization") :
    (plainHeaders caller).get? name = (caller.headers.getD ∅).get? name := by
  have other : name ≠ "accept" := by
    rintro rfl
    revert h
    decide +kernel
  rw [plainHeaders, OrderedDict.get?_update (OrderedDict.nodup _),
    OrderedDict.get?_assign_of_ne _ other, OrderedDict.get?_empty, Option.or_none]
  rfl

theorem addHeaders_eq (caller : Caller V) (req : Req V)
    (h : req.headers = (∅ : OrderedDict String String).assign "accept" "application/json") :
    addHeaders caller.headers req = { req with headers := plainHeaders caller } := by
  rw [plainHeaders, ← h]
  cases caller.headers <;> rfl

theorem oneAuthorization_congr {headers headers' : OrderedDict String String}
    (same : ∀ name, name.toLower = "authorization" → headers.get? name = headers'.get? name)
    (value : String) : OneAuthorization headers value ↔ OneAuthorization headers' value := by
  have mem (name : String) (h : name.toLower = "authorization") :
      name ∈ headers ↔ name ∈ headers' := by
    rw [OrderedDict.mem_iff_get?, OrderedDict.mem_iff_get?, same name h]
  refine exists_congr fun name => and_congr_right fun h => ?_
  rw [same name h]
  refine and_congr_right fun _ => forall_congr' fun other => ?_
  exact ⟨fun only held h => only ((mem other h).mpr held) h,
    fun only held h => only ((mem other h).mp held) h⟩

theorem oneAuthorization_assign_iff {headers : OrderedDict String String} {value : String} :
    OneAuthorization (headers.assign "authorization" value) value ↔
      ∀ name ∈ headers, name.toLower = "authorization" → name = "authorization" := by
  have lower : "authorization".toLower = "authorization" := by decide +kernel
  have mem (name : String) :
      name ∈ headers.assign "authorization" value ↔ name = "authorization" ∨ name ∈ headers := by
    rw [OrderedDict.mem_iff_get?, OrderedDict.mem_iff_get?, OrderedDict.get?_assign]
    by_cases same : name = "authorization" <;> simp [same]
  constructor
  · rintro ⟨kept, -, -, only⟩ name held h
    rw [only name ((mem name).mpr (.inr held)) h,
      only "authorization" ((mem _).mpr (.inl rfl)) lower]
  · intro only
    refine ⟨"authorization", lower, OrderedDict.get?_assign_self _ _ _, fun other held h => ?_⟩
    exact ((mem other).mp held).elim id fun before => only other before h

theorem authorized_iff (caller : Caller V) (token : String) (req : Req V)
    (h : req.headers = (∅ : OrderedDict String String).assign "accept" "application/json") :
    OneAuthorization (addAuth (some token) (addHeaders caller.headers req)).headers
      ("Bearer " ++ token) ↔ AuthFits caller token := by
  rw [addHeaders_eq caller req h, AuthFits, addAuth]
  by_cases empty : token = ""
  · rw [if_pos empty, if_pos empty, empty, String.append_empty]
    exact oneAuthorization_congr (fun name => get?_plainHeaders caller) _
  · rw [if_neg empty, if_neg empty, oneAuthorization_assign_iff]
    refine forall_congr' fun name => ?_
    rw [OrderedDict.mem_iff_get?, OrderedDict.mem_iff_get?]
    refine ⟨fun only held h => only ?_ h, fun only held h => only ?_ h⟩
    · rwa [get?_plainHeaders caller h]
    · rwa [get?_plainHeaders caller h] at held

theorem addParams_of_falsy {caller : Caller V} (falsy : ∀ params, caller.params = some params →
    params.items = []) (req : Req V) : addParams (E := E) req caller = (.ok req, caller) := by
  cases hparams : caller.params with
  | none => simp only [addParams, hparams]
  | some params => simp only [addParams, hparams, falsy params hparams, List.isEmpty_nil, if_true]

theorem promisedParams_of_falsy {caller : Caller V} (falsy : ∀ params, caller.params = some params →
    params.items = []) : self.promisedParams caller =
      if self._method ∈ methodsWithoutBody then caller.body.getD ∅ else ∅ := by
  have empty : caller.params.getD ∅ = ∅ := by
    cases hparams : caller.params with
    | none => rfl
    | some params => exact OrderedDict.ext (falsy params hparams)
  rw [promisedParams, empty]
  rfl

theorem addParams_of_body {caller : Caller V} {req : Req V} {params body : OrderedDict String V}
    (given : caller.params = some params) (some_params : params.items ≠ [])
    (hbody : caller.body = some body) (h : req.params = some caller.body) :
    addParams (E := E) req caller =
      (.ok { req with params := some (some (body.update params.items)) },
        { caller with body := some (body.update params.items) }) := by
  have truthy : params.items.isEmpty = false := by simpa using some_params
  simp [addParams, given, truthy, h, hbody]

theorem paramsFit_iff_update {caller : Caller V} {params body : OrderedDict String V}
    (bodyless : self._method ∈ methodsWithoutBody) (given : caller.params = some params)
    (some_params : params.items ≠ []) (hbody : caller.body = some body) :
    self.ParamsFit caller ↔ body.update params.items = body := by
  rw [OrderedDict.update_eq_self_iff params.nodup]
  constructor
  · intro fits
    obtain ⟨body', hold, held⟩ := fits bodyless params given some_params
    rw [hbody] at hold
    cases hold
    exact held
  · intro held _ params' given' _
    rw [given] at given'
    cases given'
    exact ⟨body, hbody, held⟩

theorem addParams_spec (self : Gateway E R D M) (caller : Caller V) (req : Req V)
    (h : req.params = if self._method ∈ methodsWithoutBody then some caller.body else none) :
    (self.ParamsFit caller → ∃ params,
      addParams (E := E) req caller = (.ok { req with params := params }, caller) ∧
        params.join.getD ∅ = self.promisedParams caller) ∧
    (¬self.ParamsFit caller → ∀ built, addParams (E := E) req caller ≠ (.ok built, caller)) := by
  by_cases falsy : ∀ params, caller.params = some params → params.items = []
  · refine ⟨fun _ => ⟨req.params, addParams_of_falsy falsy req, ?_⟩, fun unfit => ?_⟩
    · rw [promisedParams_of_falsy falsy, h]
      split_ifs <;> rfl
    · exact absurd (fun _ params given some => absurd (falsy params given) some) unfit
  · push Not at falsy
    obtain ⟨params, given, some_params⟩ := falsy
    have truthy : params.items.isEmpty = false := by simpa using some_params
    by_cases bodyless : self._method ∈ methodsWithoutBody
    · rw [if_pos bodyless] at h
      cases hbody : caller.body with
      | none =>
        have raises : addParams (E := E) req caller = (.error .attributeError, caller) := by
          simp [addParams, given, truthy, h, hbody]
        refine ⟨fun fits => ?_, fun _ built => by simp [raises]⟩
        obtain ⟨body, hold, -⟩ := fits bodyless params given some_params
        rw [hbody] at hold
        cases hold
      | some body =>
        rw [addParams_of_body given some_params hbody h,
          paramsFit_iff_update bodyless given some_params hbody]
        constructor
        · intro same
          exact ⟨some (some (body.update params.items)), by rw [same, ← hbody],
            by simp [promisedParams, bodyless, hbody, given]⟩
        · intro changed built kept
          have unchanged := congrArg (Caller.body ∘ Prod.snd) kept
          simp only [Function.comp_apply, hbody, Option.some.injEq] at unchanged
          exact changed unchanged
    · rw [if_neg bodyless] at h
      refine ⟨fun _ => ⟨some (some params), ?_, ?_⟩, fun unfit => ?_⟩
      · simp [addParams, given, truthy, h]
      · simp [promisedParams, bodyless, given]
      · exact absurd (fun bodyless' => absurd bodyless' bodyless) unfit

theorem base_params (self : Gateway E R D M) (caller : Caller V) : (self.base caller).params =
    if self._method ∈ methodsWithoutBody then some caller.body else none := by
  rw [base]
  split_ifs <;> rfl

theorem base_headers (self : Gateway E R D M) (caller : Caller V) : (self.base caller).headers =
    (∅ : OrderedDict String String).assign "accept" "application/json" := by
  rw [base]
  split_ifs <;> rfl

theorem base_json (h : self._method ∉ methodsWithoutBody) (caller : Caller V) :
    (self.base caller).json = some caller.body := by
  rw [base, if_neg h]

theorem addAuth_addHeaders (auth : Option String) (headers : Option (OrderedDict String String))
    (req : Req V) :
    ∃ sent, addAuth auth (addHeaders headers req) = { req with headers := sent } := by
  rcases auth with _ | auth <;> rcases headers with _ | headers <;>
    simp only [addAuth, addHeaders]
  · exact ⟨_, rfl⟩
  · exact ⟨_, rfl⟩
  · split_ifs <;> exact ⟨_, rfl⟩
  · split_ifs <;> exact ⟨_, rfl⟩

/-- A call builds the request of the docstring and leaves the caller's dictionaries alone, exactly
if the params fit the body and the auth the headers. -/
theorem build_promised_iff (self : Gateway E R D M) (caller : Caller V) (auth : Option String) :
    self.Promised caller auth ↔
      self.ParamsFit caller ∧ ∀ token, auth = some token → AuthFits caller token := by
  obtain ⟨fits, unfit⟩ := addParams_spec self caller (self.base caller) (base_params self caller)
  by_cases fit : self.ParamsFit caller
  · obtain ⟨params, added, promised⟩ := fits fit
    have built : self.build caller auth = (.ok (addAuth auth (addHeaders caller.headers
        { self.base caller with params := params })), caller) := by
      rw [build, added]
      rfl
    obtain ⟨sent, hsent⟩ := addAuth_addHeaders auth caller.headers
      { self.base caller with params := params }
    rw [and_iff_right fit]
    constructor
    · rintro ⟨req, hreq, -, -, authorized⟩ token rfl
      rw [built] at hreq
      cases hreq
      exact (authorized_iff caller token { self.base caller with params := params }
        (base_headers self caller)).mp (authorized token rfl)
    · intro authorized
      refine ⟨_, built, ?_, fun bodied => ?_, ?_⟩
      · rw [hsent]
        exact promised
      · rw [hsent]
        exact base_json bodied caller
      · rintro token rfl
        exact (authorized_iff caller token { self.base caller with params := params }
          (base_headers self caller)).mpr (authorized token rfl)
  · refine iff_of_false ?_ fun h => fit h.1
    rintro ⟨req, hreq, -⟩
    rcases added : addParams (E := E) (self.base caller) caller with ⟨e | built, caller'⟩
    · rw [build, added] at hreq
      cases hreq
    · rw [build, added] at hreq
      have same : caller' = caller := congrArg Prod.snd hreq
      exact unfit fit built (same ▸ added)

/-- Params for a method without a body, and no body: `update` of None raises. -/
theorem build_not_promised :
    ¬ ∀ (self : Gateway Empty ℕ ℕ ℕ) (caller : Caller ℕ) (auth : Option String),
      self.Promised caller auth := by
  intro all
  obtain ⟨req, built, -⟩ := all { decoder := some .ok }
    { params := some ((∅ : OrderedDict String ℕ).assign "page" 2) } none
  have raised : ((({ decoder := some .ok } : Gateway Empty ℕ ℕ ℕ).build
      { params := some ((∅ : OrderedDict String ℕ).assign "page" 2) } none).1.toOption) = none := by
    decide +kernel
  rw [built] at raised
  cases raised

end Gateway

end KhCommon
