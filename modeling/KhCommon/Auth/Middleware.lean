import KhCommon.Auth.Soundness
import KhCommon.Lib.Outcome
import Mathlib.Data.Finset.Union

/-! `KhAuthMiddleware`: the credential is the last word of the `Authorization`
header, or of the `kh-auth` cookie when there is no header; the exceptions of
`retrieveAuthToken` are answered, passed over or let through. The wrapped app is a
parameter; an answer lists what was done and gives the state of both caches. The
app is reached with a token only when `verifyToken` returned that token for the
credential of this request. -/

namespace KhCommon.Auth

open Python Outcome

/-- What `json.loads` returns. -/
inductive Json
  | null
  | bool (value : Bool)
  | number (value : ℚ)
  | str (value : Str)
  | list (items : List Json)
  | dict (items : List (Str × Json))

inductive Scope
  | default | bot | user | mod | admin | internal
  deriving DecidableEq

def Scope.name : Scope → Str
  | default => literal "default"
  | bot => literal "bot"
  | user => literal "user"
  | mod => literal "mod"
  | admin => literal "admin"
  | internal => literal "internal"

def Scope.members : List Scope := [default, bot, user, mod, admin, internal]

/-- `Scope.__getitem__`; a list and a dict are not hashable. -/
def Scope.getitem : Json → Except Exc Scope
  | .str name =>
    match members.find? fun scope => scope.name = name with
    | some scope => .ok scope
    | none => .error .keyError
  | .list _ => .error .typeError
  | .dict _ => .error .typeError
  | _ => .error .keyError

def Json.get (data : Json) (key : Str) (default : Json) : Except Exc Json :=
  match data with
  | .dict items => .ok ((items.lookup key).getD default)
  | _ => .error .attributeError

def Json.iter : Json → Except Exc (List Json)
  | .str value => .ok (value.map fun c => .str [c])
  | .list items => .ok items
  | .dict items => .ok (items.map fun item => .str item.1)
  | _ => .error .typeError

structure KhUser where
  userId : Option ℕ
  token : Option (AuthToken Json)
  scope : Finset Scope

def KhUser.anonymous : KhUser := ⟨none, none, {.default}⟩

/-- `map(Scope.__getitem__, token_data.data.get('scope', []))`. -/
def tokenScopes (data : Json) : Except Exc (List Scope) := do
  let value ← data.get (literal "scope") (.list [])
  let names ← value.iter
  names.mapM Scope.getitem

def KhUser.ofToken (token : AuthToken Json) : Except Exc KhUser := do
  let scopes ← tokenScopes token.data
  return ⟨some token.userId, some token, {.user} ∪ scopes.toFinset⟩

inductive RequestType
  | http | websocket | other
  deriving DecidableEq

/-- What is read of the request: `request.url.path`, which starlette builds with the `Host` header,
the `Authorization` header and the `kh-auth` cookie. -/
structure Request where
  type : RequestType
  path : Str
  authorization : Option Str
  khAuth : Option Str

variable {PublicKey : Type}

abbrev Caches (PublicKey : Type) := TokenCache Json × KeyCache PublicKey

structure Readings where
  now : ℚ
  stored : ℚ

/-- `request.headers.get('Authorization') or request.cookies.get('kh-auth')`. -/
def Request.credential (request : Request) : Option Str :=
  match request.authorization with
  | some (c :: token) => some (c :: token)
  | _ => request.khAuth

def retrieveAuthToken (env : Env PublicKey Json) (caches : Caches PublicKey) (readings : Readings)
    (request : Request) : Except Exc (AuthToken Json) × Caches PublicKey :=
  match request.credential with
  | some (c :: token) =>
    match (split (c :: token)).getLast? with
    | some word => verifyToken env caches ⟨word, readings.now, readings.stored⟩
    | none => (.error .indexError, caches)
  | _ => (.error (.unauthorized "An authentication token was not provided."), caches)

/-! ## The middleware -/

structure HttpError where
  name : String
  status : ℕ
  message : String

def badRequest (message : String) : HttpError := ⟨"BadRequest", 400, message⟩

def unauthorized (message : String) : HttpError := ⟨"Unauthorized", 401, message⟩

structure Response where
  status : ℕ
  error : String

def jsonErrorHandler (e : HttpError) : Response := ⟨e.status, e.name ++ ": " ++ e.message⟩

/-- `await self.app(..)`, with `scope['user']` if it is set, or `await response(..)`. -/
inductive Action
  | app (user : Option KhUser)
  | respond (response : Response)

def Action.isApp : Action → Bool
  | app _ => true
  | respond _ => false

structure Answer (PublicKey : Type) where
  actions : List Action
  result : Except Exc Unit
  caches : Caches PublicKey

structure KhAuthMiddleware where
  app : Option KhUser → Except Exc Unit
  authRequired : Bool

namespace KhAuthMiddleware

variable (middleware : KhAuthMiddleware)

def invoke (user : Option KhUser) (caches : Caches PublicKey) : Answer PublicKey :=
  ⟨[.app user], middleware.app user, caches⟩

def respond (response : Response) (caches : Caches PublicKey) : Answer PublicKey :=
  ⟨[.respond response], .ok (), caches⟩

/-- The `try` and what follows it, for the outcome of `retrieveAuthToken`. -/
def conclude (caches : Caches PublicKey) : Except Exc KhUser → Answer PublicKey
  | .ok user => middleware.invoke (some user) caches
  | .error (.invalidToken message) => respond (jsonErrorHandler (badRequest message)) caches
  | .error (.unauthorized message) =>
    if middleware.authRequired then respond (jsonErrorHandler (unauthorized message)) caches
    else middleware.invoke (some .anonymous) caches
  | .error .httpError => middleware.invoke (some .anonymous) caches
  | .error e => ⟨[], .error e, caches⟩

def call (env : Env PublicKey Json) (caches : Caches PublicKey) (readings : Readings)
    (request : Request) : Answer PublicKey :=
  if request.type = .other then ⟨[], .error .other, caches⟩
  else if request.path = literal "/openapi.json" then middleware.invoke none caches
  else
    let (tokenData, caches) := retrieveAuthToken env caches readings request
    middleware.conclude caches (tokenData.bind KhUser.ofToken)

end KhAuthMiddleware

/-! ## Scopes -/

theorem Scope.getitem_eq_ok {x : Json} {scope : Scope} :
    Scope.getitem x = .ok scope ↔ x = .str scope.name := by
  constructor
  · intro h
    cases x with
    | str name =>
      rw [Scope.getitem] at h
      cases hfind : members.find? fun scope => scope.name = name with
      | none => simp [hfind] at h
      | some found =>
        simp only [hfind, Except.ok.injEq] at h
        have same := List.find?_some hfind
        rw [← of_decide_eq_true same, h]
    | _ => simp [Scope.getitem] at h
  · rintro rfl
    cases scope <;> decide

theorem mapM_getitem_eq_ok {names : List Json} {scopes : List Scope} :
    names.mapM Scope.getitem = .ok scopes ↔ names = scopes.map fun scope => .str scope.name := by
  induction names generalizing scopes with
  | nil =>
    constructor
    · intro h
      cases h
      rfl
    · intro h
      rw [List.map_eq_nil_iff.mp h.symm]
      rfl
  | cons name names ih =>
    rw [List.mapM_cons, bind_eq_ok]
    constructor
    · rintro ⟨scope, hscope, h⟩
      obtain ⟨scopes', hscopes, h⟩ := bind_eq_ok.mp h
      cases h
      rw [List.map_cons, ← Scope.getitem_eq_ok.mp hscope, ← ih.mp hscopes]
    · intro h
      cases scopes with
      | nil => simp at h
      | cons scope scopes =>
        rw [List.map_cons, List.cons.injEq] at h
        exact ⟨scope, Scope.getitem_eq_ok.mpr h.1, bind_eq_ok.mpr ⟨scopes, ih.mpr h.2, rfl⟩⟩

theorem Scope.name_injective : Function.Injective fun scope : Scope => Json.str scope.name := by
  intro a b same
  have := Scope.getitem_eq_ok.mpr same
  rw [Scope.getitem_eq_ok.mpr rfl, Except.ok.injEq] at this
  exact this

def Json.Names (data : Json) (scope : Scope) : Prop :=
  ∃ items value names, data = .dict items ∧ items.lookup (literal "scope") = some value ∧
    value.iter = .ok names ∧ .str scope.name ∈ names

theorem tokenScopes_eq_ok {data : Json} {scopes : List Scope} (h : tokenScopes data = .ok scopes)
    (scope : Scope) : scope ∈ scopes ↔ data.Names scope := by
  obtain ⟨value, hget, h⟩ := bind_eq_ok.mp h
  obtain ⟨names, hiter, h⟩ := bind_eq_ok.mp h
  rw [← List.mem_map_of_injective Scope.name_injective, ← mapM_getitem_eq_ok.mp h]
  cases data with
  | dict items =>
    simp only [Json.get, Except.ok.injEq] at hget
    constructor
    · intro hmem
      cases hlookup : items.lookup (literal "scope") with
      | none =>
        rw [hlookup, Option.getD_none] at hget
        subst hget
        cases hiter
        cases hmem
      | some value' =>
        rw [hlookup, Option.getD_some] at hget
        exact ⟨items, value', names, rfl, hlookup, hget ▸ hiter, hmem⟩
    · rintro ⟨items', value', names', hdata, hlookup, hiter', hmem⟩
      cases hdata
      rw [hlookup, Option.getD_some] at hget
      rw [← hget, hiter', Except.ok.injEq] at hiter
      exact hiter ▸ hmem
  | _ => simp [Json.get] at hget

theorem KhUser.ofToken_eq_ok {token : AuthToken Json} {user : KhUser}
    (h : KhUser.ofToken token = .ok user) :
    user.userId = some token.userId ∧ user.token = some token ∧
      ∀ scope, scope ∈ user.scope ↔ scope = .user ∨ token.data.Names scope := by
  obtain ⟨scopes, hscopes, h⟩ := bind_eq_ok.mp h
  cases h
  refine ⟨rfl, rfl, fun scope => ?_⟩
  rw [Finset.mem_union, Finset.mem_singleton, List.mem_toFinset, tokenScopes_eq_ok hscopes]

theorem raises_ofToken {E : Exc → Prop} (token : AuthToken Json) (noAttribute : E .attributeError)
    (noType : E .typeError) (noKey : E .keyError) : Raises E (KhUser.ofToken token) := by
  have get (data default : Json) (name : Str) : Raises E (data.get name default) := by
    cases data <;> first | exact noAttribute | trivial
  have iter (value : Json) : Raises E value.iter := by
    cases value <;> first | exact noType | trivial
  have getitem (name : Json) : Raises E (Scope.getitem name) := by
    cases name with
    | str name =>
      rw [Scope.getitem]
      split
      · trivial
      · exact noKey
    | list items => exact noType
    | dict items => exact noType
    | _ => exact noKey
  have getitems (names : List Json) : Raises E (names.mapM Scope.getitem) := by
    induction names with
    | nil => trivial
    | cons name names ih =>
      rw [List.mapM_cons]
      exact (getitem name).bind fun _ => ih.bind fun _ => trivial
  exact ((get _ _ _).bind fun value => (iter value).bind getitems).bind fun _ => trivial

/-! ## The credential -/

/-- The credential is the header if there is one, and else the cookie; its last word counts. -/
def Presents (request : Request) (word : Str) : Prop :=
  ∃ credential, Split.LastWord isSpace credential word ∧
    ((request.authorization = some credential ∧ credential ≠ []) ∨
      ((request.authorization = none ∨ request.authorization = some []) ∧
        request.khAuth = some credential))

theorem credential_eq_some_iff {request : Request} {credential : Str} :
    request.credential = some credential ↔
      (request.authorization = some credential ∧ credential ≠ []) ∨
        ((request.authorization = none ∨ request.authorization = some []) ∧
          request.khAuth = some credential) := by
  rcases hheader : request.authorization with _ | ⟨_ | ⟨c, token⟩⟩
  · simp [Request.credential, hheader]
  · simp [Request.credential, hheader]
  · simp only [Request.credential, hheader, Option.some.injEq, reduceCtorEq, or_self, false_and,
      or_false]
    exact ⟨fun h => ⟨h, h ▸ List.cons_ne_nil c token⟩, And.left⟩

theorem Presents.credential {request : Request} {word : Str} (h : Presents request word) :
    ∃ c token, request.credential = some (c :: token) ∧
      (split (c :: token)).getLast? = some word := by
  obtain ⟨credential, last, given⟩ := h
  have hlast : (split credential).getLast? = some word := last.getLast?_words
  cases credential with
  | nil => simp [split, Split.words] at hlast
  | cons c token => exact ⟨c, token, credential_eq_some_iff.mpr given, hlast⟩

theorem Presents.unique {request : Request} {word word' : Str} (h : Presents request word)
    (h' : Presents request word') : word = word' := by
  obtain ⟨c, token, given, last⟩ := h.credential
  obtain ⟨c', token', given', last'⟩ := h'.credential
  rw [given, Option.some.injEq] at given'
  rw [given', last', Option.some.injEq] at last
  exact last.symm

theorem retrieveAuthToken_of_presents {request : Request} {word : Str}
    (h : Presents request word) (env : Env PublicKey Json) (caches : Caches PublicKey)
    (readings : Readings) :
    retrieveAuthToken env caches readings request =
      verifyToken env caches ⟨word, readings.now, readings.stored⟩ := by
  obtain ⟨c, token, given, last⟩ := h.credential
  simp only [retrieveAuthToken, given, last]

theorem retrieveAuthToken_of_not_presents {request : Request}
    (h : ∀ word, ¬Presents request word) (env : Env PublicKey Json) (caches : Caches PublicKey)
    (readings : Readings) :
    (retrieveAuthToken env caches readings request).1 =
      .error (if request.credential = none ∨ request.credential = some [] then
        .unauthorized "An authentication token was not provided." else .indexError) := by
  rcases hcredential : request.credential with _ | ⟨_ | ⟨c, token⟩⟩
  · simp [retrieveAuthToken, hcredential]
  · simp [retrieveAuthToken, hcredential]
  · cases hlast : (split (c :: token)).getLast? with
    | none => simp [retrieveAuthToken, hcredential, hlast]
    | some word =>
      exact absurd ⟨c :: token, Split.getLast?_words_eq_some_iff.mp hlast,
        credential_eq_some_iff.mp hcredential⟩ (h word)

theorem retrieveAuthToken_eq_ok {env : Env PublicKey Json} {caches : Caches PublicKey}
    {readings : Readings} {request : Request} {token : AuthToken Json}
    (h : (retrieveAuthToken env caches readings request).1 = .ok token) :
    ∃ word, Presents request word ∧
      (verifyToken env caches ⟨word, readings.now, readings.stored⟩).1 = .ok token := by
  by_cases presents : ∃ word, Presents request word
  · obtain ⟨word, hword⟩ := presents
    rw [retrieveAuthToken_of_presents hword] at h
    exact ⟨word, hword, h⟩
  · rw [retrieveAuthToken_of_not_presents (not_exists.mp presents)] at h
    cases h

end KhCommon.Auth
