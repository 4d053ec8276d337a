import KhCommon.Auth.FailClosed
import KhCommon.Cors

/-! `ServerApp`: the middleware in the order in which a request passes it, which is the
reverse of the order in which it is added: authentication, the trusted hosts, CORS,
the custom headers, the routes. The routes and `TrustedHostMiddleware` are
parameters, and so is the answer of `ServerErrorMiddleware`, which FastAPI puts outside
all others. Authentication comes before CORS, so a request without a token is
refused before anything looks at its origin, a preflight like any other. -/

namespace KhCommon.Server

open Python Auth Cors

structure Request where
  type : RequestType
  path : Str
  method : Str
  headers : Headers
  khAuth : Option Str

def Request.auth (request : Request) : Auth.Request where
  type := request.type
  path := request.path
  authorization := header request.headers "authorization"
  khAuth := request.khAuth

def Request.cors (request : Request) : Cors.Request where
  isHttp := request.type = .http
  method := request.method
  headers := request.headers

/-- The arguments; an empty list of hosts leaves the check of the host out. -/
structure ServerApp where
  auth : Bool := true
  authRequired : Bool := true
  cors : Bool := true
  maxAge : ℕ := 86400
  customHeaders : Bool := true
  allowedHosts : List Str := ["localhost", "127.0.0.1", "*.fuzz.ly", "fuzz.ly"].map literal
  allowedOrigins : List Str := ["localhost", "127.0.0.1", "dev.fuzz.ly", "fuzz.ly"].map literal
  allowedMethods : List String := ["GET", "POST"]
  allowedHeaders : List String :=
    ["accept", "accept-language", "authorization", "cache-control", "content-encoding",
      "content-language", "content-length", "content-security-policy", "content-type", "cookie",
      "host", "location", "referer", "referrer-policy", "set-cookie", "user-agent",
      "www-authenticate", "x-frame-options", "x-xss-protection"]
  exposedHeaders : List String :=
    ["authorization", "cache-control", "content-type", "cookie", "set-cookie", "www-authenticate"]

/-- What happens on the way: the routes are reached, with the user that is in the scope, or a
response is sent. -/
inductive Event
  | routed (user : Option KhUser)
  | sent (response : Cors.Response)

def Event.isSent : Event → Bool
  | .routed _ => false
  | .sent _ => true

structure Ran where
  events : List Event
  result : Except Exc Unit

abbrev App := Option KhUser → Ran

/-- What is not in the repository: `environment.is_local()`, `HeadersToSet`, `urlparse`, what
`TrustedHostMiddleware` answers instead of the app, what the routes send, and what
`ServerErrorMiddleware` sends of an exception. -/
structure World where
  isLocal : Bool
  headersToSet : List (String × String)
  urlparse : Str → Option ParseResult
  refid : String
  trustedHost : List Str → Request → Option Cors.Response
  routes : Request → Option KhUser → List Cors.Response × Except Exc Unit
  serverError : Cors.Response

namespace ServerApp

variable (self : ServerApp) (world : World) (request : Request)

def corsMiddleware : KhCorsMiddleware :=
  KhCorsMiddleware.init self.allowedOrigins
    ((if world.isLocal then ["http", "https"] else ["https"]).map literal) self.allowedHeaders
    self.allowedMethods true
    (self.exposedHeaders ++
      if self.customHeaders then world.headersToSet.map Prod.fst else [])
    self.maxAge

def routed : App := fun user =>
  ⟨.routed user :: (world.routes request user).1.map .sent, (world.routes request user).2⟩

def Ran.mapSent (f : Cors.Response → Cors.Response) (ran : Ran) : Ran :=
  { ran with events := ran.events.map fun
      | .routed user => .routed user
      | .sent response => .sent (f response) }

/-- `response.headers.update(HeadersToSet)`, of http alone. -/
def customHeaderMiddleware (app : App) : App := fun user =>
  if self.customHeaders ∧ request.type = .http then
    Ran.mapSent (fun response => { response with
      headers := world.headersToSet.foldl
        (fun headers entry =>
          KhCorsMiddleware.setHeader (literal entry.1) (literal entry.2) headers)
        response.headers }) (app user)
  else app user

def sendResponse (cors : KhCorsMiddleware) (origin : Str) (response : Cors.Response) :
    Cors.Response :=
  match cors.send origin (.start response.status (some response.headers)) with
  | .start status headers => ⟨status, headers.getD [], response.body⟩
  | .other => response

def corsLayer (app : App) : App := fun user =>
  if self.cors then
    let cors := self.corsMiddleware world
    match cors.call world.urlparse world.refid request.cors with
    | .error e => ⟨[], .error e⟩
    | .ok (.respond response) => ⟨[.sent response], .ok ()⟩
    | .ok (.app none) => app user
    | .ok (.app (some origin)) => Ran.mapSent (sendResponse cors origin) (app user)
  else app user

def hostLayer (app : App) : App := fun user =>
  if self.allowedHosts ≠ [] then
    match world.trustedHost self.allowedHosts request with
    | some response => ⟨[.sent response], .ok ()⟩
    | none => app user
  else app user

def inner : App :=
  self.hostLayer world request
    (self.corsLayer world request
      (self.customHeaderMiddleware world request (routed world request)))

/-- An exception is answered unless something has been sent, and leaves all the same. -/
def serverErrorMiddleware (ran : Ran) : Ran :=
  match ran.result with
  | .ok () => ran
  | .error e =>
    if request.type = .http ∧ !ran.events.any Event.isSent then
      ⟨ran.events ++ [.sent world.serverError], .error e⟩
    else ran

variable {PublicKey : Type}

def handle (env : Env PublicKey Json) (caches : Caches PublicKey) (readings : Readings) :
    Ran × Caches PublicKey :=
  if self.auth then
    let app := self.inner world request
    let middleware : KhAuthMiddleware := ⟨fun user => (app user).result, self.authRequired⟩
    let answer := middleware.call env caches readings request.auth
    (serverErrorMiddleware world request ⟨answer.actions.flatMap fun
        | .app user => (app user).events
        | .respond response => [.sent (jsonResponse world.refid response)], answer.result⟩,
      answer.caches)
  else (serverErrorMiddleware world request (self.inner world request none), caches)

/-! ## Behind the authentication -/

def PassesHost : Prop :=
  self.allowedHosts ≠ [] → world.trustedHost self.allowedHosts request = none

def PassesCors : Prop :=
  self.cors = true → ∀ origin, header request.headers "origin" = some origin →
    ∃ url, world.urlparse origin = some url ∧ (self.corsMiddleware world).allows url ∧
      ¬(request.method = literal "OPTIONS" ∧
        (header request.headers "access-control-request-method").isSome)

def Carries (origin : Str) (response : Cors.Response) : Prop :=
  ∀ entry ∈ (self.corsMiddleware world).corsHeaders origin,
    response.headers.filter (fun e => e.1 = entry.1) = [entry]

variable {self world request}

theorem routed_mem_mapSent {f : Cors.Response → Cors.Response} {ran : Ran}
    {user : Option KhUser} :
    .routed user ∈ (Ran.mapSent f ran).events ↔ .routed user ∈ ran.events := by
  simp only [Ran.mapSent, List.mem_map]
  constructor
  · rintro ⟨event, mem, same⟩
    cases event with
    | routed user' => exact same ▸ mem
    | sent response => cases same
  · exact fun mem => ⟨_, mem, rfl⟩

theorem sent_mem_mapSent {f : Cors.Response → Cors.Response} {ran : Ran}
    {response : Cors.Response} (mem : .sent response ∈ (Ran.mapSent f ran).events) :
    ∃ inside, response = f inside := by
  simp only [Ran.mapSent, List.mem_map] at mem
  obtain ⟨event, -, same⟩ := mem
  cases event with
  | routed user => cases same
  | sent inside => exact ⟨inside, (Event.sent.inj same).symm⟩

theorem routed_mem_routed {user user' : Option KhUser} :
    .routed user' ∈ (routed world request user).events ↔ user' = user := by
  simp [routed]

theorem routed_mem_customHeader {app : App} {user user' : Option KhUser} :
    .routed user' ∈ (self.customHeaderMiddleware world request app user).events ↔
      .routed user' ∈ (app user).events := by
  unfold customHeaderMiddleware
  split_ifs
  · exact routed_mem_mapSent
  · exact Iff.rfl

theorem corsLayer_cases (self : ServerApp) (world : World) (http : request.type = .http)
    (app : App) (user : Option KhUser) :
    (self.PassesCors world request ∧
      (self.corsLayer world request app user = app user ∧
          (self.cors = true → header request.headers "origin" = none) ∨
        ∃ origin, header request.headers "origin" = some origin ∧
          self.corsLayer world request app user =
            Ran.mapSent (sendResponse (self.corsMiddleware world) origin) (app user))) ∨
    (¬self.PassesCors world request ∧
      ∀ user', .routed user' ∉ (self.corsLayer world request app user).events) := by
  unfold corsLayer PassesCors
  split_ifs with cors
  · cases given : header request.headers "origin" with
    | none =>
      left
      simp [KhCorsMiddleware.call, Request.cors, http, given]
    | some origin =>
      cases parsed : world.urlparse origin with
      | none =>
        right
        simp [KhCorsMiddleware.call, Request.cors, http, given, parsed, cors]
      | some url =>
        by_cases allowed : (self.corsMiddleware world).allows url = true
        · by_cases preflight : request.method = literal "OPTIONS" ∧
            (header request.headers "access-control-request-method").isSome = true
          · right
            simp [KhCorsMiddleware.call, Request.cors, http, given, parsed, allowed, preflight,
              cors]
          · left
            simp [KhCorsMiddleware.call, Request.cors, http, given, parsed, allowed, preflight]
        · right
          simp [KhCorsMiddleware.call, Request.cors, http, given, parsed, allowed, cors]
  · exact .inl ⟨fun on => absurd on cors, .inl ⟨rfl, fun on => absurd on cors⟩⟩

theorem routed_mem_inner (http : request.type = .http) {user user' : Option KhUser} :
    .routed user' ∈ (self.inner world request user).events ↔
      self.PassesHost world request ∧ self.PassesCors world request ∧ user' = user := by
  have behindHost : .routed user' ∈ (self.corsLayer world request
      (self.customHeaderMiddleware world request (routed world request)) user).events ↔
        self.PassesCors world request ∧ user' = user := by
    rcases corsLayer_cases self world http _ user with
      ⟨passes, ⟨same, -⟩ | ⟨origin, -, same⟩⟩ | ⟨stopped, never⟩
    · rw [same, routed_mem_customHeader, routed_mem_routed]
      exact (and_iff_right passes).symm
    · rw [same, routed_mem_mapSent, routed_mem_customHeader, routed_mem_routed]
      exact (and_iff_right passes).symm
    · exact iff_of_false (never user') fun h => stopped h.1
  unfold inner hostLayer PassesHost
  split_ifs with hosts
  · cases trusted : world.trustedHost self.allowedHosts request with
    | some response => simp [hosts]
    | none => simpa [hosts, trusted] using behindHost
  · simpa [hosts] using behindHost

theorem carries_sendResponse (origin : Str) (response : Cors.Response) :
    self.Carries world origin (sendResponse (self.corsMiddleware world) origin response) := by
  obtain ⟨sent, sends, once⟩ := KhCorsMiddleware.send_corsHeaders (self.corsMiddleware world) origin
    response.status (some response.headers)
  intro entry mem
  rw [sendResponse, sends]
  exact once entry mem

theorem carries_inner (http : request.type = .http) (cors : self.cors = true) {origin : Str}
    (given : header request.headers "origin" = some origin) {user user' : Option KhUser}
    (reached : .routed user' ∈ (self.inner world request user).events) {response : Cors.Response}
    (mem : .sent response ∈ (self.inner world request user).events) :
    self.Carries world origin response := by
  obtain ⟨host, passes, -⟩ := (routed_mem_inner http).mp reached
  have behind : self.inner world request user = self.corsLayer world request
      (self.customHeaderMiddleware world request (routed world request)) user := by
    unfold inner hostLayer
    split_ifs with hosts
    · rw [host hosts]
    · rfl
  rw [behind] at mem
  rcases corsLayer_cases self world http _ user with
    ⟨-, ⟨-, none⟩ | ⟨origin', given', same⟩⟩ | ⟨stopped, -⟩
  · rw [none cors] at given
    cases given
  · rw [given, Option.some.injEq] at given'
    rw [same] at mem
    obtain ⟨inside, rfl⟩ := sent_mem_mapSent mem
    exact given' ▸ carries_sendResponse origin inside
  · exact absurd passes stopped

/-! ## From outside -/

theorem serverErrorMiddleware_cases (world : World) (request : Request) (ran : Ran) :
    serverErrorMiddleware world request ran = ran ∨
      ∃ e, ran.result = .error e ∧ serverErrorMiddleware world request ran =
        ⟨ran.events ++ [.sent world.serverError], .error e⟩ := by
  unfold serverErrorMiddleware
  cases result : ran.result with
  | ok _ => exact .inl rfl
  | error e =>
    dsimp only
    split_ifs
    · exact .inr ⟨e, rfl, rfl⟩
    · exact .inl rfl

theorem serverErrorMiddleware_left (http : request.type = .http) (e : Exc) :
    serverErrorMiddleware world request ⟨[], .error e⟩ = ⟨[.sent world.serverError], .error e⟩ := by
  simp [serverErrorMiddleware, http]

theorem routed_mem_serverError {ran : Ran} {user : Option KhUser} :
    .routed user ∈ (serverErrorMiddleware world request ran).events ↔
      .routed user ∈ ran.events := by
  rcases serverErrorMiddleware_cases world request ran with same | ⟨e, -, same⟩ <;> simp [same]

def Accepts {PublicKey : Type} (request : Request) (env : Env PublicKey Json)
    (caches : Caches PublicKey) (readings : Readings) (token : AuthToken Json) : Prop :=
  ∃ word, Presents request.auth word ∧
    (verifyToken env caches ⟨word, readings.now, readings.stored⟩).1 = .ok token

variable {PublicKey : Type} {env : Env PublicKey Json} {caches : Caches PublicKey}
  {readings : Readings}

theorem retrieves_iff {token : AuthToken Json} :
    (retrieveAuthToken env caches readings request.auth).1 = .ok token ↔
      Accepts request env caches readings token := by
  refine ⟨retrieveAuthToken_eq_ok, ?_⟩
  rintro ⟨word, presents, accepted⟩
  rwa [retrieveAuthToken_of_presents presents]

def Silent (response : Cors.Response) : Prop :=
  ∀ entry ∈ response.headers, ¬literal "access-control-" <+: entry.1

theorem silent_jsonResponse (refid : String) (response : Auth.Response) :
    Silent (jsonResponse refid response) := by
  have length : ¬literal "access-control-" <+: literal "content-length" := by decide
  have type : ¬literal "access-control-" <+: literal "content-type" := by decide
  simp [Silent, jsonResponse, length, type]

theorem handle_cases (world : World) (env : Env PublicKey Json) (caches : Caches PublicKey)
    (readings : Readings) (auth : self.auth = true) (required : self.authRequired = true)
    (foreign : env.Foreign (· ≠ .httpError)) (http : request.type = .http)
    (path : request.path ≠ literal "/openapi.json") :
    let ran := (self.handle world request env caches readings).1
    (∃ token user, Accepts request env caches readings token ∧ KhUser.ofToken token = .ok user ∧
      ran = serverErrorMiddleware world request (self.inner world request (some user))) ∨
    ((∀ token user, Accepts request env caches readings token → KhUser.ofToken token ≠ .ok user) ∧
      ((∃ e, ran = ⟨[.sent world.serverError], .error e⟩) ∨
        ∃ status message, (status = 400 ∨ status = 401) ∧
          ran.events = [.sent (jsonResponse world.refid ⟨status, message⟩)])) := by
  intro ran
  let retrieved := retrieveAuthToken env caches readings request.auth
  let middleware : KhAuthMiddleware :=
    ⟨fun user => (self.inner world request user).result, self.authRequired⟩
  have called : middleware.call env caches readings request.auth =
      middleware.conclude retrieved.2 (retrieved.1.bind KhUser.ofToken) :=
    KhAuthMiddleware.call_eq http path
  have known : Outcome.Raises (· ≠ .httpError) (retrieved.1.bind KhUser.ofToken) :=
    KhAuthMiddleware.raises_user foreign
  have handled : ran = serverErrorMiddleware world request ⟨(middleware.conclude retrieved.2
      (retrieved.1.bind KhUser.ofToken)).actions.flatMap fun
        | .app user => (self.inner world request user).events
        | .respond response => [.sent (jsonResponse world.refid response)],
      (middleware.conclude retrieved.2 (retrieved.1.bind KhUser.ofToken)).result⟩ := by
    rw [← called]
    simp only [ran, handle, auth, if_true]
    rfl
  cases outcome : retrieved.1.bind KhUser.ofToken with
  | ok user =>
    obtain ⟨token, got, built⟩ := bind_eq_ok.mp outcome
    refine .inl ⟨token, user, retrieves_iff.mp got, built, ?_⟩
    simp [handled, outcome, KhAuthMiddleware.conclude, KhAuthMiddleware.invoke, middleware]
  | error e =>
    rw [outcome] at known handled
    refine .inr ⟨fun token user accepted built => ?_, ?_⟩
    · have got : retrieved.1 = .ok token := retrieves_iff.mpr accepted
      rw [got] at outcome
      cases built.symm.trans outcome
    · cases e with
      | invalidToken message =>
        exact .inr ⟨400, _, .inl rfl, congrArg Ran.events handled⟩
      | unauthorized message =>
        have refused : middleware.conclude retrieved.2 (.error (.unauthorized message)) =
            KhAuthMiddleware.respond (jsonErrorHandler (unauthorized message)) retrieved.2 := by
          simp [KhAuthMiddleware.conclude, middleware, required]
        rw [refused] at handled
        exact .inr ⟨401, _, .inr rfl, congrArg Ran.events handled⟩
      | httpError => exact absurd rfl known
      | _ => exact .inl ⟨_, handled.trans (serverErrorMiddleware_left http _)⟩

theorem Accepts.unique {token token' : AuthToken Json}
    (h : Accepts request env caches readings token)
    (h' : Accepts request env caches readings token') : token = token' := by
  rw [← retrieves_iff] at h h'
  rw [h, Except.ok.injEq] at h'
  exact h'

theorem handle_missing (world : World) (env : Env PublicKey Json) (caches : Caches PublicKey)
    (readings : Readings) (auth : self.auth = true) (required : self.authRequired = true)
    (http : request.type = .http) (path : request.path ≠ literal "/openapi.json")
    (missing : request.auth.credential = none ∨ request.auth.credential = some []) :
    ∃ response, (self.handle world request env caches readings).1.events = [.sent response] ∧
      response.status = 401 ∧ Silent response := by
  have got : retrieveAuthToken env caches readings request.auth =
      (.error (.unauthorized "An authentication token was not provided."), caches) := by
    rcases missing with missing | missing <;> simp [retrieveAuthToken, missing]
  refine ⟨jsonResponse world.refid (jsonErrorHandler
    (unauthorized "An authentication token was not provided.")), ?_, rfl,
    silent_jsonResponse _ _⟩
  simp only [handle, auth, if_true]
  rw [KhAuthMiddleware.call_eq http path, got]
  simp [Except.bind, KhAuthMiddleware.conclude, required, KhAuthMiddleware.respond,
    serverErrorMiddleware]

end ServerApp

end KhCommon.Server
