import KhCommon.Auth.Middleware
import KhCommon.Lib.Authority

/-! `KhCorsMiddleware`: a request with an `origin` header reaches the wrapped app, or is
answered as a preflight, when the scheme of the origin is allowed and so is the text
of its netloc up to the first colon. `urlparse` is a parameter, which may raise
`ValueError`. Header names are lower case, as the server passes them on. -/

namespace KhCommon.Cors

open Python Authority Auth

/-- What `urlparse` returns, as far as it is read; `geturl` puts it together again. -/
structure ParseResult where
  scheme : Str
  netloc : Str
  geturl : Str
  deriving DecidableEq

abbrev Headers := List (Str × Str)

/-- `scope`, with the first word of its type. -/
structure Request where
  isHttp : Bool
  method : Str
  headers : Headers

def header (headers : Headers) (key : String) : Option Str := headers.lookup (literal key)

structure Response where
  status : ℕ
  headers : Headers
  body : Str

def errorBody (refid : String) (response : Auth.Response) : Str :=
  literal ("\x7b\"status\":" ++ toString response.status ++ ",\"refid\":\"" ++ refid ++
    "\",\"error\":\"" ++ response.error ++ "\"\x7d")

def jsonResponse (refid : String) (response : Auth.Response) : Response :=
  let body := errorBody refid response
  ⟨response.status, [(literal "content-length", literal (toString body.length)),
    (literal "content-type", literal "application/json")], body⟩

/-- What is awaited: the wrapped app, whose messages go through `send` for an origin, or a response
of the middleware. -/
inductive Action
  | app (origin : Option Str)
  | respond (response : Response)

structure KhCorsMiddleware where
  allowedOrigins : List Str
  allowedProtocols : List Str
  allowedHeaders : Str
  allowedMethods : Str
  allowCredentials : Str
  exposedHeaders : Str
  maxAge : Str

namespace KhCorsMiddleware

def upper (s : String) : String := String.ofList (s.toList.map Char.toUpper)

def init (allowedOrigins : List Str) (allowedProtocols : List Str := [literal "https"])
    (allowedHeaders : List String := []) (allowedMethods : List String := [])
    (allowCredentials : Bool := true) (exposedHeaders : List String := [])
    (maxAge : ℕ := 86400) : KhCorsMiddleware where
  allowedOrigins := allowedOrigins
  allowedProtocols := allowedProtocols
  allowedHeaders :=
    literal (", ".intercalate (allowedHeaders ++ ["access-control-request-method", "origin"]))
  allowedMethods := literal (", ".intercalate (allowedMethods.map upper))
  allowCredentials := literal (if allowCredentials then "true" else "false")
  exposedHeaders := literal (", ".intercalate exposedHeaders)
  maxAge := literal (toString maxAge)

variable (self : KhCorsMiddleware)

def corsHeaders (origin : Str) : Headers :=
  [(literal "access-control-allow-origin", origin),
    (literal "access-control-allow-methods", self.allowedMethods),
    (literal "access-control-allow-headers", self.allowedHeaders),
    (literal "access-control-allow-credentials", self.allowCredentials),
    (literal "access-control-max-age", self.maxAge),
    (literal "access-control-expose-headers", self.exposedHeaders)]

/-- `origin.scheme not in .. or origin.netloc.split(':')[0] not in ..`, denied. -/
def allows (origin : ParseResult) : Bool :=
  origin.scheme ∈ self.allowedProtocols ∧
    (origin.netloc.splitOn colon).headD [] ∈ self.allowedOrigins

/-- `__call__`; `urlparse` gives none when it raises. -/
def call (urlparse : Str → Option ParseResult) (refid : String) (request : Request) :
    Except Exc Action :=
  if !request.isHttp then .ok (.app none) else
    match header request.headers "origin" with
    | none => .ok (.app none)
    | some text =>
      match urlparse text with
      | none => .error .valueError
      | some origin =>
        if !self.allows origin then
          .ok (.respond (jsonResponse refid (jsonErrorHandler (badRequest "Origin not allowed."))))
        else if request.method = literal "OPTIONS" ∧
            (header request.headers "access-control-request-method").isSome then
          .ok (.respond ⟨204, self.corsHeaders origin.geturl, []⟩)
        else .ok (.app (some text))

/-- `http.response.start`, which may come without headers, or another message. -/
inductive Message
  | start (status : ℕ) (headers : Option Headers)
  | other

/-- `headers[key] = value` of a `MutableHeaders`: the first entry is replaced, later ones go. -/
def setHeader (key value : Str) : Headers → Headers
  | [] => [(key, value)]
  | entry :: headers =>
    if entry.1 = key then (key, value) :: headers.filter fun e => e.1 ≠ key
    else entry :: setHeader key value headers

def send (origin : Str) : Message → Message
  | .start status headers => .start status (some ((self.corsHeaders origin).foldl
      (fun headers entry => setHeader entry.1 entry.2 headers) (headers.getD [])))
  | .other => .other

/-! ## What the app sends -/

theorem filter_setHeader_self (key value : Str) (headers : Headers) :
    (setHeader key value headers).filter (fun e => e.1 = key) = [(key, value)] := by
  induction headers with
  | nil => simp [setHeader]
  | cons entry headers ih =>
    rw [setHeader]
    split_ifs with same
    · have gone : (headers.filter fun e => e.1 ≠ key).filter (fun e => e.1 = key) = [] := by
        refine List.filter_eq_nil_iff.mpr fun e he => ?_
        simpa using List.of_mem_filter he
      rw [List.filter_cons_of_pos (by simp), gone]
    · rw [List.filter_cons_of_neg (by simpa using same), ih]

theorem filter_setHeader_of_ne {key key' : Str} (h : key' ≠ key) (value : Str)
    (headers : Headers) :
    (setHeader key value headers).filter (fun e => e.1 = key') =
      headers.filter fun e => e.1 = key' := by
  induction headers with
  | nil => simp [setHeader, h.symm]
  | cons entry headers ih =>
    rw [setHeader]
    split_ifs with same
    · have kept : (headers.filter fun e => e.1 ≠ key).filter (fun e => e.1 = key') =
          headers.filter fun e => e.1 = key' := by
        rw [List.filter_filter]
        refine List.filter_congr fun e _ => ?_
        by_cases at_key : e.1 = key' <;> simp [at_key, h]
      rw [List.filter_cons_of_neg (by simpa using h.symm), kept,
        List.filter_cons_of_neg (by simpa [same] using h.symm)]
    · rw [List.filter_cons, List.filter_cons, ih]

theorem filter_foldl_setHeader_of_not_mem {entries : Headers} {key : Str}
    (absent : key ∉ entries.map Prod.fst) (headers : Headers) :
    (entries.foldl (fun headers entry => setHeader entry.1 entry.2 headers) headers).filter
      (fun e => e.1 = key) = headers.filter fun e => e.1 = key := by
  induction entries generalizing headers with
  | nil => rfl
  | cons first entries ih =>
    rw [List.map_cons, List.mem_cons, not_or] at absent
    rw [List.foldl_cons, ih absent.2, filter_setHeader_of_ne absent.1]

theorem filter_foldl_setHeader {entries : Headers} (distinct : (entries.map Prod.fst).Nodup)
    (headers : Headers) {entry : Str × Str} (mem : entry ∈ entries) :
    (entries.foldl (fun headers entry => setHeader entry.1 entry.2 headers) headers).filter
      (fun e => e.1 = entry.1) = [entry] := by
  induction entries generalizing headers with
  | nil => cases mem
  | cons first entries ih =>
    rw [List.map_cons, List.nodup_cons] at distinct
    rw [List.foldl_cons]
    rcases List.mem_cons.mp mem with rfl | later
    · rw [filter_foldl_setHeader_of_not_mem distinct.1, filter_setHeader_self]
    · exact ih distinct.2 _ later

theorem send_corsHeaders (self : KhCorsMiddleware) (origin : Str) (status : ℕ)
    (headers : Option Headers) : ∃ sent, self.send origin (.start status headers) =
      .start status (some sent) ∧
      ∀ entry ∈ self.corsHeaders origin, sent.filter (fun e => e.1 = entry.1) = [entry] := by
  refine ⟨_, rfl, fun entry mem => filter_foldl_setHeader ?_ _ mem⟩
  have names : (self.corsHeaders origin).map Prod.fst =
      [literal "access-control-allow-origin", literal "access-control-allow-methods",
        literal "access-control-allow-headers", literal "access-control-allow-credentials",
        literal "access-control-max-age", literal "access-control-expose-headers"] := rfl
  rw [names]
  decide

/-! ## Who is admitted -/

def Admits (urlparse : Str → Option ParseResult) (origin : Str) : Prop :=
  ∃ url, urlparse origin = some url ∧ url.scheme ∈ self.allowedProtocols ∧
    hostOf url.netloc ∈ self.allowedOrigins

/-- The app is not invoked, and the answer is a 400 that says nothing about access. -/
def Refuses (answer : Except Exc Action) : Prop :=
  ∃ response, answer = .ok (.respond response) ∧ response.status = 400 ∧
    ∀ entry ∈ response.headers, ¬literal "access-control-" <+: entry.1

variable {self}

theorem allows_iff {url : ParseResult} : self.allows url ↔ url.scheme ∈ self.allowedProtocols ∧
    (url.netloc.splitOn colon).headD [] ∈ self.allowedOrigins :=
  decide_eq_true_iff

theorem refuses_jsonResponse (refid : String) : Refuses (.ok (.respond
    (jsonResponse refid (jsonErrorHandler (badRequest "Origin not allowed."))))) := by
  refine ⟨_, rfl, rfl, ?_⟩
  have length : ¬literal "access-control-" <+: literal "content-length" := by decide
  have type : ¬literal "access-control-" <+: literal "content-type" := by decide
  simp [jsonResponse, length, type]

variable {urlparse : Str → Option ParseResult} {refid : String} {request : Request} {origin : Str}

theorem refuses_call_iff (http : request.isHttp)
    (given : header request.headers "origin" = some origin) :
    Refuses (self.call urlparse refid request) ↔
      ∃ url, urlparse origin = some url ∧ ¬self.allows url := by
  cases parsed : urlparse origin with
  | none =>
    have raised : self.call urlparse refid request = .error .valueError := by
      simp [call, http, given, parsed]
    rw [raised]
    exact iff_of_false (by simp [Refuses]) (by simp)
  | some url =>
    simp only [Option.some.injEq, exists_eq_left']
    by_cases allowed : self.allows url
    · refine iff_of_false ?_ (not_not.mpr allowed)
      rintro ⟨response, answer, status, -⟩
      simp only [call, http, given, parsed, allowed, Bool.not_true, Bool.false_eq_true,
        if_false] at answer
      split_ifs at answer
      · cases answer
        cases status
      · cases answer
    · have refused : self.call urlparse refid request = .ok (.respond
          (jsonResponse refid (jsonErrorHandler (badRequest "Origin not allowed.")))) := by
        simp [call, http, given, parsed, allowed]
      rw [refused]
      exact iff_of_true (refuses_jsonResponse refid) allowed

end KhCorsMiddleware

open KhCorsMiddleware in
/-- Only an allowed host is let in and every other request refused, exactly if the origin parses
and the text that is looked up is the host where it makes a difference. Without user information
and brackets it is the host. -/
theorem call_admits_iff (self : KhCorsMiddleware) (urlparse : Str → Option ParseResult)
    (refid : String) {request : Request} {origin : Str} (http : request.isHttp)
    (given : header request.headers "origin" = some origin) :
    (self.Admits urlparse origin ∨ Refuses (self.call urlparse refid request) ↔
      ∃ url, urlparse origin = some url ∧
        (self.allows url → hostOf url.netloc ∈ self.allowedOrigins)) ∧
    ∀ url, urlparse origin = some url → atSign ∉ url.netloc → url.netloc.head? ≠ some opening →
      self.Admits urlparse origin ∨ Refuses (self.call urlparse refid request) := by
  have condition : self.Admits urlparse origin ∨ Refuses (self.call urlparse refid request) ↔
      ∃ url, urlparse origin = some url ∧
        (self.allows url → hostOf url.netloc ∈ self.allowedOrigins) := by
    rw [refuses_call_iff http given, Admits]
    constructor
    · rintro (⟨url, parsed, -, host⟩ | ⟨url, parsed, refused⟩)
      · exact ⟨url, parsed, fun _ => host⟩
      · exact ⟨url, parsed, fun allowed => absurd allowed refused⟩
    · rintro ⟨url, parsed, host⟩
      by_cases allowed : self.allows url
      · exact .inl ⟨url, parsed, (allows_iff.mp allowed).1, host allowed⟩
      · exact .inr ⟨url, parsed, allowed⟩
  refine ⟨condition, fun url parsed noUser start => condition.mpr ⟨url, parsed, fun allowed => ?_⟩⟩
  rw [hostOf_eq_headD noUser start]
  exact (allows_iff.mp allowed).2

def splitUrl (text : Str) : Option ParseResult :=
  match Split.first colon text with
  | none => some ⟨[], [], text⟩
  | some (scheme, rest) =>
    if literal "//" <+: rest then
      some ⟨scheme, (rest.drop 2).takeWhile fun c => c ∉ literal "/?#", text⟩
    else some ⟨scheme, [], text⟩

theorem call_admits_iff_port :
    let self := KhCorsMiddleware.init [literal "kheina.com"]
    let origin := literal "https://kheina.com:8443"
    self.Admits splitUrl origin ∨
      KhCorsMiddleware.Refuses (self.call splitUrl ""
        ⟨true, literal "GET", [(literal "origin", origin)]⟩) := by
  intro self origin
  refine (call_admits_iff self splitUrl "" rfl ?_).2
    ⟨literal "https", literal "kheina.com:8443", origin⟩ ?_ ?_ ?_
  all_goals decide

/-- The user information of the origin is an allowed host and a colon, and its host is another. -/
theorem call_admits_userInfo :
    ¬ ∀ (self : KhCorsMiddleware) (urlparse : Str → Option ParseResult) (refid : String)
      (request : Request) (origin : Str), request.isHttp →
      header request.headers "origin" = some origin →
        self.Admits urlparse origin ∨
          KhCorsMiddleware.Refuses (self.call urlparse refid request) := by
  intro all
  let self := KhCorsMiddleware.init [literal "kheina.com"]
  let origin := literal "https://kheina.com:x@google.com"
  let request : Request := ⟨true, literal "GET", [(literal "origin", origin)]⟩
  have given : header request.headers "origin" = some origin := by decide
  have allowed : (splitUrl origin).map self.allows = some true := by decide
  have other : (splitUrl origin).map (fun url => decide (hostOf url.netloc ∈ self.allowedOrigins)) =
      some false := by decide
  rcases all self splitUrl "" request origin rfl given with ⟨url, parsed, -, host⟩ | refused
  · rw [parsed] at other
    simp [host] at other
  · obtain ⟨url, parsed, refused⟩ := (KhCorsMiddleware.refuses_call_iff rfl given).mp refused
    rw [parsed] at allowed
    simp [refused] at allowed

end KhCommon.Cors
