import KhCommon.Base64
import KhCommon.Caching.ArgsCache

/-! `kh_common.auth`: the key fetch, `v1token` and the version switch of
`verifyToken`. What the module calls outside the repository is a parameter: the
request to the key service, loading a key, the signature check, `json.loads` and
the lookup in the token store; each answers or raises. A call of `v1token` is
given the readings of the clock it takes and the state of the key cache. -/

namespace KhCommon.Auth

open Python

/-- What is raised. `httpError` is an `HttpError` other than `Unauthorized`; `valueError` covers
the codecs of the standard library, unpacking a list of another length, and timestamps out of
range, but not `InvalidToken`. -/
inductive Exc
  | unauthorized (message : String)
  | httpError
  | invalidToken (message : String)
  | assertion (message : String)
  | valueError
  | typeError
  | indexError
  | keyError
  | attributeError
  | recordNotFound
  | other
  deriving DecidableEq

/-- A `datetime`; one without a timezone cannot be compared with one that has one. -/
inductive Datetime
  | aware (instant : ℚ)
  | naive (wall : ℚ)
  deriving DecidableEq

/-- `datetime.fromtimestamp`; the last second of the year 9999 is 253402300799. -/
def Datetime.fromtimestamp (timestamp : ℕ) : Except Exc Datetime :=
  if timestamp ≤ 253402300799 then .ok (.aware timestamp) else .error .valueError

/-- `datetime.now() > expires`, with `now` the reading. -/
def Datetime.isPast (now : ℚ) : Datetime → Except Exc Bool
  | aware instant => .ok (instant < now)
  | naive _ => .error .typeError

structure Uuid where
  bytes : Bytes
  length : bytes.length = 16
  deriving DecidableEq

def Uuid.init (bytes : Bytes) : Except Exc Uuid :=
  if h : bytes.length = 16 then .ok ⟨bytes, h⟩ else .error .valueError

inductive AuthState
  | active | inactive
  deriving DecidableEq

/-- What `v1token` reads of the record of a token. -/
structure TokenMetadata where
  state : AuthState
  keyId : ℤ
  algorithm : Str
  expires : Datetime

/-- What `_fetchPublicKey` reads of the response of the key service. -/
structure PublicKeyResponse where
  key : Str
  signature : Str
  expires : Datetime

structure AuthToken (Json : Type) where
  userId : ℕ
  expires : Datetime
  guid : Uuid
  data : Json
  tokenString : Str
  deriving DecidableEq

/-- What is outside the repository, and the readings of the clock in one call: of `v1token`, of
the key cache before and after a fetch, and of `_fetchPublicKey`. -/
structure Env (PublicKey Json : Type) where
  request : ℕ → Str → Except Exc PublicKeyResponse
  loadDerPublicKey : Bytes → Except Exc PublicKey
  verify : PublicKey → (signature message : Bytes) → Except Exc Unit
  lookup : Bytes → Except Exc TokenMetadata
  loads : Bytes → Except Exc Json
  now : ℚ
  cleared : ℚ
  fetched : ℚ
  stored : ℚ

variable {PublicKey Json : Type}

def orValueError {α : Type} : Option α → Except Exc α
  | some a => .ok a
  | none => .error .valueError

/-! ## Keys -/

/-- The body of `_fetchPublicKey`. The key is checked against its own signature here, so that an
invalid one is not cached. -/
def fetchPublicKeyBody (env : Env PublicKey Json) (keyId : ℕ) (algorithm : Str) :
    Except Exc PublicKey := do
  let load ← env.request keyId algorithm
  if ← load.expires.isPast env.fetched then throw (.unauthorized "Key has expired.")
  let key ← orValueError (b64decodeStr load.key)
  let publicKey ← env.loadDerPublicKey key
  let signature ← orValueError (b64decodeStr load.signature)
  env.verify publicKey signature key
  return publicKey

abbrev KeyCache (PublicKey : Type) := Cache (ℕ × Str) PublicKey

def keyTTL : ℚ := 60 * 60 * 24

theorem keyTTL_nonneg : 0 ≤ keyTTL := by norm_num [keyTTL]

def fetchPublicKey (env : Env PublicKey Json) (keys : KeyCache PublicKey) (keyId : ℕ)
    (algorithm : Str) : Except Exc PublicKey × KeyCache PublicKey :=
  let answer := Caching.wrapper id keyTTL
    (fun key world => (fetchPublicKeyBody env key.1 key.2, world)) (keys, ())
    ⟨(keyId, algorithm), env.cleared, env.stored⟩
  (answer.1, answer.2.1)

/-! ## Tokens -/

def period : CodePoint := .ofChar '.'

def periodByte : UInt8 := 46

structure Fields where
  algorithm : Bytes
  keyId : Bytes
  expires : Bytes
  userId : Bytes
  guid : Bytes
  data : Bytes

structure Load where
  algorithm : Str
  keyId : ℕ
  expires : Datetime
  userId : ℕ
  guid : Uuid
  data : Bytes

/-- `token.rsplit('.', 1)`, unpacked in two. -/
def splitSignature (token : Str) : Except Exc (Str × Str) := orValueError (Split.last period token)

/-- `b64decode(content[content.find('.')+1:])`. -/
def decodeContent (content : Str) : Except Exc Bytes :=
  orValueError (b64decodeStr (sliceFrom content (find period content + 1)))

/-- `load.split(b'.', 5)`, unpacked in six. -/
def splitLoad (load : Bytes) : Except Exc Fields :=
  match Split.upTo periodByte 5 load with
  | [algorithm, keyId, expires, userId, guid, data] =>
    .ok ⟨algorithm, keyId, expires, userId, guid, data⟩
  | _ => .error .valueError

def decodeInt (field : Bytes) : Except Exc ℕ := (orValueError (b64decode field)).map intFromBytes

def Fields.decode (fields : Fields) : Except Exc Load := do
  let algorithm ← orValueError (Python.decode fields.algorithm)
  let keyId ← decodeInt fields.keyId
  let expires ← (decodeInt fields.expires).bind Datetime.fromtimestamp
  let userId ← decodeInt fields.userId
  let guid ← (orValueError (b64decode fields.guid)).bind Uuid.init
  return ⟨algorithm, keyId, expires, userId, guid, fields.data⟩

/-- The `try` round the signature check, whatever it raises. -/
def validate (env : Env PublicKey Json) (publicKey : PublicKey) (content signature : Str) :
    Except Exc Unit :=
  match (do
    let signature ← orValueError (b64decodeStr signature)
    let content ← orValueError (encode content)
    env.verify publicKey signature content : Except Exc Unit) with
  | .ok () => .ok ()
  | .error _ => .error (.unauthorized "Key validation failed.")

def assertThat (condition : Bool) (message : String) : Except Exc Unit :=
  if condition then .ok () else .error (.assertion message)

/-- The `try` round the token record: an `AssertionError` becomes `Unauthorized`. -/
def checkRecord (env : Env PublicKey Json) (load : Load) : Except Exc Unit :=
  match (do
    let tokenInfo ← env.lookup load.guid.bytes
    assertThat (tokenInfo.state = .active) "This token is no longer active."
    assertThat (tokenInfo.algorithm = load.algorithm) "Token algorithm mismatch."
    assertThat (tokenInfo.expires = load.expires) "Token expiration mismatch."
    assertThat (tokenInfo.keyId = load.keyId) "Token encryption key mismatch." :
      Except Exc Unit) with
  | .error (.assertion message) => .error (.unauthorized message)
  | answer => answer

/-- The first half of `v1token`, up to the awaits: the content, the signature and the load. -/
def readToken (env : Env PublicKey Json) (token : Str) : Except Exc (Str × Str × Load) := do
  let (content, signature) ← splitSignature token
  let load ← decodeContent content
  let fields ← splitLoad load
  let load ← fields.decode
  if load.keyId ≤ 0 then throw (.unauthorized "Key is invalid.")
  if ← load.expires.isPast env.now then throw (.unauthorized "Key has expired.")
  return (content, signature, load)

def checkToken (env : Env PublicKey Json) (token content signature : Str) (load : Load)
    (publicKey : PublicKey) : Except Exc (AuthToken Json) := do
  validate env publicKey content signature
  checkRecord env load
  let data ← env.loads load.data
  return ⟨load.userId, load.expires, load.guid, data, token⟩

def v1token (env : Env PublicKey Json) (keys : KeyCache PublicKey) (token : Str) :
    Except Exc (AuthToken Json) × KeyCache PublicKey :=
  match readToken env token with
  | .error e => (.error e, keys)
  | .ok (content, signature, load) =>
    let (publicKey, keys) := fetchPublicKey env keys load.keyId load.algorithm
    (publicKey.bind (checkToken env token content signature load), keys)

/-- The version that `verifyToken` looks up in `tokenVersionSwitch`. -/
def version (token : Str) : Except Exc Bytes :=
  orValueError (b64decodeStr (sliceTo token (find period token)))

/-- The body of `verifyToken`; `b'1'` is the only version. -/
def verifyTokenBody (env : Env PublicKey Json) (keys : KeyCache PublicKey) (token : Str) :
    Except Exc (AuthToken Json) × KeyCache PublicKey :=
  match version token with
  | .error e => (.error e, keys)
  | .ok [49] => v1token env keys token
  | .ok _ =>
    (.error (.invalidToken "The given token uses a version that is unable to be decoded."), keys)

abbrev TokenCache (Json : Type) := Cache Str (AuthToken Json)

def tokenTTL : ℚ := 30

theorem tokenTTL_nonneg : 0 ≤ tokenTTL := by norm_num [tokenTTL]

/-- `verifyToken`, with the readings of its cache before and after the body. -/
def verifyToken (env : Env PublicKey Json) (caches : TokenCache Json × KeyCache PublicKey)
    (call : Caching.Call Str) :
    Except Exc (AuthToken Json) × (TokenCache Json × KeyCache PublicKey) :=
  Caching.wrapper id tokenTTL (fun token keys => verifyTokenBody env keys token) caches call

end KhCommon.Auth
