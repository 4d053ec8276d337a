import KhCommon.Auth.Soundness
import KhCommon.Lib.Outcome

/-! What the pipeline raises. Taking a token apart raises `ValueError` only; what
follows adds `Unauthorized`, `InvalidToken`, the comparison of a date without a
timezone, and what the key service, the token store and the libraries raise. -/

namespace KhCommon.Auth

open Python Outcome

variable {PublicKey Data : Type} {E : Exc → Prop}

/-! ## The steps of `readToken` -/

def parse (token : Str) : Except Exc (Str × Str × Load) := do
  let (content, signature) ← splitSignature token
  let load ← decodeContent content
  let fields ← splitLoad load
  let load ← fields.decode
  return (content, signature, load)

/-- The checks of `v1token` before its awaits. -/
def precheck (now : ℚ) (load : Load) : Except Exc Unit :=
  if load.keyId ≤ 0 then throw (.unauthorized "Key is invalid.")
  else load.expires.isPast now >>= fun past =>
    if past then throw (.unauthorized "Key has expired.") else pure ()

theorem readToken_eq (env : Env PublicKey Data) (token : Str) :
    readToken env token = parse token >>= fun read => precheck env.now read.2.2 >>= fun _ =>
      pure read := by
  unfold readToken parse
  simp only [bind_assoc, pure_bind]
  refine bind_congr fun ⟨content, signature⟩ => bind_congr fun bytes => bind_congr fun fields =>
    bind_congr fun load => ?_
  unfold precheck
  by_cases invalid : load.keyId ≤ 0
  · simp only [invalid, if_true]
    rfl
  · simp only [invalid, if_false, bind_assoc]
    refine bind_congr fun past => ?_
    cases past <;> rfl

/-! ## Errors -/

section ValueError

variable (value : E .valueError)
include value

theorem raises_orValueError {α : Type} (x : Option α) : Raises E (orValueError x) := by
  cases x with
  | none => exact value
  | some a => trivial

theorem raises_decodeInt (field : Bytes) : Raises E (decodeInt field) :=
  (raises_orValueError value _).map _

theorem raises_fromtimestamp (timestamp : ℕ) : Raises E (Datetime.fromtimestamp timestamp) := by
  unfold Datetime.fromtimestamp
  split
  · trivial
  · exact value

theorem raises_uuid_init (bytes : Bytes) : Raises E (Uuid.init bytes) := by
  unfold Uuid.init
  split
  · trivial
  · exact value

theorem raises_splitLoad (load : Bytes) : Raises E (splitLoad load) := by
  unfold splitLoad
  split
  · trivial
  · exact value

theorem raises_decode (fields : Fields) : Raises E fields.decode :=
  (raises_orValueError value _).bind fun _ => (raises_decodeInt value _).bind fun _ =>
    ((raises_decodeInt value _).bind (raises_fromtimestamp value)).bind fun _ =>
      (raises_decodeInt value _).bind fun _ =>
        ((raises_orValueError value _).bind (raises_uuid_init value)).bind fun _ => trivial

theorem raises_parse (token : Str) : Raises E (parse token) :=
  (raises_orValueError value _).bind fun _ => (raises_orValueError value _).bind fun _ =>
    (raises_splitLoad value _).bind fun _ => (raises_decode value _).bind fun _ => trivial

end ValueError

structure Env.Foreign (env : Env PublicKey Data) (E : Exc → Prop) : Prop where
  request : ∀ keyId algorithm, Raises E (env.request keyId algorithm)
  loadDerPublicKey : ∀ key, Raises E (env.loadDerPublicKey key)
  verify : ∀ publicKey signature message, Raises E (env.verify publicKey signature message)
  lookup : ∀ guid, Raises E (env.lookup guid)
  loads : ∀ data, Raises E (env.loads data)

theorem Env.Foreign.mono {F : Exc → Prop} {env : Env PublicKey Data} (h : env.Foreign E)
    (imp : ∀ e, E e → F e) : env.Foreign F where
  request keyId algorithm := (h.request keyId algorithm).mono imp fun _ => id
  loadDerPublicKey key := (h.loadDerPublicKey key).mono imp fun _ => id
  verify publicKey signature message := (h.verify publicKey signature message).mono imp fun _ => id
  lookup guid := (h.lookup guid).mono imp fun _ => id
  loads data := (h.loads data).mono imp fun _ => id

structure Own (E : Exc → Prop) : Prop where
  unauthorized : ∀ message, E (.unauthorized message)
  invalidToken : ∀ message, E (.invalidToken message)
  assertion : ∀ message, E (.assertion message)
  valueError : E .valueError
  typeError : E .typeError

namespace Own

variable (own : Own E)
include own

theorem isPast (now : ℚ) (d : Datetime) : Raises E (d.isPast now) := by
  cases d with
  | aware instant => trivial
  | naive wall => exact own.typeError

theorem assertThat (condition : Bool) (message : String) :
    Raises E (assertThat condition message) := by
  cases condition with
  | true => trivial
  | false => exact own.assertion message

theorem precheck (now : ℚ) (load : Load) : Raises E (precheck now load) := by
  unfold Auth.precheck
  split
  · exact own.unauthorized _
  · refine (own.isPast now load.expires).bind fun past => ?_
    cases past with
    | true => exact own.unauthorized _
    | false => trivial

theorem readToken (env : Env PublicKey Data) (token : Str) : Raises E (readToken env token) := by
  rw [readToken_eq]
  exact (raises_parse own.valueError token).bind fun _ => (own.precheck _ _).bind fun _ => trivial

theorem validate (env : Env PublicKey Data) (publicKey : PublicKey) (content signature : Str) :
    Raises E (validate env publicKey content signature) := by
  unfold Auth.validate
  split
  · trivial
  · exact own.unauthorized _

end Own

theorem meets_wrapper {C K V W : Type} [DecidableEq K] {P : V → Prop} (key : C → K) (ttl : ℚ)
    (func : C → W → Except Exc V × W) (s : Cache K V × W) (call : Caching.Call C) :
    Meets E P (Caching.wrapper key ttl func s call).1 ↔
      (∀ exp data, (clearCache call.now s.1).get? (key call.args) = some (exp, data) → P data) ∧
        ((clearCache call.now s.1).get? (key call.args) = none →
          Meets E P (func call.args s.2).1) := by
  unfold Caching.wrapper
  cases hit : (clearCache call.now s.1).get? (key call.args) with
  | some entry =>
    obtain ⟨exp, data⟩ := entry
    simp [hit]
  | none => rcases hrun : func call.args s.2 with ⟨e | data, w⟩ <;> simp [hit]

section Foreign

variable (own : Own E) {env : Env PublicKey Data} (foreign : env.Foreign E)
include own foreign

theorem Env.Foreign.checkRecord (load : Load) : Raises E (checkRecord env load) := by
  unfold Auth.checkRecord
  have body := (foreign.lookup load.guid.bytes).bind fun tokenInfo =>
    (own.assertThat (tokenInfo.state = .active) "This token is no longer active.").bind fun _ =>
      (own.assertThat (tokenInfo.algorithm = load.algorithm) "Token algorithm mismatch.").bind
        fun _ => (own.assertThat (tokenInfo.expires = load.expires)
          "Token expiration mismatch.").bind fun _ =>
            own.assertThat (tokenInfo.keyId = load.keyId) "Token encryption key mismatch."
  split
  · exact own.unauthorized _
  · exact body

theorem Env.Foreign.checkToken (token content signature : Str) (load : Load)
    (publicKey : PublicKey) : Raises E (checkToken env token content signature load publicKey) :=
  (own.validate env publicKey content signature).bind fun _ =>
    (foreign.checkRecord own load).bind fun _ => (foreign.loads load.data).bind fun _ => trivial

theorem Env.Foreign.fetchPublicKeyBody (keyId : ℕ) (algorithm : Str) :
    Raises E (fetchPublicKeyBody env keyId algorithm) :=
  (foreign.request keyId algorithm).bind fun load => (own.isPast _ _).bind fun past => by
    cases past with
    | true => exact own.unauthorized _
    | false =>
      exact (raises_orValueError own.valueError _).bind fun key =>
        (foreign.loadDerPublicKey key).bind fun publicKey =>
          (raises_orValueError own.valueError _).bind fun signature =>
            (foreign.verify publicKey signature key).bind fun _ => trivial

theorem Env.Foreign.v1token (keys : KeyCache PublicKey) (token : Str) :
    Raises E (v1token env keys token).1 := by
  unfold Auth.v1token
  have hread := own.readToken env token
  cases read : Auth.readToken env token with
  | error e =>
    rw [read] at hread
    exact hread
  | ok parts =>
    have key : Raises E (fetchPublicKey env keys parts.2.2.keyId parts.2.2.algorithm).1 :=
      (meets_wrapper _ _ _ _ _).mpr
        ⟨fun _ _ _ => trivial, fun _ => foreign.fetchPublicKeyBody own _ _⟩
    exact key.bind fun publicKey => foreign.checkToken own _ _ _ _ publicKey

theorem Env.Foreign.verifyTokenBody (keys : KeyCache PublicKey) (token : Str) :
    Raises E (verifyTokenBody env keys token).1 := by
  unfold Auth.verifyTokenBody
  have hversion : Raises E (version token) := raises_orValueError own.valueError _
  split
  · rename_i e unknown
    rw [unknown] at hversion
    exact hversion
  · exact foreign.v1token own keys token
  · exact own.invalidToken _

theorem Env.Foreign.verifyToken (caches : TokenCache Data × KeyCache PublicKey)
    (call : Caching.Call Str) : Raises E (verifyToken env caches call).1 :=
  (meets_wrapper _ _ _ _ _).mpr
    ⟨fun _ _ _ => trivial, fun _ => foreign.verifyTokenBody own caches.2 call.args⟩

end Foreign

end KhCommon.Auth
