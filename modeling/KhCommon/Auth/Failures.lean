import KhCommon.Auth.FailClosed
import KhCommon.Auth.RoundTrip

/-! Which requests the middleware fails on. It answers `InvalidToken` and
`Unauthorized` only, so whatever else is raised while a token is taken apart,
checked and turned into a user leaves it. The condition under which nothing else
is raised is built up step by step, each function of the pipeline contributing
what it demands of its input. -/

namespace KhCommon.Auth

open Python Outcome

variable {PublicKey Data : Type}

/-- The token is made up as `v1token` expects, and its date is one that Python can represent. -/
def WellFormed (token content signature : Str) (load : Load) : Prop :=
  (∃ bytes fields, Composed token content signature bytes fields ∧ Decodes fields load) ∧
    ∃ timestamp : ℕ, load.expires = .aware timestamp ∧ timestamp ≤ 253402300799

/-! ## Taking a token apart -/

theorem decodeContent_of_composed {token content signature : Str} {bytes : Bytes} {fields : Fields}
    (h : Composed token content signature bytes fields) : decodeContent content = .ok bytes := by
  obtain ⟨body, hbody, ⟨version, rfl, absent⟩ | ⟨absent, rfl⟩⟩ := h.load_eq
  · rw [decodeContent, sliceFrom_find absent, hbody]
    rfl
  · rw [decodeContent, sliceFrom_find_of_not_mem absent, hbody]
    rfl

theorem splitLoad_of_composed {token content signature : Str} {bytes : Bytes} {fields : Fields}
    (h : Composed token content signature bytes fields) : splitLoad bytes = .ok fields := by
  obtain ⟨algorithm, keyId, expires, userId, guid⟩ := h.fields_free
  rw [h.fields_eq]
  exact splitLoad_of_free fields algorithm keyId expires userId guid

theorem decode_of_decodes {fields : Fields} {load : Load} (h : Decodes fields load)
    {timestamp : ℕ} (hdate : load.expires = .aware timestamp) (bound : timestamp ≤ 253402300799) :
    fields.decode = .ok load := by
  obtain ⟨timestamp', htimestamp, hdate'⟩ := h.expires
  obtain rfl : timestamp' = timestamp := by
    rw [hdate, Datetime.aware.injEq] at hdate'
    exact_mod_cast hdate'.symm
  have expires : (decodeInt fields.expires).bind Datetime.fromtimestamp = .ok load.expires := by
    rw [decodeInt_eq_ok.mpr htimestamp, hdate]
    exact if_pos bound
  have guid : (orValueError (b64decode fields.guid)).bind Uuid.init = .ok load.guid := by
    rw [orValueError_eq_ok.mpr h.guid]
    exact dif_pos load.guid.length
  unfold Fields.decode
  refine bind_eq_ok.mpr ⟨_, orValueError_eq_ok.mpr h.algorithm, bind_eq_ok.mpr ⟨_,
    decodeInt_eq_ok.mpr h.keyId, bind_eq_ok.mpr ⟨_, expires, bind_eq_ok.mpr ⟨_,
      decodeInt_eq_ok.mpr h.userId, bind_eq_ok.mpr ⟨_, guid, ?_⟩⟩⟩⟩⟩
  rw [← h.data]
  rfl

theorem date_of_decode {fields : Fields} {load : Load} (h : fields.decode = .ok load) :
    ∃ timestamp : ℕ, load.expires = .aware timestamp ∧ timestamp ≤ 253402300799 := by
  unfold Fields.decode at h
  obtain ⟨_, _, h⟩ := bind_eq_ok.mp h
  obtain ⟨_, _, h⟩ := bind_eq_ok.mp h
  obtain ⟨expires, hexpires, h⟩ := bind_eq_ok.mp h
  obtain ⟨_, _, h⟩ := bind_eq_ok.mp h
  obtain ⟨_, _, h⟩ := bind_eq_ok.mp h
  cases h
  obtain ⟨timestamp, -, hdate⟩ := bind_eq_ok.mp hexpires
  unfold Datetime.fromtimestamp at hdate
  split_ifs at hdate with bound
  exact ⟨timestamp, (Except.ok.inj hdate).symm, bound⟩

theorem parse_eq_ok {token content signature : Str} {load : Load} :
    parse token = .ok (content, signature, load) ↔ WellFormed token content signature load := by
  constructor
  · intro h
    obtain ⟨⟨content', signature'⟩, hsplit, h⟩ := bind_eq_ok.mp h
    obtain ⟨bytes, hbytes, h⟩ := bind_eq_ok.mp h
    obtain ⟨fields, hfields, h⟩ := bind_eq_ok.mp h
    obtain ⟨load', hload, h⟩ := bind_eq_ok.mp h
    cases h
    obtain ⟨htoken, hsignature⟩ := Split.last_eq_some_iff.mp (orValueError_eq_ok.mp hsplit)
    obtain ⟨hload_eq, hfree⟩ := splitLoad_eq_ok hfields
    refine ⟨⟨bytes, fields, ⟨htoken, hsignature, decodeContent_eq_ok hbytes, hload_eq, hfree⟩,
      decode_eq_ok hload⟩, date_of_decode hload⟩
  · rintro ⟨⟨bytes, fields, composed, decodes⟩, timestamp, hdate, bound⟩
    have split : splitSignature token = .ok (content, signature) :=
      orValueError_eq_ok.mpr (Split.last_eq_some_iff.mpr
        ⟨composed.token_eq, composed.signature_free⟩)
    exact bind_eq_ok.mpr ⟨_, split, bind_eq_ok.mpr ⟨_, decodeContent_of_composed composed,
      bind_eq_ok.mpr ⟨_, splitLoad_of_composed composed,
        bind_eq_ok.mpr ⟨_, decode_of_decodes decodes hdate bound, rfl⟩⟩⟩⟩

/-! ## What each step demands -/

def Exc.Answered : Exc → Prop
  | .unauthorized _ => True
  | .invalidToken _ => True
  | _ => False

def Exc.Foreign : Exc → Prop
  | .unauthorized _ => False
  | .httpError => False
  | .invalidToken _ => False
  | .assertion _ => False
  | _ => True

def Datetime.Past (now : ℚ) (d : Datetime) : Prop := ∃ instant, d = .aware instant ∧ instant < now

abbrev Demands {α : Type} (P : α → Prop) (x : Except Exc α) : Prop := Meets Exc.Answered P x

theorem demands_bind {α β : Type} {P : β → Prop} {x : Except Exc α} {f : α → Except Exc β} :
    Demands P (x >>= f) ↔ Demands (fun a => Demands P (f a)) x :=
  meets_bind

theorem demands_iff_returns {α : Type} {P : α → Prop} {x : Except Exc α}
    (raises : Raises Exc.Foreign x) : Demands P x ↔ ∃ a, x = .ok a ∧ P a := by
  refine meets_iff_returns fun e he answered => ?_
  have foreign := raises_iff.mp raises e he
  cases e <;> first | exact foreign | exact answered

theorem demands_orValueError {α : Type} {P : α → Prop} {x : Option α} :
    Demands P (orValueError x) ↔ ∃ a, x = some a ∧ P a := by
  cases x with
  | none => simp [orValueError, Exc.Answered]
  | some a => simp [orValueError]

theorem demands_parse {P : Str × Str × Load → Prop} {token : Str} :
    Demands P (parse token) ↔
      ∃ content signature load, WellFormed token content signature load ∧
        P (content, signature, load) := by
  rw [demands_iff_returns (raises_parse trivial token)]
  simp only [Prod.exists, parse_eq_ok]

theorem demands_isPast {P : Bool → Prop} {now : ℚ} {d : Datetime} :
    Demands P (d.isPast now) ↔ ∃ instant, d = .aware instant ∧ P (instant < now) := by
  cases d with
  | aware instant => simp [Datetime.isPast]
  | naive wall => simp [Datetime.isPast, Exc.Answered]

theorem demands_precheck {P : Unit → Prop} {now : ℚ} {load : Load} {instant : ℚ}
    (hdate : load.expires = .aware instant) :
    Demands P (precheck now load) ↔ load.keyId = 0 ∨ load.expires.Past now ∨ P () := by
  unfold precheck
  by_cases zero : load.keyId ≤ 0
  · rw [if_pos zero]
    simp [Exc.Answered, Nat.le_zero.mp zero]
  · have positive : load.keyId ≠ 0 := fun h => zero h.le
    rw [if_neg zero, demands_bind, demands_isPast]
    by_cases past : instant < now
    · simp [hdate, Datetime.Past, past, Exc.Answered]
    · simp [hdate, Datetime.Past, past, positive]

theorem demands_validate {P : Unit → Prop} {env : Env PublicKey Data} {publicKey : PublicKey}
    {content signature : Str} :
    Demands P (validate env publicKey content signature) ↔
      (Signed env publicKey content signature → P ()) := by
  have signed : Signed env publicKey content signature ↔ (do
      let signature ← orValueError (b64decodeStr signature)
      let content ← orValueError (encode content)
      env.verify publicKey signature content : Except Exc Unit) = .ok () := by
    simp only [bind_eq_ok, orValueError_eq_ok]
    exact ⟨fun ⟨s, c, hs, hc, h⟩ => ⟨s, hs, c, hc, h⟩, fun ⟨s, hs, c, hc, h⟩ => ⟨s, c, hs, hc, h⟩⟩
  rw [signed, validate]
  split
  · rename_i verified
    simp [verified]
  · rename_i e failed
    simp [failed, Exc.Answered]

theorem demands_checkRecord {P : Unit → Prop} {env : Env PublicKey Data}
    (foreign : env.Foreign Exc.Foreign) {load : Load} :
    Demands P (checkRecord env load) ↔
      (∃ tokenInfo, env.lookup load.guid.bytes = .ok tokenInfo) ∧ (Recorded env load → P ()) := by
  have raises := foreign.lookup load.guid.bytes
  cases found : env.lookup load.guid.bytes with
  | error e =>
    rw [found] at raises
    cases e <;> first
      | exact raises.elim
      | simp [checkRecord, found, Exc.Answered, bind, Except.bind]
  | ok tokenInfo =>
    have recorded : Recorded env load ↔ tokenInfo.state = .active ∧
        tokenInfo.algorithm = load.algorithm ∧ tokenInfo.expires = load.expires ∧
          tokenInfo.keyId = load.keyId := by
      simp [Recorded, found]
    rw [recorded]
    by_cases state : tokenInfo.state = .active
    · by_cases algorithm : tokenInfo.algorithm = load.algorithm
      · by_cases expires : tokenInfo.expires = load.expires
        · by_cases keyId : tokenInfo.keyId = load.keyId <;>
            simp [checkRecord, found, assertThat, state, algorithm, expires, keyId, Exc.Answered,
              bind, Except.bind]
        · simp [checkRecord, found, assertThat, state, algorithm, expires, Exc.Answered,
            bind, Except.bind]
      · simp [checkRecord, found, assertThat, state, algorithm, Exc.Answered, bind, Except.bind]
    · simp [checkRecord, found, assertThat, state, Exc.Answered, bind, Except.bind]

/-! ## Keys -/

/-- What comes of asking for a key: one that is cached, one that the key service has let expire,
or one that it serves, which loads and is signed by itself. -/
inductive KeyOutcome (env : Env PublicKey Data) (keys : KeyCache PublicKey) (keyId : ℕ)
    (algorithm : Str) : Option PublicKey → Prop
  | cached {exp : ℚ} {publicKey : PublicKey}
      (hit : (clearCache env.cleared keys).get? (keyId, algorithm) = some (exp, publicKey)) :
      KeyOutcome env keys keyId algorithm (some publicKey)
  | expired {load : PublicKeyResponse}
      (miss : (clearCache env.cleared keys).get? (keyId, algorithm) = none)
      (response : env.request keyId algorithm = .ok load) (past : load.expires.Past env.fetched) :
      KeyOutcome env keys keyId algorithm none
  | served {load : PublicKeyResponse} {instant : ℚ} {key signature : Bytes} {publicKey : PublicKey}
      (miss : (clearCache env.cleared keys).get? (keyId, algorithm) = none)
      (response : env.request keyId algorithm = .ok load) (date : load.expires = .aware instant)
      (current : env.fetched ≤ instant) (decoded : b64decodeStr load.key = some key)
      (loaded : env.loadDerPublicKey key = .ok publicKey)
      (signed : b64decodeStr load.signature = some signature)
      (verified : env.verify publicKey signature key = .ok ()) :
      KeyOutcome env keys keyId algorithm (some publicKey)

theorem demands_fetchPublicKeyBody {P : PublicKey → Prop} {env : Env PublicKey Data}
    (foreign : env.Foreign Exc.Foreign) {keyId : ℕ} {algorithm : Str} :
    Demands P (fetchPublicKeyBody env keyId algorithm) ↔
      ∃ load, env.request keyId algorithm = .ok load ∧
        ∃ instant, load.expires = .aware instant ∧ (instant < env.fetched ∨
          ∃ key, b64decodeStr load.key = some key ∧
            ∃ publicKey, env.loadDerPublicKey key = .ok publicKey ∧
              ∃ signature, b64decodeStr load.signature = some signature ∧
                env.verify publicKey signature key = .ok () ∧ P publicKey) := by
  unfold fetchPublicKeyBody
  rw [demands_bind, demands_iff_returns (foreign.request _ _)]
  refine exists_congr fun load => and_congr_right fun _ => ?_
  rw [demands_bind, demands_isPast]
  refine exists_congr fun instant => and_congr_right fun _ => ?_
  by_cases past : instant < env.fetched
  · refine iff_of_true ?_ (.inl past)
    simp only [past, decide_true, if_true]
    trivial
  · simp only [past, decide_false, Bool.false_eq_true, if_false, false_or]
    rw [demands_bind, demands_orValueError]
    refine exists_congr fun key => and_congr_right fun _ => ?_
    rw [demands_bind, demands_iff_returns (foreign.loadDerPublicKey _)]
    refine exists_congr fun publicKey => and_congr_right fun _ => ?_
    rw [demands_bind, demands_orValueError]
    refine exists_congr fun signature => and_congr_right fun _ => ?_
    rw [demands_bind, demands_iff_returns (foreign.verify _ _ _)]
    exact ⟨fun ⟨_, verified, good⟩ => ⟨verified, good⟩,
      fun ⟨verified, good⟩ => ⟨(), verified, good⟩⟩

theorem demands_fetchPublicKey {P : PublicKey → Prop} {env : Env PublicKey Data}
    (foreign : env.Foreign Exc.Foreign) {keys : KeyCache PublicKey} {keyId : ℕ} {algorithm : Str} :
    Demands P (fetchPublicKey env keys keyId algorithm).1 ↔
      ∃ outcome, KeyOutcome env keys keyId algorithm outcome ∧
        ∀ publicKey, outcome = some publicKey → P publicKey := by
  have cache := meets_wrapper (E := Exc.Answered) (P := P) id keyTTL
    (fun key (world : Unit) => (fetchPublicKeyBody env key.1 key.2, world)) (keys, ())
    ⟨(keyId, algorithm), env.cleared, env.stored⟩
  refine cache.trans ?_
  rw [id, ← Demands, demands_fetchPublicKeyBody foreign]
  constructor
  · rintro ⟨hit, miss⟩
    cases held : (clearCache env.cleared keys).get? (keyId, algorithm) with
    | some entry =>
      refine ⟨_, .cached held, fun publicKey same => ?_⟩
      cases same
      exact hit _ _ held
    | none =>
      obtain ⟨load, response, instant, date, past | ⟨key, decoded, publicKey, loaded, signature,
        signed, verified, good⟩⟩ := miss held
      · exact ⟨none, .expired held response ⟨instant, date, past⟩, nofun⟩
      · by_cases past : instant < env.fetched
        · exact ⟨none, .expired held response ⟨instant, date, past⟩, nofun⟩
        · refine ⟨_, .served held response date (not_lt.mp past) decoded loaded signed verified,
            fun publicKey' same => ?_⟩
          cases same
          exact good
  · rintro ⟨outcome, key, good⟩
    cases key with
    | cached held =>
      refine ⟨fun exp publicKey hit => ?_, fun miss => ?_⟩
      · rw [held, Option.some.injEq, Prod.mk.injEq] at hit
        exact hit.2 ▸ good _ rfl
      · rw [held] at miss
        cases miss
    | expired miss response past =>
      obtain ⟨instant, date, past⟩ := past
      refine ⟨fun exp publicKey hit => ?_, fun _ => ⟨_, response, instant, date, .inl past⟩⟩
      rw [miss] at hit
      cases hit
    | served miss response date current decoded loaded signed verified =>
      refine ⟨fun exp publicKey hit => ?_, fun _ => ⟨_, response, _, date, .inr ⟨_, decoded, _,
        loaded, _, signed, verified, good _ rfl⟩⟩⟩
      rw [miss] at hit
      cases hit

/-! ## Tokens -/

/-- What is foreseen of a token of version 1, with `P` of its data: it is well formed, and either
its key id is zero, it has expired, its key has expired, its signature is not good, it differs from
its record, or its data can be read. -/
def Foreseen (env : Env PublicKey Data) (keys : KeyCache PublicKey) (P : Data → Prop)
    (token : Str) : Prop :=
  ∃ content signature load, WellFormed token content signature load ∧
    (load.keyId = 0 ∨ load.expires.Past env.now ∨
      ∃ outcome, KeyOutcome env keys load.keyId load.algorithm outcome ∧
        ∀ publicKey, outcome = some publicKey → Signed env publicKey content signature →
          (∃ tokenInfo, env.lookup load.guid.bytes = .ok tokenInfo) ∧
            (Recorded env load → ∃ data, env.loads load.data = .ok data ∧ P data))

theorem demands_checkToken {P : AuthToken Data → Prop} {env : Env PublicKey Data}
    (foreign : env.Foreign Exc.Foreign) {token content signature : Str} {load : Load}
    {publicKey : PublicKey} :
    Demands P (checkToken env token content signature load publicKey) ↔
      (Signed env publicKey content signature →
        (∃ tokenInfo, env.lookup load.guid.bytes = .ok tokenInfo) ∧
          (Recorded env load → ∃ data, env.loads load.data = .ok data ∧
            P ⟨load.userId, load.expires, load.guid, data, token⟩)) := by
  rw [checkToken, demands_bind, demands_validate]
  refine imp_congr_right fun _ => ?_
  rw [demands_bind, demands_checkRecord foreign]
  refine and_congr_right fun _ => imp_congr_right fun _ => ?_
  rw [demands_bind, demands_iff_returns (foreign.loads _)]
  rfl

theorem demands_v1token {P : Data → Prop} {env : Env PublicKey Data}
    (foreign : env.Foreign Exc.Foreign) {keys : KeyCache PublicKey} {token : Str} :
    Demands (fun auth => P auth.data) (v1token env keys token).1 ↔ Foreseen env keys P token := by
  have steps : (v1token env keys token).1 = readToken env token >>= fun read =>
      (fetchPublicKey env keys read.2.2.keyId read.2.2.algorithm).1 >>=
        checkToken env token read.1 read.2.1 read.2.2 := by
    unfold v1token
    cases readToken env token <;> rfl
  rw [steps, readToken_eq, demands_bind, demands_bind, demands_parse]
  refine exists_congr fun content => exists_congr fun signature => exists_congr fun load =>
    and_congr_right fun wellFormed => ?_
  obtain ⟨-, timestamp, hdate, -⟩ := wellFormed
  rw [demands_bind, demands_precheck hdate]
  refine or_congr_right (or_congr_right ?_)
  rw [Demands, meets_pure, demands_bind, demands_fetchPublicKey foreign]
  refine exists_congr fun outcome => and_congr_right fun _ => forall_congr' fun publicKey =>
    imp_congr_right fun _ => ?_
  rw [demands_checkToken foreign]

theorem demands_verifyTokenBody {P : Data → Prop} {env : Env PublicKey Data}
    (foreign : env.Foreign Exc.Foreign) {keys : KeyCache PublicKey} {token : Str} :
    Demands (fun auth => P auth.data) (verifyTokenBody env keys token).1 ↔
      ∃ bytes, version token = .ok bytes ∧ (bytes = [49] → Foreseen env keys P token) := by
  have raises : Raises (.valueError = ·) (version token) := raises_orValueError rfl _
  unfold verifyTokenBody
  split
  · rename_i e unknown
    rw [unknown] at raises
    obtain rfl : .valueError = e := raises
    simp [unknown, Exc.Answered]
  · rename_i known
    rw [demands_v1token foreign, known]
    simp
  · rename_i bytes other known
    refine iff_of_true trivial ⟨bytes, known, fun one => absurd ?_ other⟩
    exact one

theorem demands_verifyToken {P : Data → Prop} {env : Env PublicKey Data}
    (foreign : env.Foreign Exc.Foreign) {caches : TokenCache Data × KeyCache PublicKey}
    {call : Caching.Call Str} :
    Demands (fun auth => P auth.data) (verifyToken env caches call).1 ↔
      (∀ exp auth, (clearCache call.now caches.1).get? call.args = some (exp, auth) →
          P auth.data) ∧
        ((clearCache call.now caches.1).get? call.args = none →
          ∃ bytes, version call.args = .ok bytes ∧
            (bytes = [49] → Foreseen env caches.2 P call.args)) := by
  rw [verifyToken, Demands, meets_wrapper]
  refine and_congr_right fun _ => imp_congr_right fun _ => ?_
  exact demands_verifyTokenBody foreign

/-! ## The middleware -/

def Json.Scoped (data : Json) : Prop :=
  ∃ items, data = .dict items ∧ ∀ value, items.lookup (literal "scope") = some value →
    ∃ scopes : List Scope, value.iter = .ok (scopes.map fun scope => .str scope.name)

theorem tokenScopes_isOk_iff {data : Json} : (∃ scopes, tokenScopes data = .ok scopes) ↔
    data.Scoped := by
  constructor
  · rintro ⟨scopes, h⟩
    obtain ⟨value, hget, h⟩ := bind_eq_ok.mp h
    obtain ⟨names, hiter, h⟩ := bind_eq_ok.mp h
    have listed := mapM_getitem_eq_ok.mp h
    cases data with
    | dict items =>
      refine ⟨items, rfl, fun value' hlookup => ⟨scopes, ?_⟩⟩
      simp only [Json.get, hlookup, Option.getD_some, Except.ok.injEq] at hget
      rw [hget, hiter, listed]
    | _ => simp [Json.get] at hget
  · rintro ⟨items, rfl, proper⟩
    cases hlookup : items.lookup (literal "scope") with
    | none =>
      refine ⟨[], bind_eq_ok.mpr ⟨.list [], ?_, rfl⟩⟩
      rw [Json.get, hlookup]
      rfl
    | some value =>
      obtain ⟨scopes, hiter⟩ := proper value hlookup
      refine ⟨scopes, bind_eq_ok.mpr ⟨value, ?_, bind_eq_ok.mpr ⟨_, hiter,
        mapM_getitem_eq_ok.mpr rfl⟩⟩⟩
      rw [Json.get, hlookup]
      rfl

theorem demands_ofToken {token : AuthToken Json} :
    Demands (fun _ => True) (KhUser.ofToken token) ↔ token.data.Scoped := by
  rw [demands_iff_returns (raises_ofToken token trivial trivial trivial), ← tokenScopes_isOk_iff]
  constructor
  · rintro ⟨user, built, -⟩
    obtain ⟨scopes, hscopes, -⟩ := bind_eq_ok.mp built
    exact ⟨scopes, hscopes⟩
  · rintro ⟨scopes, hscopes⟩
    exact ⟨_, bind_eq_ok.mpr ⟨scopes, hscopes, rfl⟩, trivial⟩

namespace KhAuthMiddleware

/-- An error 400, an error 401 where authentication is required, or a call of the app for an
authenticated user or, where it is not required, for the anonymous one. -/
def ByDesign (middleware : KhAuthMiddleware) (answer : Answer PublicKey) : Prop :=
  (∃ error, answer.actions = [.respond ⟨400, error⟩] ∧ answer.result = .ok ()) ∨
    (middleware.authRequired = true ∧
      ∃ error, answer.actions = [.respond ⟨401, error⟩] ∧ answer.result = .ok ()) ∨
    ∃ user, (user.token.isSome ∨ middleware.authRequired = false ∧ user = .anonymous) ∧
      answer.actions = [.app (some user)] ∧ answer.result = middleware.app (some user)

theorem byDesign_conclude (middleware : KhAuthMiddleware) (caches : Caches PublicKey)
    {outcome : Except Exc KhUser} (known : Raises (· ≠ .httpError) outcome)
    (authenticated : ∀ user, outcome = .ok user → user.token.isSome) :
    middleware.ByDesign (middleware.conclude caches outcome) ↔
      Demands (fun _ => True) outcome := by
  rcases outcome with e | user
  · cases e with
    | unauthorized message =>
      refine iff_of_true ?_ trivial
      cases required : middleware.authRequired with
      | true =>
        refine .inr (.inl ⟨required, (jsonErrorHandler (unauthorized message)).error, ?_, ?_⟩) <;>
          simp [conclude, required, respond, jsonErrorHandler, unauthorized]
      | false =>
        refine .inr (.inr ⟨.anonymous, .inr ⟨required, rfl⟩, ?_, ?_⟩) <;>
          simp [conclude, required, invoke]
    | invalidToken message => exact iff_of_true (.inl ⟨_, rfl, rfl⟩) trivial
    | httpError => exact absurd rfl known
    | _ => exact iff_of_false (by simp [ByDesign, conclude]) id
  · exact iff_of_true (.inr (.inr ⟨user, .inl (authenticated user rfl), rfl, rfl⟩)) trivial

/-- The middleware does what it is meant to if and only if the path is not exempt, and there is
no credential or one whose last word is foreseen: its cached token has proper scopes, its version
is not known, or the token of version 1 is foreseen. -/
theorem call_byDesign_iff (middleware : KhAuthMiddleware) (env : Env PublicKey Json)
    (foreign : env.Foreign Exc.Foreign) (caches : Caches PublicKey) (readings : Readings)
    (request : Request) (http : request.type = .http) :
    middleware.ByDesign (middleware.call env caches readings request) ↔
      request.path ≠ literal "/openapi.json" ∧
        ((request.credential = none ∨ request.credential = some []) ∨
          ∃ word, Presents request word ∧
            (∀ exp auth, (clearCache readings.now caches.1).get? word = some (exp, auth) →
              auth.data.Scoped) ∧
            ((clearCache readings.now caches.1).get? word = none →
              ∃ bytes, version word = .ok bytes ∧
                (bytes = [49] → Foreseen env caches.2 Json.Scoped word))) := by
  by_cases path : request.path = literal "/openapi.json"
  · have exempt : ¬middleware.ByDesign (middleware.call env caches readings request) := by
      simp [call, http, path, ByDesign, invoke]
    exact iff_of_false exempt fun h => h.1 path
  rw [call_eq http path]
  have authenticated : ∀ user, (retrieveAuthToken env caches readings request).1.bind
      KhUser.ofToken = .ok user → user.token.isSome := by
    intro user accepted
    obtain ⟨token, -, built⟩ := bind_eq_ok.mp accepted
    rw [(KhUser.ofToken_eq_ok built).2.1]
    rfl
  have known : Raises (· ≠ .httpError)
      ((retrieveAuthToken env caches readings request).1.bind KhUser.ofToken) :=
    raises_user (foreign.mono fun e he => by rintro rfl; exact he)
  have steps : Demands (fun _ => True)
      ((retrieveAuthToken env caches readings request).1.bind KhUser.ofToken) ↔
        Demands (fun auth => auth.data.Scoped)
          (retrieveAuthToken env caches readings request).1 := by
    refine demands_bind.trans (meets_congr fun auth _ => ?_)
    exact demands_ofToken
  refine (byDesign_conclude middleware _ known authenticated).trans (steps.trans ?_)
  by_cases presents : ∃ word, Presents request word
  · obtain ⟨word, hword⟩ := presents
    rw [retrieveAuthToken_of_presents hword, demands_verifyToken foreign]
    constructor
    · exact fun demands => ⟨path, .inr ⟨word, hword, demands⟩⟩
    · rintro ⟨-, missing | ⟨word', hword', demands⟩⟩
      · obtain ⟨c, token, given, -⟩ := hword.credential
        simp [given] at missing
      · exact hword.unique hword' ▸ demands
  · rw [retrieveAuthToken_of_not_presents (not_exists.mp presents), Demands, meets_error]
    by_cases missing : request.credential = none ∨ request.credential = some []
    · rw [if_pos missing]
      exact iff_of_true trivial ⟨path, .inl missing⟩
    · rw [if_neg missing]
      refine iff_of_false id ?_
      rintro ⟨-, given | ⟨word, hword, -⟩⟩
      · exact missing given
      · exact presents ⟨word, hword⟩

def unrecorded : Env Unit Json := {
  request := fun _ _ => .ok ⟨[], [], .aware 10⟩
  loadDerPublicKey := fun _ => .ok ()
  verify := fun _ _ _ => .ok ()
  lookup := fun _ => .error .recordNotFound
  loads := fun _ => .ok (.dict [])
  now := 5, cleared := 5, fetched := 5, stored := 5 }

theorem unrecorded_foreign : unrecorded.Foreign Exc.Foreign := by
  constructor <;> simp [unrecorded, Exc.Foreign]

theorem call_byDesign_short :
    let middleware : KhAuthMiddleware := ⟨fun _ => .ok (), true⟩
    let request : Request := ⟨.http, literal "/", some (literal "Bearer x"), none⟩
    middleware.ByDesign (middleware.call unrecorded (∅, ∅) ⟨5, 5⟩ request) := by
  intro middleware request
  have last : Split.LastWord isSpace (literal "Bearer x") (literal "x") :=
    Split.getLast?_words_eq_some_iff.mp (by decide)
  have given : Presents request (literal "x") := ⟨_, last, .inl ⟨rfl, by decide⟩⟩
  have unknown : version (literal "x") = .ok [] := by decide
  refine (call_byDesign_iff middleware unrecorded unrecorded_foreign (∅, ∅) ⟨5, 5⟩ request
    rfl).mpr ⟨by decide, .inr ⟨literal "x", given, nofun, fun _ => ⟨[], unknown, nofun⟩⟩⟩

/-- Five characters, the last one dropped from six, are not base64, and `binascii` says so past
the middleware. -/
theorem call_raises_valueError :
    ¬ ∀ (middleware : KhAuthMiddleware) (env : Env Unit Json), env.Foreign Exc.Foreign →
      (∀ keyId algorithm, ∃ load, env.request keyId algorithm = .ok load) →
      ∀ (caches : Caches Unit) (readings : Readings) (request : Request), request.type = .http →
        request.path ≠ literal "/openapi.json" →
          middleware.ByDesign (middleware.call env caches readings request) := by
  intro all
  have designed := all ⟨fun _ => .ok (), true⟩ unrecorded unrecorded_foreign
    (fun _ _ => ⟨_, rfl⟩) (∅, ∅) ⟨5, 5⟩
    ⟨.http, literal "/", some (literal "Bearer abcdef"), none⟩ rfl (by decide)
  have idle : (KhAuthMiddleware.call ⟨fun _ => .ok (), true⟩ unrecorded (∅, ∅) ⟨5, 5⟩
      ⟨.http, literal "/", some (literal "Bearer abcdef"), none⟩).actions.length = 0 := by
    decide
  rcases designed with ⟨_, acted, -⟩ | ⟨-, _, acted, -⟩ | ⟨_, -, acted, -⟩ <;>
    rw [acted] at idle <;> cases idle

end KhAuthMiddleware

end KhCommon.Auth
