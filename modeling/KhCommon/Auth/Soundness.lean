import KhCommon.Auth.Token
import KhCommon.Caching.AsyncCache

/-! What an accepted token guarantees. The statement takes the token apart by
equations on the string itself, not by the splits of the code, and says of the
decoded fields that they were signed, are current and match the record of the
token. A key is one that `_fetchPublicKey` accepted for the same key id and
algorithm, now or in the schedule of calls that filled its cache. -/

namespace KhCommon.Auth

open Python Machine

variable {PublicKey Json : Type}

/-- A token and its parts. The signature stands behind the last period; the load is what the
rest decodes to behind its first period, and the first five of its fields are free of periods. -/
structure Composed (token content signature : Str) (load : Bytes) (fields : Fields) : Prop where
  token_eq : token = content ++ period :: signature
  signature_free : period ∉ signature
  load_eq : ∃ body, b64decodeStr body = some load ∧
    ((∃ version, content = version ++ period :: body ∧ period ∉ version) ∨
      (period ∉ content ∧ body = content))
  fields_eq : load = fields.algorithm ++ periodByte :: (fields.keyId ++ periodByte ::
    (fields.expires ++ periodByte :: (fields.userId ++ periodByte ::
      (fields.guid ++ periodByte :: fields.data))))
  fields_free : periodByte ∉ fields.algorithm ∧ periodByte ∉ fields.keyId ∧
    periodByte ∉ fields.expires ∧ periodByte ∉ fields.userId ∧ periodByte ∉ fields.guid

structure Decodes (fields : Fields) (load : Load) : Prop where
  algorithm : Python.decode fields.algorithm = some load.algorithm
  keyId : (b64decode fields.keyId).map intFromBytes = some load.keyId
  expires : ∃ timestamp : ℕ, (b64decode fields.expires).map intFromBytes = some timestamp ∧
    load.expires = .aware timestamp
  userId : (b64decode fields.userId).map intFromBytes = some load.userId
  guid : b64decode fields.guid = some load.guid.bytes
  data : load.data = fields.data

def Signed (env : Env PublicKey Json) (publicKey : PublicKey) (content signature : Str) : Prop :=
  ∃ signatureBytes contentBytes, b64decodeStr signature = some signatureBytes ∧
    encode content = some contentBytes ∧ env.verify publicKey signatureBytes contentBytes = .ok ()

def Recorded (env : Env PublicKey Json) (load : Load) : Prop :=
  ∃ tokenInfo, env.lookup load.guid.bytes = .ok tokenInfo ∧ tokenInfo.state = .active ∧
    tokenInfo.algorithm = load.algorithm ∧ tokenInfo.expires = load.expires ∧
    tokenInfo.keyId = load.keyId

structure Returns (env : Env PublicKey Json) (token : Str) (load : Load) (auth : AuthToken Json) :
    Prop where
  userId : auth.userId = load.userId
  guid : auth.guid = load.guid
  expires : auth.expires = load.expires
  data : env.loads load.data = .ok auth.data
  tokenString : auth.tokenString = token

/-! ## Inversion of the steps -/

theorem bind_eq_ok {α β : Type} {x : Except Exc α} {f : α → Except Exc β} {b : β} :
    x >>= f = .ok b ↔ ∃ a, x = .ok a ∧ f a = .ok b := by
  cases x <;> simp [bind, Except.bind]

theorem orValueError_eq_ok {α : Type} {x : Option α} {a : α} :
    orValueError x = .ok a ↔ x = some a := by
  cases x <;> simp [orValueError]

theorem decodeInt_eq_ok {field : Bytes} {n : ℕ} :
    decodeInt field = .ok n ↔ (b64decode field).map intFromBytes = some n := by
  cases h : b64decode field <;> simp [decodeInt, orValueError, h, Except.map]

theorem assertThat_eq_ok {condition : Bool} {message : String} :
    assertThat condition message = .ok () ↔ condition = true := by
  cases condition <;> simp [assertThat]

theorem fromtimestamp_eq_ok {timestamp : ℕ} {d : Datetime}
    (h : Datetime.fromtimestamp timestamp = .ok d) : d = .aware timestamp := by
  unfold Datetime.fromtimestamp at h
  split_ifs at h
  exact (Except.ok.inj h).symm

theorem uuid_init_eq_ok {bytes : Bytes} {guid : Uuid} (h : Uuid.init bytes = .ok guid) :
    guid.bytes = bytes := by
  unfold Uuid.init at h
  split_ifs at h
  cases h
  rfl

theorem splitLoad_eq_ok {load : Bytes} {fields : Fields} (h : splitLoad load = .ok fields) :
    load = fields.algorithm ++ periodByte :: (fields.keyId ++ periodByte ::
      (fields.expires ++ periodByte :: (fields.userId ++ periodByte ::
        (fields.guid ++ periodByte :: fields.data)))) ∧
    periodByte ∉ fields.algorithm ∧ periodByte ∉ fields.keyId ∧ periodByte ∉ fields.expires ∧
      periodByte ∉ fields.userId ∧ periodByte ∉ fields.guid := by
  unfold splitLoad at h
  split at h
  · rename_i algorithm keyId expires userId guid data parts
    cases h
    obtain ⟨r₁, ⟨rfl, h₁⟩, parts₁⟩ := Split.upTo_eq_cons_cons_iff.mp parts
    obtain ⟨r₂, ⟨rfl, h₂⟩, parts₂⟩ := Split.upTo_eq_cons_cons_iff.mp parts₁
    obtain ⟨r₃, ⟨rfl, h₃⟩, parts₃⟩ := Split.upTo_eq_cons_cons_iff.mp parts₂
    obtain ⟨r₄, ⟨rfl, h₄⟩, parts₄⟩ := Split.upTo_eq_cons_cons_iff.mp parts₃
    obtain ⟨r₅, ⟨rfl, h₅⟩, parts₅⟩ := Split.upTo_eq_cons_cons_iff.mp parts₄
    rw [Split.upTo_zero, List.cons.injEq] at parts₅
    obtain ⟨rfl, -⟩ := parts₅
    exact ⟨rfl, h₁, h₂, h₃, h₄, h₅⟩
  · cases h

theorem decode_eq_ok {fields : Fields} {load : Load} (h : fields.decode = .ok load) :
    Decodes fields load := by
  unfold Fields.decode at h
  obtain ⟨algorithm, halgorithm, h⟩ := bind_eq_ok.mp h
  obtain ⟨keyId, hkeyId, h⟩ := bind_eq_ok.mp h
  obtain ⟨expires, hexpires, h⟩ := bind_eq_ok.mp h
  obtain ⟨userId, huserId, h⟩ := bind_eq_ok.mp h
  obtain ⟨guid, hguid, h⟩ := bind_eq_ok.mp h
  cases h
  obtain ⟨timestamp, htimestamp, hdate⟩ := bind_eq_ok.mp hexpires
  obtain ⟨bytes, hbytes, hinit⟩ := bind_eq_ok.mp hguid
  exact {
    algorithm := orValueError_eq_ok.mp halgorithm
    keyId := decodeInt_eq_ok.mp hkeyId
    expires := ⟨timestamp, decodeInt_eq_ok.mp htimestamp, fromtimestamp_eq_ok hdate⟩
    userId := decodeInt_eq_ok.mp huserId
    guid := by rw [orValueError_eq_ok.mp hbytes, uuid_init_eq_ok hinit]
    data := rfl }

theorem decodeContent_eq_ok {content : Str} {load : Bytes} (h : decodeContent content = .ok load) :
    ∃ body, b64decodeStr body = some load ∧
      ((∃ version, content = version ++ period :: body ∧ period ∉ version) ∨
        (period ∉ content ∧ body = content)) := by
  have decoded := orValueError_eq_ok.mp h
  by_cases hperiod : period ∈ content
  · obtain ⟨version, body, rfl, absent⟩ := List.eq_append_cons_of_mem hperiod
    rw [sliceFrom_find absent] at decoded
    exact ⟨body, decoded, .inl ⟨version, rfl, absent⟩⟩
  · rw [sliceFrom_find_of_not_mem hperiod] at decoded
    exact ⟨content, decoded, .inr ⟨hperiod, rfl⟩⟩

theorem readToken_eq_ok {env : Env PublicKey Json} {token content signature : Str} {load : Load}
    (h : readToken env token = .ok (content, signature, load)) :
    (∃ bytes fields, Composed token content signature bytes fields ∧ Decodes fields load) ∧
      0 < load.keyId ∧ ∃ expires, load.expires = .aware expires ∧ env.now ≤ expires := by
  unfold readToken at h
  obtain ⟨⟨content', signature'⟩, hsplit, h⟩ := bind_eq_ok.mp h
  obtain ⟨bytes, hbytes, h⟩ := bind_eq_ok.mp h
  obtain ⟨fields, hfields, h⟩ := bind_eq_ok.mp h
  obtain ⟨load', hload, h⟩ := bind_eq_ok.mp h
  have decodes := decode_eq_ok hload
  obtain ⟨timestamp, -, hexpires⟩ := decodes.expires
  by_cases hkey : load'.keyId ≤ 0
  · simp [hkey, bind, Except.bind, throw, throwThe, MonadExceptOf.throw] at h
  · by_cases hpast : (timestamp : ℚ) < env.now
    · simp [hkey, hexpires, Datetime.isPast, hpast, bind, Except.bind, throw, throwThe,
        MonadExceptOf.throw] at h
    · simp only [hkey, hexpires, Datetime.isPast, hpast, bind, Except.bind, pure, Except.pure,
        if_false, decide_false, Except.ok.injEq, Prod.mk.injEq, Bool.false_eq_true] at h
      obtain ⟨rfl, rfl, rfl⟩ := h
      obtain ⟨htoken, hsignature⟩ := Split.last_eq_some_iff.mp (orValueError_eq_ok.mp hsplit)
      obtain ⟨hload_eq, hfree⟩ := splitLoad_eq_ok hfields
      exact ⟨⟨bytes, fields, ⟨htoken, hsignature, decodeContent_eq_ok hbytes, hload_eq, hfree⟩,
        decodes⟩, Nat.pos_of_ne_zero fun e => hkey e.le, timestamp, hexpires, not_lt.mp hpast⟩

theorem validate_eq_ok {env : Env PublicKey Json} {publicKey : PublicKey} {content signature : Str}
    (h : validate env publicKey content signature = .ok ()) :
    Signed env publicKey content signature := by
  unfold validate at h
  split at h
  · rename_i verified
    obtain ⟨signatureBytes, hsignature, verified⟩ := bind_eq_ok.mp verified
    obtain ⟨contentBytes, hcontent, verified⟩ := bind_eq_ok.mp verified
    exact ⟨signatureBytes, contentBytes, orValueError_eq_ok.mp hsignature,
      orValueError_eq_ok.mp hcontent, verified⟩
  · cases h

theorem checkRecord_eq_ok {env : Env PublicKey Json} {load : Load}
    (h : checkRecord env load = .ok ()) : Recorded env load := by
  unfold checkRecord at h
  split at h
  · cases h
  · obtain ⟨tokenInfo, hlookup, h⟩ := bind_eq_ok.mp h
    obtain ⟨_, hstate, h⟩ := bind_eq_ok.mp h
    obtain ⟨_, halgorithm, h⟩ := bind_eq_ok.mp h
    obtain ⟨_, hexpires, hkeyId⟩ := bind_eq_ok.mp h
    exact ⟨tokenInfo, hlookup, of_decide_eq_true (assertThat_eq_ok.mp hstate),
      of_decide_eq_true (assertThat_eq_ok.mp halgorithm),
      of_decide_eq_true (assertThat_eq_ok.mp hexpires),
      of_decide_eq_true (assertThat_eq_ok.mp hkeyId)⟩

theorem checkToken_eq_ok {env : Env PublicKey Json} {token content signature : Str} {load : Load}
    {publicKey : PublicKey} {auth : AuthToken Json}
    (h : checkToken env token content signature load publicKey = .ok auth) :
    Signed env publicKey content signature ∧ Recorded env load ∧ Returns env token load auth := by
  unfold checkToken at h
  obtain ⟨_, hsigned, h⟩ := bind_eq_ok.mp h
  obtain ⟨_, hrecord, h⟩ := bind_eq_ok.mp h
  obtain ⟨data, hdata, h⟩ := bind_eq_ok.mp h
  cases h
  exact ⟨validate_eq_ok hsigned, checkRecord_eq_ok hrecord, rfl, rfl, rfl, hdata, rfl⟩

/-! ## Keys -/

abbrev KeyState (PublicKey : Type) := Caching.Shared (ℕ × Str) (ℕ × Str) PublicKey

abbrev KeyEvent (PublicKey : Type) := Caching.Event (ℕ × Str) Exc PublicKey

def keyStep (s : KeyState PublicKey) (event : KeyEvent PublicKey) :
    Caching.Outcome Exc PublicKey × KeyState PublicKey :=
  Caching.asyncWrapper id keyTTL s event

/-- A call of `_fetchPublicKey` completes with what its body gives in one of `envs`. -/
def Answered (envs : List (Env PublicKey Json)) (s : KeyState PublicKey)
    (event : KeyEvent PublicKey) (_ : Caching.Outcome Exc PublicKey) : Prop :=
  match event with
  | .complete call _ result => ∀ key, s.awaiting call = some key →
    ∃ env ∈ envs, result = fetchPublicKeyBody env key.1 key.2
  | .start .. => True

def Vouched (envs : List (Env PublicKey Json)) (keyId : ℕ) (algorithm : Str)
    (publicKey : PublicKey) : Prop :=
  ∃ env ∈ envs, fetchPublicKeyBody env keyId algorithm = .ok publicKey

def KeysVouched (envs : List (Env PublicKey Json)) (keys : KeyCache PublicKey) : Prop :=
  ∀ key exp publicKey, keys.get? key = some (exp, publicKey) →
    Vouched envs key.1 key.2 publicKey

theorem KeysVouched.clear {envs : List (Env PublicKey Json)} {keys : KeyCache PublicKey}
    (h : KeysVouched envs keys) (now : ℚ) : KeysVouched envs (clearCache now keys) := by
  intro key exp publicKey hkey
  rw [clearCache_eq_purge] at hkey
  exact h key exp publicKey (ExpiringDict.get?_of_get?_purge hkey)

theorem KeysVouched.store {envs : List (Env PublicKey Json)} {keys : KeyCache PublicKey}
    (h : KeysVouched envs keys) {key : ℕ × Str} {publicKey : PublicKey}
    (accepted : Vouched envs key.1 key.2 publicKey) (exp : ℚ) :
    KeysVouched envs (keys.assign key (exp, publicKey)) := by
  intro key' exp' publicKey' hkey
  rw [OrderedDict.get?_assign] at hkey
  split_ifs at hkey with same
  · cases hkey
    exact same ▸ accepted
  · exact h key' exp' publicKey' hkey

theorem keyStep_vouched {envs : List (Env PublicKey Json)} (s : KeyState PublicKey)
    (event : KeyEvent PublicKey) (h : KeysVouched envs s.cache)
    (answered : Answered envs s event (keyStep s event).1) :
    KeysVouched envs (keyStep s event).2.cache := by
  cases event with
  | start call key now =>
    cases free : s.awaiting call with
    | some _ => simpa only [keyStep, Caching.asyncWrapper, free] using h
    | none =>
      cases hit : (clearCache now s.cache).get? (id key) <;>
        simpa only [keyStep, Caching.asyncWrapper, free, hit] using h.clear now
  | complete call stored result =>
    cases awaits : s.awaiting call with
    | none => simpa only [keyStep, Caching.asyncWrapper, awaits] using h
    | some key =>
      cases result with
      | error e => simpa only [keyStep, Caching.asyncWrapper, awaits] using h
      | ok publicKey =>
        obtain ⟨env, henv, hbody⟩ := answered key awaits
        have accepted : Vouched envs key.1 key.2 publicKey := ⟨env, henv, hbody.symm⟩
        simpa only [keyStep, Caching.asyncWrapper, awaits, id] using h.store accepted _

theorem keysVouched_run {envs : List (Env PublicKey Json)} {events : List (KeyEvent PublicKey)}
    (answered : Always keyStep (Answered envs) Caching.idle events) :
    KeysVouched envs (run keyStep Caching.idle events).cache := by
  have empty : KeysVouched envs (Caching.idle : KeyState PublicKey).cache := by
    intro key exp publicKey hkey
    simp [Caching.idle] at hkey
  exact run_inv (I := fun s => KeysVouched envs s.cache) keyStep_vouched empty answered

theorem fetchPublicKey_vouched {envs : List (Env PublicKey Json)} {keys : KeyCache PublicKey}
    (h : KeysVouched envs keys) (env : Env PublicKey Json) {keyId : ℕ} {algorithm : Str}
    {publicKey : PublicKey} (hkey : (fetchPublicKey env keys keyId algorithm).1 = .ok publicKey) :
    Vouched (env :: envs) keyId algorithm publicKey := by
  simp only [fetchPublicKey, Caching.wrapper, id] at hkey
  cases hit : (clearCache env.cleared keys).get? (keyId, algorithm) with
  | some entry =>
    rw [hit] at hkey
    cases hkey
    obtain ⟨env', henv, accepted⟩ := h.clear env.cleared _ _ _ hit
    exact ⟨env', List.mem_cons_of_mem _ henv, accepted⟩
  | none =>
    rw [hit] at hkey
    refine ⟨env, List.mem_cons_self, ?_⟩
    cases hbody : fetchPublicKeyBody env keyId algorithm with
    | error e =>
      rw [hbody] at hkey
      cases hkey
    | ok publicKey' =>
      rw [hbody] at hkey
      exact hkey

/-! ## Soundness -/

theorem v1token_eq_ok {env : Env PublicKey Json} {keys : KeyCache PublicKey} {token : Str}
    {auth : AuthToken Json} (h : (v1token env keys token).1 = .ok auth) :
    ∃ content signature bytes fields load publicKey,
      Composed token content signature bytes fields ∧ Decodes fields load ∧
        (fetchPublicKey env keys load.keyId load.algorithm).1 = .ok publicKey ∧
        Signed env publicKey content signature ∧
        (0 < load.keyId ∧ ∃ expires, load.expires = .aware expires ∧ env.now ≤ expires) ∧
        Recorded env load ∧ Returns env token load auth := by
  unfold v1token at h
  cases hread : readToken env token with
  | error e => simp [hread] at h
  | ok read =>
    obtain ⟨content, signature, load⟩ := read
    obtain ⟨⟨bytes, fields, composed, decodes⟩, current⟩ := readToken_eq_ok hread
    simp only [hread] at h
    obtain ⟨publicKey, hkey, hchecked⟩ := bind_eq_ok.mp h
    obtain ⟨signed, recorded, returns⟩ := checkToken_eq_ok hchecked
    exact ⟨content, signature, bytes, fields, load, publicKey, composed, decodes, hkey, signed,
      current, recorded, returns⟩

/-- After any schedule of key fetches a token is accepted only if its content was signed under a
key accepted for the signed key id and algorithm, is current, matches the record of the signed
guid, and is what is returned. -/
theorem v1token_sound (envs : List (Env PublicKey Json)) (events : List (KeyEvent PublicKey))
    (answered : Always keyStep (Answered envs) Caching.idle events) (env : Env PublicKey Json)
    (token : Str) (auth : AuthToken Json)
    (h : (v1token env (run keyStep Caching.idle events).cache token).1 = .ok auth) :
    ∃ content signature bytes fields load,
      Composed token content signature bytes fields ∧ Decodes fields load ∧
      (∃ publicKey,
        (fetchPublicKey env (run keyStep Caching.idle events).cache load.keyId
          load.algorithm).1 = .ok publicKey ∧
        Vouched (env :: envs) load.keyId load.algorithm publicKey ∧
        Signed env publicKey content signature) ∧
      (0 < load.keyId ∧ ∃ expires, load.expires = .aware expires ∧ env.now ≤ expires) ∧
      Recorded env load ∧ Returns env token load auth := by
  obtain ⟨content, signature, bytes, fields, load, publicKey, composed, decodes, hkey, signed,
    current, recorded, returns⟩ := v1token_eq_ok h
  exact ⟨content, signature, bytes, fields, load, composed, decodes,
    ⟨publicKey, hkey, fetchPublicKey_vouched (keysVouched_run answered) env hkey, signed⟩,
    current, recorded, returns⟩

theorem v1token_sound_single :
    let guid := List.replicate 16 0
    let load := [97] ++ 46 :: (b64encode [1] ++ 46 :: (b64encode [9] ++ 46 :: (b64encode [] ++
      46 :: (b64encode guid ++ 46 :: [123, 46, 125]))))
    let token := ofBytes (b64encode [49] ++ 46 :: (b64encode load ++ 46 :: b64encode [7]))
    let env : Env Unit Bytes := {
      request := fun _ _ => .ok ⟨[], [], .aware 10⟩
      loadDerPublicKey := fun _ => .ok ()
      verify := fun _ _ _ => .ok ()
      lookup := fun _ => .ok ⟨.active, 1, [97], .aware 9⟩
      loads := .ok
      now := 5, cleared := 5, fetched := 5, stored := 5 }
    ∃ content signature bytes fields load,
      Composed token content signature bytes fields ∧ Decodes fields load ∧
        Recorded env load := by
  intro guid load token env
  obtain ⟨content, signature, bytes, fields, load, composed, decodes, -, -, recorded, -⟩ :=
    v1token_sound [] [] trivial env token
      ⟨0, .aware 9, ⟨guid, by decide⟩, [123, 46, 125], token⟩ (by decide)
  exact ⟨content, signature, bytes, fields, load, composed, decodes, recorded⟩

end KhCommon.Auth
