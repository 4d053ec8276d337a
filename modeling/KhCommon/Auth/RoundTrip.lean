import KhCommon.Auth.Token

/-! The token format, written as the readme describes it, and what `verifyToken`
and `v1token` read back from it: the version, and all the fields, for any data
between and any bytes as data and signature. Only an encoding between periods
must be free of them, which base64 is; the data comes last and need not be. -/

namespace KhCommon.Auth

open Python

/-- `b'.'.join(parts)`. -/
def joinPeriod (parts : List Bytes) : Bytes := [periodByte].intercalate parts

def makeLoad (algorithm : Bytes) (keyId expires userId : ℕ) (guid : Uuid) (data : Bytes) : Bytes :=
  joinPeriod [algorithm, b64encode (intToBytes keyId), b64encode (intToBytes expires),
    b64encode (intToBytes userId), b64encode guid.bytes, data]

/-- The part of a token that is signed; `b'1'` is the version. -/
def makeContent (load : Bytes) : Bytes := joinPeriod [b64encode [49], b64encode load]

def makeToken (load signature : Bytes) : Bytes :=
  joinPeriod [makeContent load, b64encode signature]

theorem ofBytes_append_period (before after : Bytes) :
    ofBytes (before ++ periodByte :: after) = ofBytes before ++ period :: ofBytes after := by
  rw [ofBytes, List.map_append]
  rfl

theorem period_mem_ofBytes {bytes : Bytes} : period ∈ ofBytes bytes ↔ periodByte ∈ bytes := by
  rw [ofBytes, List.mem_map]
  constructor
  · rintro ⟨b, hb, heq⟩
    have value : b.toNat = 46 := congrArg Fin.val heq
    rwa [show periodByte = b from (UInt8.toNat_inj.mp value).symm]
  · exact fun h => ⟨periodByte, h, rfl⟩

theorem makeContent_eq (load : Bytes) :
    makeContent load = b64encode [49] ++ periodByte :: b64encode load := by
  simp [makeContent, joinPeriod, List.intercalate]

theorem makeToken_eq (load signature : Bytes) :
    makeToken load signature = makeContent load ++ periodByte :: b64encode signature := by
  simp [makeToken, joinPeriod, List.intercalate]

theorem makeLoad_eq (algorithm : Bytes) (keyId expires userId : ℕ) (guid : Uuid) (data : Bytes) :
    makeLoad algorithm keyId expires userId guid data =
      algorithm ++ periodByte :: (b64encode (intToBytes keyId) ++ periodByte ::
        (b64encode (intToBytes expires) ++ periodByte :: (b64encode (intToBytes userId) ++
          periodByte :: (b64encode guid.bytes ++ periodByte :: data)))) := by
  simp [makeLoad, joinPeriod, List.intercalate]

theorem ascii_makeContent (load : Bytes) : ∀ b ∈ makeContent load, b.toNat < 128 := by
  intro b hb
  rw [makeContent_eq] at hb
  rcases List.mem_append.mp hb with hb | hb
  · exact ascii_of_mem_b64encode hb
  · rcases List.mem_cons.mp hb with rfl | hb
    · decide
    · exact ascii_of_mem_b64encode hb

theorem b64decodeStr_b64encode (bytes : Bytes) :
    b64decodeStr (ofBytes (b64encode bytes)) = some bytes := by
  rw [b64decodeStr_ofBytes fun _ hb => ascii_of_mem_b64encode hb, b64decode_b64encode]

theorem period_not_mem_ofBytes_b64encode (bytes : Bytes) :
    period ∉ ofBytes (b64encode bytes) :=
  fun h => period_not_mem_b64encode bytes (period_mem_ofBytes.mp h)

theorem version_makeToken (load signature : Bytes) :
    version (ofBytes (makeToken load signature)) = .ok [49] := by
  rw [makeToken_eq, makeContent_eq, List.append_assoc, List.cons_append, ofBytes_append_period,
    version, sliceTo_find (period_not_mem_ofBytes_b64encode _), b64decodeStr_b64encode]
  rfl

theorem splitSignature_makeToken (load signature : Bytes) :
    splitSignature (ofBytes (makeToken load signature)) =
      .ok (ofBytes (makeContent load), ofBytes (b64encode signature)) := by
  rw [makeToken_eq, ofBytes_append_period, splitSignature, Split.last_eq_some_iff.mpr
    ⟨rfl, period_not_mem_ofBytes_b64encode _⟩]
  rfl

theorem decodeContent_makeContent (load : Bytes) :
    decodeContent (ofBytes (makeContent load)) = .ok load := by
  rw [makeContent_eq, ofBytes_append_period, decodeContent,
    sliceFrom_find (period_not_mem_ofBytes_b64encode _), b64decodeStr_b64encode]
  rfl

theorem splitLoad_of_free (fields : Fields) (halgorithm : periodByte ∉ fields.algorithm)
    (hkeyId : periodByte ∉ fields.keyId) (hexpires : periodByte ∉ fields.expires)
    (huserId : periodByte ∉ fields.userId) (hguid : periodByte ∉ fields.guid) :
    splitLoad (fields.algorithm ++ periodByte :: (fields.keyId ++ periodByte ::
      (fields.expires ++ periodByte :: (fields.userId ++ periodByte ::
        (fields.guid ++ periodByte :: fields.data))))) = .ok fields := by
  have parts : Split.upTo periodByte 5 (fields.algorithm ++ periodByte :: (fields.keyId ++
      periodByte :: (fields.expires ++ periodByte :: (fields.userId ++ periodByte ::
        (fields.guid ++ periodByte :: fields.data))))) =
      [fields.algorithm, fields.keyId, fields.expires, fields.userId, fields.guid, fields.data] :=
    Split.upTo_eq_cons_cons_iff.mpr ⟨_, ⟨rfl, halgorithm⟩, Split.upTo_eq_cons_cons_iff.mpr
      ⟨_, ⟨rfl, hkeyId⟩, Split.upTo_eq_cons_cons_iff.mpr ⟨_, ⟨rfl, hexpires⟩,
        Split.upTo_eq_cons_cons_iff.mpr ⟨_, ⟨rfl, huserId⟩, Split.upTo_eq_cons_cons_iff.mpr
          ⟨_, ⟨rfl, hguid⟩, Split.upTo_zero _⟩⟩⟩⟩⟩
  rw [splitLoad, parts]

theorem decodeInt_b64encode (n : ℕ) : decodeInt (b64encode (intToBytes n)) = .ok n := by
  rw [decodeInt, b64decode_b64encode]
  exact congrArg Except.ok (intFromBytes_intToBytes n)

def madeFields (algorithm : Bytes) (keyId expires userId : ℕ) (guid : Uuid) (data : Bytes) :
    Fields :=
  ⟨algorithm, b64encode (intToBytes keyId), b64encode (intToBytes expires),
    b64encode (intToBytes userId), b64encode guid.bytes, data⟩

theorem splitLoad_makeLoad {algorithm : Bytes} (free : periodByte ∉ algorithm)
    (keyId expires userId : ℕ) (guid : Uuid) (data : Bytes) :
    splitLoad (makeLoad algorithm keyId expires userId guid data) =
      .ok (madeFields algorithm keyId expires userId guid data) := by
  rw [makeLoad_eq]
  exact splitLoad_of_free (madeFields algorithm keyId expires userId guid data) free
    (period_not_mem_b64encode _) (period_not_mem_b64encode _) (period_not_mem_b64encode _)
    (period_not_mem_b64encode _)

theorem decode_madeFields {algorithm : Str} {algorithmBytes : Bytes}
    (halgorithm : encode algorithm = some algorithmBytes) (keyId : ℕ) {expires : ℕ}
    (range : expires ≤ 253402300799) (userId : ℕ) (guid : Uuid) (data : Bytes) :
    (madeFields algorithmBytes keyId expires userId guid data).decode =
      .ok ⟨algorithm, keyId, .aware expires, userId, guid, data⟩ := by
  have date : Datetime.fromtimestamp expires = .ok (.aware expires) := by
    rw [Datetime.fromtimestamp, if_pos range]
  have uuid : Uuid.init guid.bytes = .ok guid := by
    rw [Uuid.init, dif_pos guid.length]
  simp only [Fields.decode, madeFields, decode_encode halgorithm, decodeInt_b64encode,
    b64decode_b64encode, orValueError, Except.bind, date, uuid, bind, pure, Except.pure]

theorem period_not_mem_encode {algorithm : Str} {algorithmBytes : Bytes}
    (halgorithm : encode algorithm = some algorithmBytes) (free : period ∉ algorithm) :
    periodByte ∉ algorithmBytes := by
  refine not_mem_encode halgorithm (by decide) fun p hp hval => free ?_
  rwa [show period = p from (Fin.ext hval).symm]

theorem decode_makeToken (load signature : Bytes) :
    Python.decode (makeToken load signature) = some (ofBytes (makeToken load signature)) := by
  refine decode_encode (encode_ofBytes fun b hb => ?_)
  rw [makeToken_eq] at hb
  rcases List.mem_append.mp hb with hb | hb
  · exact ascii_makeContent load b hb
  · rcases List.mem_cons.mp hb with rfl | hb
    · decide
    · exact ascii_of_mem_b64encode hb

/-- A made token is a string, of version `b'1'`; splitting and decoding it gives the signature
and the fields it was made from, and what is checked against the signature is its content. -/
theorem token_roundTrip (algorithm : Str) (algorithmBytes : Bytes)
    (halgorithm : encode algorithm = some algorithmBytes) (free : period ∉ algorithm)
    (keyId expires userId : ℕ) (positive : 1 ≤ keyId) (range : expires ≤ 253402300799)
    (guid : Uuid) (data signature : Bytes) :
    let load := makeLoad algorithmBytes keyId expires userId guid data
    let token := ofBytes (makeToken load signature)
    let content := ofBytes (makeContent load)
    let decoded : Load := ⟨algorithm, keyId, .aware expires, userId, guid, data⟩
    Python.decode (makeToken load signature) = some token ∧
    version token = .ok [49] ∧
    splitSignature token = .ok (content, ofBytes (b64encode signature)) ∧
    b64decodeStr (ofBytes (b64encode signature)) = some signature ∧
    encode content = some (b64encode [49] ++ periodByte :: b64encode load) ∧
    decodeContent content = .ok load ∧
    (∃ fields, splitLoad load = .ok fields ∧ fields.decode = .ok decoded) ∧
    ∀ (PublicKey Json : Type) (env : Env PublicKey Json), env.now ≤ expires →
      readToken env token = .ok (content, ofBytes (b64encode signature), decoded) := by
  intro load token content decoded
  have split := splitSignature_makeToken load signature
  have body := decodeContent_makeContent load
  have parts := splitLoad_makeLoad (period_not_mem_encode halgorithm free) keyId expires userId
    guid data
  have fields := decode_madeFields halgorithm keyId range userId guid data
  refine ⟨decode_makeToken load signature, version_makeToken load signature, split,
    b64decodeStr_b64encode signature, ?_, body, ⟨_, parts, fields⟩, fun _ _ env current => ?_⟩
  · rw [encode_ofBytes (ascii_makeContent load), makeContent_eq]
  · have key : ¬ keyId ≤ 0 := by omega
    simp only [readToken, split, body, parts, fields, load, token, content, decoded, bind,
      Except.bind, pure, Except.pure, Datetime.isPast, key, not_lt.mpr current, if_false,
      decide_false, Bool.false_eq_true]

theorem token_roundTrip_zero :
    let guid : Uuid := ⟨List.replicate 16 0, by decide⟩
    let load := makeLoad [97] 1 9 0 guid [123, 46, 125]
    ∃ fields, splitLoad load = .ok fields ∧
      fields.decode = .ok ⟨[97], 1, .aware (9 : ℕ), 0, guid, [123, 46, 125]⟩ := by
  intro guid load
  obtain ⟨-, -, -, -, -, -, fields, -⟩ := token_roundTrip [97] [97] (by decide) (by decide)
    1 9 0 (by decide) (by decide) guid [123, 46, 125] [7]
  exact fields

end KhCommon.Auth
