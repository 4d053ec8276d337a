import KhCommon.Backblaze.Interface
import KhCommon.Lib.Outcome
import KhCommon.Lib.Percent

/-! `b2_upload` and its async twin. Two loops, one for the upload url and one for the
upload, carry the last response that they were given out to the error that they
raise, and there it is decoded: the body of a refusal, or an object that was decoded
already. A failed upload is reported exactly if that works. -/

namespace KhCommon.Backblaze

open Python Attempts Outcome
open Auth (Json)

/-- What the uploads need of other modules: `json.loads` of bytes, where none is a `ValueError`,
`hashlib.sha1(data).hexdigest()` and `str.lower`. -/
structure Env where
  loads : Bytes → Option Json
  hexdigest : Bytes → Str
  lower : Str → Str

/-- What comes of the requests: of the `i`-th one for an upload url, of those for an authorization
after it, and of the `i`-th upload. -/
structure Script where
  obtain : ℕ → Reply
  authorize : ℕ → ℕ → Reply
  upload : ℕ → Reply

structure File where
  fileData : Bytes
  filename : Str
  contentType : Option Str := none
  sha1 : Option Str := none

inductive Content
  | none
  | raw (content : Bytes)
  | decoded (content : Object)

/-- `json.loads(content) if content else None`. -/
def Content.response (loads : Bytes → Option Json) : Content → Except Fault (Option Json)
  | .none => .ok .none
  | .raw content =>
    if content = [] then .ok .none else
      match loads content with
      | some value => .ok (some value)
      | .none => .error .valueError
  | .decoded content => if content = [] then .ok .none else .error .typeError

end KhCommon.Backblaze

namespace KhCommon.B2Interface

open Python Attempts Outcome Backblaze
open Auth (Json)

variable (self : B2Interface) (env : Env) (script : Script) (account : Account) (file : File)

/-! ## The upload url -/

structure Obtaining where
  account : Account
  content : Content := .none
  status : Option ℕ := none

/-- A turn of the loop; what `_b2_authorize` raises is caught with the rest. -/
def obtainAttempt (i : ℕ) (s : Obtaining) : Attempt Obtaining (Object × Account) :=
  match script.obtain i with
  | .raises _ => .again s
  | .ok _ content => .done (content, s.account)
  | .fails status content =>
    if status = 401 then
      .again { s with account := (self.b2Authorize (script.authorize i) s.account).2 }
    else .again { s with content := .raw content, status := some status }

def obtainUploadUrl : Except Fault Object × Account :=
  match loop (self.obtainAttempt script) self.b2MaxRetries 0 { account } with
  | .done (content, account) => (.ok content, account)
  | .again s =>
    ((s.content.response env.loads).bind fun response =>
      .error (.b2AuthorizationError response s.status), s.account)

/-! ## The upload -/

def truthy : Option Str → Option Str
  | some [] => none
  | given => given

/-- `content_type or self._get_mime_from_filename(filename)`. -/
def sentType : Except Fault Str :=
  match truthy file.contentType with
  | some contentType => .ok contentType
  | none => self.getMimeFromFilename env.lower file.filename

/-- `sha1 or hashlib_sha1(file_data).hexdigest()`. -/
def sentSha1 : Str := (truthy file.sha1).getD (env.hexdigest file.fileData)

def ensure (holds : Bool) : Except Fault Unit := if holds then .ok () else .error .assertionError

def isStr (text : Str) : Json → Bool
  | .str value => value = text
  | _ => false

def unquoteValue : Json → Except Fault Str
  | .str value => .ok (Percent.unquote value)
  | .list _ => .error .attributeError
  | .dict _ => .error .attributeError
  | _ => .error .typeError

def check (contentType sha1 filename : Str) (content : Object) : Except Fault Unit := do
  ensure (isStr contentType (← getitem content "contentType"))
  ensure (isStr sha1 (← getitem content "contentSha1"))
  ensure (filename = (← unquoteValue (← getitem content "fileName")))

/-- How an ok response ends the loop; none when what was raised is caught. -/
def verdict (contentType sha1 filename : Str) (content : Object) :
    Option (Except Fault Object) :=
  match check contentType sha1 filename content with
  | .ok () => some (.ok content)
  | .error .assertionError => some (.error .assertionError)
  | .error _ => none

structure Uploading where
  content : Content := .none
  status : Option ℕ := none

def uploadAttempt (contentType sha1 filename : Str) (uploadUrl : Object) (i : ℕ) (s : Uploading) :
    Attempt Uploading (Except Fault Object) :=
  match getitem uploadUrl "uploadUrl" with
  | .error _ => .again s
  | .ok _ =>
    match script.upload i with
    | .raises status => .again { s with status := status.or s.status }
    | .ok status content =>
      match verdict contentType sha1 filename content with
      | some result => .done result
      | none => .again { content := .decoded content, status := some status }
    | .fails status content => .again { content := .raw content, status := some status }

/-- `b2_upload` once the upload url is there. -/
def upload (uploadUrl : Object) : Except Fault Object := do
  let sha1 := sentSha1 env file
  let contentType ← self.sentType env file
  let token ← getitem uploadUrl "authorizationToken"
  match Percent.quote file.filename with
  | none => .error .unicodeEncodeError
  | some quoted =>
    let headers : Headers := ⟨token, quoted, contentType, file.fileData.length, sha1⟩
    match loop (uploadAttempt script contentType sha1 file.filename uploadUrl) self.b2MaxRetries 0
      {} with
    | .done result => result
    | .again s => do
      let response ← s.content.response env.loads
      .error (.b2UploadError response s.status uploadUrl headers file.fileData.length)

def b2Upload : Except Fault Object × Account :=
  let (uploadUrl, account) := self.obtainUploadUrl env script account
  (uploadUrl.bind (self.upload env script file), account)

/-- `_obtain_upload_url_async`: what `response.json()` and `response.read()` raise is caught as
well. -/
def obtainUploadUrlAsync : Except Fault Object × Account :=
  self.obtainUploadUrl env script account

def b2UploadAsync : Except Fault Object × Account :=
  let (uploadUrl, account) := self.obtainUploadUrlAsync env script account
  (uploadUrl.bind (self.upload env script file), account)

end KhCommon.B2Interface

/-! ## Reports -/

namespace KhCommon.Backblaze

open Python Attempts Outcome
open Auth (Json)

def Reply.refusal : Reply → Option Content
  | .fails status content => if status = 401 then none else some (.raw content)
  | _ => none

def Reply.answer : Reply → Option Content
  | .raises _ => none
  | .ok _ content => some (.decoded content)
  | .fails _ content => some (.raw content)

def Content.Decodable (loads : Bytes → Option Json) : Content → Prop
  | .none => True
  | .raw content => content = [] ∨ ∃ value, loads content = some value
  | .decoded content => content = []

structure Matches (contentType sha1 filename : Str) (content : Object) : Prop where
  contentType : content.lookup (literal "contentType") = some (.str contentType)
  contentSha1 : content.lookup (literal "contentSha1") = some (.str sha1)
  fileName : ∃ name, content.lookup (literal "fileName") = some (.str name) ∧
    Percent.unquote name = filename

def Mismatches (contentType sha1 filename : Str) (content : Object) : Prop :=
  (∃ value, content.lookup (literal "contentType") = some value ∧ value ≠ .str contentType) ∨
  (∃ value, content.lookup (literal "contentSha1") = some value ∧ value ≠ .str sha1) ∨
  ∃ name, content.lookup (literal "fileName") = some (.str name) ∧ Percent.unquote name ≠ filename

def IsB2Error : Fault → Prop
  | .b2AuthorizationError _ _ => True
  | .b2UploadError _ _ _ _ _ => True
  | _ => False

theorem meets_response {loads : Bytes → Option Json} {E : Fault → Prop} {P : Option Json → Prop}
    (content : Content) (valueError : ¬E .valueError) (typeError : ¬E .typeError)
    (all : ∀ response, P response) :
    Meets E P (content.response loads) ↔ content.Decodable loads := by
  cases content with
  | none => simp [Content.response, Content.Decodable, all]
  | decoded content =>
    by_cases empty : content = [] <;>
      simp [Content.response, Content.Decodable, empty, all, typeError]
  | raw content =>
    by_cases empty : content = []
    · simp [Content.response, Content.Decodable, empty, all]
    · cases loaded : loads content <;>
        simp [Content.response, Content.Decodable, empty, loaded, all, valueError]

end KhCommon.Backblaze

namespace KhCommon.B2Interface

open Python Attempts Outcome Backblaze
open Auth (Json)

variable {self : B2Interface} {env : Env} {script : Script} {account : Account} {file : File}

/-! ## One turn of each loop -/

theorem reads_obtain (self : B2Interface) (script : Script) :
    Reads (self.obtainAttempt script) (fun i => (script.obtain i).object) Prod.fst
      (fun i => (script.obtain i).refusal) Obtaining.content := by
  refine .of_attempt fun i s => ?_
  simp only [obtainAttempt]
  cases script.obtain i with
  | raises status => exact ⟨rfl, rfl⟩
  | ok status content => rfl
  | fails status content =>
    simp only [Reply.refusal]
    split_ifs with unauthorized <;> exact ⟨rfl, rfl⟩

section Turn

variable {contentType sha1 filename : Str} {content uploadUrl : Object}

theorem isStr_iff {text : Str} {value : Json} : isStr text value ↔ value = .str text := by
  cases value <;> simp [isStr]

theorem ensure_field_cases (text : Str) (key : String) (content : Object) :
    let asserted := getitem content key >>= fun value => ensure (isStr text value)
    (asserted = .ok () ∧ content.lookup (literal key) = some (.str text)) ∨
    (asserted = .error .assertionError ∧
      ∃ value, content.lookup (literal key) = some value ∧ value ≠ .str text) ∨
    asserted = .error .keyError := by
  intro asserted
  cases found : content.lookup (literal key) with
  | none =>
    have missing : getitem content key = .error .keyError := by rw [getitem, found]
    exact .inr (.inr (by simp only [asserted, missing]; rfl))
  | some value =>
    have there : asserted = ensure (isStr text value) := by
      simp only [asserted, getitem, found]
      rfl
    by_cases same : value = .str text
    · exact .inl ⟨by rw [there, ensure, if_pos (isStr_iff.mpr same)], by rw [same]⟩
    · refine .inr (.inl ⟨?_, value, rfl, same⟩)
      rw [there, ensure, if_neg (isStr_iff.not.mpr same)]

theorem ensure_fileName_cases (filename : Str) (content : Object) :
    let asserted := getitem content "fileName" >>= fun value =>
      unquoteValue value >>= fun name => ensure (filename = name)
    (asserted = .ok () ∧ ∃ name, content.lookup (literal "fileName") = some (.str name) ∧
      Percent.unquote name = filename) ∨
    (asserted = .error .assertionError ∧ ∃ name,
      content.lookup (literal "fileName") = some (.str name) ∧ Percent.unquote name ≠ filename) ∨
    ∃ fault, asserted = .error fault ∧ fault ≠ .assertionError := by
  intro asserted
  cases found : content.lookup (literal "fileName") with
  | none =>
    have missing : getitem content "fileName" = .error .keyError := by rw [getitem, found]
    exact .inr (.inr ⟨.keyError, by simp only [asserted, missing]; rfl, nofun⟩)
  | some value =>
    have there : asserted = unquoteValue value >>= fun name => ensure (filename = name) := by
      simp only [asserted, getitem, found]
      rfl
    rw [there]
    cases value with
    | str name =>
      have unquoted : (unquoteValue (.str name) >>= fun name => ensure (filename = name)) =
          ensure (filename = Percent.unquote name) := rfl
      rw [unquoted]
      by_cases same : filename = Percent.unquote name
      · exact .inl ⟨by simp [ensure, same], name, rfl, same.symm⟩
      · exact .inr (.inl ⟨by simp [ensure, same], name, rfl, Ne.symm same⟩)
    | null => exact .inr (.inr ⟨.typeError, rfl, nofun⟩)
    | bool => exact .inr (.inr ⟨.typeError, rfl, nofun⟩)
    | number => exact .inr (.inr ⟨.typeError, rfl, nofun⟩)
    | list => exact .inr (.inr ⟨.attributeError, rfl, nofun⟩)
    | dict => exact .inr (.inr ⟨.attributeError, rfl, nofun⟩)

theorem check_eq (contentType sha1 filename : Str) (content : Object) :
    check contentType sha1 filename content =
      ((getitem content "contentType" >>= fun value => ensure (isStr contentType value)) >>=
        fun _ => (getitem content "contentSha1" >>= fun value => ensure (isStr sha1 value)) >>=
          fun _ => getitem content "fileName" >>= fun value =>
            unquoteValue value >>= fun name => ensure (filename = name)) := by
  simp only [check, bind_assoc]

theorem verdict_cases (contentType sha1 filename : Str) (content : Object) :
    verdict contentType sha1 filename content = none ∨
    (verdict contentType sha1 filename content = some (.ok content) ∧
      Matches contentType sha1 filename content) ∨
    (verdict contentType sha1 filename content = some (.error .assertionError) ∧
      Mismatches contentType sha1 filename content) := by
  rw [verdict, check_eq]
  rcases ensure_field_cases contentType "contentType" content with
    ⟨type, sameType⟩ | ⟨type, other⟩ | type <;> rw [type]
  · rcases ensure_field_cases sha1 "contentSha1" content with
      ⟨sum, sameSum⟩ | ⟨sum, other⟩ | sum <;> rw [sum]
    · rcases ensure_fileName_cases filename content with
        ⟨name, sameName⟩ | ⟨name, other⟩ | ⟨fault, name, caught⟩
      · exact .inr (.inl ⟨by simp only [name]; rfl, sameType, sameSum, sameName⟩)
      · exact .inr (.inr ⟨by simp only [name]; rfl, .inr (.inr other)⟩)
      · refine .inl ?_
        simp only [name]
        cases fault <;> first | rfl | exact absurd rfl caught
    · exact .inr (.inr ⟨rfl, .inr (.inl other)⟩)
    · exact .inl rfl
  · exact .inr (.inr ⟨rfl, .inl other⟩)
  · exact .inl rfl

def ending (contentType sha1 filename : Str) (reply : Reply) : Option (Except Fault Object) :=
  reply.object.bind (verdict contentType sha1 filename)

theorem reads_upload (script : Script) (contentType sha1 filename : Str) {value : Json}
    (present : uploadUrl.lookup (literal "uploadUrl") = some value) :
    Reads (uploadAttempt script contentType sha1 filename uploadUrl)
      (fun i => ending contentType sha1 filename (script.upload i)) id
      (fun i => (script.upload i).answer) Uploading.content := by
  have url : getitem uploadUrl "uploadUrl" = .ok value := by rw [getitem, present]
  refine .of_attempt fun i s => ?_
  simp only [uploadAttempt, url]
  cases script.upload i with
  | raises status => exact ⟨rfl, rfl⟩
  | fails status content => exact ⟨rfl, rfl⟩
  | ok status content =>
    simp only [ending, Reply.object, Option.bind_some]
    cases verdict contentType sha1 filename content with
    | some result => rfl
    | none => exact ⟨rfl, rfl⟩

theorem reads_upload_nowhere (script : Script) (contentType sha1 filename : Str)
    (absent : uploadUrl.lookup (literal "uploadUrl") = none) :
    Reads (uploadAttempt script contentType sha1 filename uploadUrl)
      (fun _ => (none : Option (Except Fault Object))) id (fun _ => none) Uploading.content := by
  have url : getitem uploadUrl "uploadUrl" = .error .keyError := by rw [getitem, absent]
  refine .of_attempt fun i s => ?_
  simp only [uploadAttempt, url]
  exact ⟨trivial, rfl⟩

end Turn

/-! ## What comes of the loops -/

section Reported

variable {E : Fault → Prop} {P : Object → Prop}

structure Admits (E : Fault → Prop) : Prop where
  b2 : ∀ fault, IsB2Error fault → E fault
  attributeError : ¬E .attributeError
  keyError : ¬E .keyError
  typeError : ¬E .typeError
  unicodeEncodeError : ¬E .unicodeEncodeError
  valueError : ¬E .valueError

theorem meets_report (admits : Admits E) {content : Content}
    {fault : Option Json → Fault} (b2 : ∀ response, IsB2Error (fault response)) :
    Meets E P (content.response env.loads >>= fun response => .error (fault response)) ↔
      content.Decodable env.loads := by
  rw [meets_bind]
  exact meets_response content admits.valueError admits.typeError
    fun response => admits.b2 _ (b2 response)

theorem meets_obtainUploadUrl (admits : Admits E) :
    Meets E P (self.obtainUploadUrl env script account).1 ↔
      ((∀ i < self.b2MaxRetries, (script.obtain i).object = none) →
        LastWrite (Content.Decodable env.loads) (fun i => (script.obtain i).refusal)
          self.b2MaxRetries) ∧
      ∀ url, FirstEnd (fun i => (script.obtain i).object) self.b2MaxRetries url → P url := by
  have run := (reads_obtain self script).loop_iff (A := Content.Decodable env.loads) (D := P)
    (s := ({ account } : Obtaining)) self.b2MaxRetries trivial
  rw [← run, obtainUploadUrl]
  cases loop (self.obtainAttempt script) self.b2MaxRetries 0 { account } with
  | done result => rfl
  | again s => exact meets_report admits fun response => trivial

theorem meets_uploads (admits : Admits E) {contentType sha1 filename : Str} {uploadUrl : Object}
    {fault : Uploading → Option Json → Fault} (b2 : ∀ s response, IsB2Error (fault s response))
    (settled : ∀ i < self.b2MaxRetries, ∀ result,
      ending contentType sha1 filename (script.upload i) = some result → Meets E P result) :
    Meets E P (match loop (uploadAttempt script contentType sha1 filename uploadUrl)
        self.b2MaxRetries 0 {} with
      | .done result => result
      | .again s => s.content.response env.loads >>= fun response => .error (fault s response)) ↔
      ((∃ value, uploadUrl.lookup (literal "uploadUrl") = some value) →
        (∀ i < self.b2MaxRetries, ending contentType sha1 filename (script.upload i) = none) →
        LastWrite (Content.Decodable env.loads) (fun i => (script.upload i).answer)
          self.b2MaxRetries) := by
  have report (run : Attempt Uploading (Except Fault Object)) :
      Meets E P (match run with
        | .done result => result
        | .again s => s.content.response env.loads >>= fun response => .error (fault s response)) ↔
        run.Holds (fun s => s.content.Decodable env.loads) fun result => Meets E P (id result) := by
    cases run with
    | done result => rfl
    | again s => exact meets_report admits (b2 s)
  rw [report]
  cases address : uploadUrl.lookup (literal "uploadUrl") with
  | some value =>
    rw [(reads_upload script contentType sha1 filename address).loop_iff self.b2MaxRetries trivial]
    refine ⟨fun all _ => all.1, fun last => ⟨last ⟨value, rfl⟩, fun result first => ?_⟩⟩
    obtain ⟨k, inside, ends, -⟩ := first
    exact settled k inside result ends
  | none =>
    rw [(reads_upload_nowhere script contentType sha1 filename address).loop_iff
      self.b2MaxRetries trivial]
    refine iff_of_true ⟨fun _ k _ w written => ?_, fun result first => ?_⟩ fun some => ?_
    · cases written
    · obtain ⟨k, -, ends, -⟩ := first
      cases ends
    · obtain ⟨value, some⟩ := some
      cases some

structure Sendable (b2 : B2Interface) (env : Env) (file : File) (uploadUrl : Object) : Prop where
  contentType : ∃ type, b2.sentType env file = .ok type
  authorization : ∃ token, uploadUrl.lookup (literal "authorizationToken") = some token
  fileName : ∃ bytes, encode file.filename = some bytes

theorem sentType_eq_error {fault : Fault} (h : self.sentType env file = .error fault) :
    fault = .keyError ∨ fault = .valueError := by
  unfold sentType getMimeFromFilename at h
  grind

theorem upload_eq {type : Str} {uploadUrl : Object} {token : Json} {bytes : Bytes}
    (typed : self.sentType env file = .ok type)
    (authorization : uploadUrl.lookup (literal "authorizationToken") = some token)
    (encoded : encode file.filename = some bytes) :
    self.upload env script file uploadUrl =
      match loop (uploadAttempt script type (sentSha1 env file) file.filename uploadUrl)
        self.b2MaxRetries 0 {} with
      | .done result => result
      | .again s => s.content.response env.loads >>= fun response =>
        .error (.b2UploadError response s.status uploadUrl
          ⟨token, ofBytes (bytes.flatMap Percent.quoteByte), type, file.fileData.length,
            sentSha1 env file⟩ file.fileData.length) := by
  simp only [upload, typed, getitem, authorization, Percent.quote, encoded, Option.map_some]
  rfl

theorem upload_of_not_sendable (script : Script) {uploadUrl : Object}
    (h : ¬self.Sendable env file uploadUrl) :
    ∃ fault, self.upload env script file uploadUrl = .error fault ∧
      (fault = .keyError ∨ fault = .valueError ∨ fault = .unicodeEncodeError) := by
  cases typed : self.sentType env file with
  | error fault =>
    refine ⟨fault, ?_, (sentType_eq_error typed).imp_right .inl⟩
    simp only [upload, typed]
    rfl
  | ok type =>
    cases authorization : uploadUrl.lookup (literal "authorizationToken") with
    | none =>
      refine ⟨.keyError, ?_, .inl rfl⟩
      simp only [upload, typed, getitem, authorization]
      rfl
    | some token =>
      cases encoded : encode file.filename with
      | none =>
        refine ⟨.unicodeEncodeError, ?_, .inr (.inr rfl)⟩
        simp only [upload, typed, getitem, authorization, Percent.quote, encoded, Option.map_none]
        rfl
      | some bytes => exact absurd ⟨⟨type, typed⟩, ⟨token, authorization⟩, bytes, encoded⟩ h

theorem meets_upload (admits : Admits E) (uploadUrl : Object)
    (settled : ∀ type, self.sentType env file = .ok type → ∀ i < self.b2MaxRetries, ∀ result,
      ending type (sentSha1 env file) file.filename (script.upload i) = some result →
        Meets E P result) :
    Meets E P (self.upload env script file uploadUrl) ↔
      self.Sendable env file uploadUrl ∧
      ∀ type, self.sentType env file = .ok type →
        (∃ value, uploadUrl.lookup (literal "uploadUrl") = some value) →
        (∀ i < self.b2MaxRetries,
          ending type (sentSha1 env file) file.filename (script.upload i) = none) →
        LastWrite (Content.Decodable env.loads) (fun i => (script.upload i).answer)
          self.b2MaxRetries := by
  by_cases sendable : self.Sendable env file uploadUrl
  · obtain ⟨type, typed⟩ := sendable.contentType
    obtain ⟨token, authorization⟩ := sendable.authorization
    obtain ⟨bytes, encoded⟩ := sendable.fileName
    rw [upload_eq typed authorization encoded, meets_uploads admits ?_ (settled type typed)]
    · refine ⟨fun last => ⟨sendable, fun type' same => ?_⟩, fun all => all.2 type typed⟩
      cases typed.symm.trans same
      exact last
    · exact fun s response => trivial
  · obtain ⟨fault, raised, kind⟩ := upload_of_not_sendable script sendable
    rw [raised]
    refine iff_of_false (fun admitted => ?_) fun all => sendable all.1
    rcases kind with rfl | rfl | rfl
    · exact admits.keyError admitted
    · exact admits.valueError admitted
    · exact admits.unicodeEncodeError admitted

end Reported

/-! ## Every failed upload -/

/-- An error of B2, or an `AssertionError` for a response that is not what was sent. -/
def Expected (self : B2Interface) (env : Env) (script : Script) (file : File) (fault : Fault) :
    Prop :=
  IsB2Error fault ∨ fault = .assertionError ∧
    ∃ i < self.b2MaxRetries, ∃ response, (script.upload i).object = some response ∧
    ∃ type, self.sentType env file = .ok type ∧
      Mismatches type (sentSha1 env file) file.filename response

def Received (self : B2Interface) (env : Env) (script : Script) (file : File)
    (response : Object) : Prop :=
  (∃ i < self.b2MaxRetries, (script.upload i).object = some response) ∧
    ∃ type, self.sentType env file = .ok type ∧
      Matches type (sentSha1 env file) file.filename response

def Reported (self : B2Interface) (env : Env) (script : Script) (file : File)
    (result : Except Fault Object) : Prop :=
  Meets (self.Expected env script file) (self.Received env script file) result

/-- The errors can be put together: what the last refusal was, if no upload url is obtained; and
for the first one that is, the headers, and what the last answer to an upload was, if none of
them ends the loop. -/
structure Reportable (b2 : B2Interface) (env : Env) (script : Script) (file : File) : Prop where
  refused : (∀ i < b2.b2MaxRetries, (script.obtain i).object = none) →
    LastWrite (Content.Decodable env.loads) (fun i => (script.obtain i).refusal) b2.b2MaxRetries
  sendable : ∀ url, FirstEnd (fun i => (script.obtain i).object) b2.b2MaxRetries url →
    b2.Sendable env file url
  answered : ∀ url, FirstEnd (fun i => (script.obtain i).object) b2.b2MaxRetries url →
    ∀ type, b2.sentType env file = .ok type →
    (∃ value, url.lookup (literal "uploadUrl") = some value) →
    (∀ i < b2.b2MaxRetries,
      ending type (sentSha1 env file) file.filename (script.upload i) = none) →
    LastWrite (Content.Decodable env.loads) (fun i => (script.upload i).answer) b2.b2MaxRetries

theorem admits_expected (self : B2Interface) (env : Env) (script : Script) (file : File) :
    Admits (self.Expected env script file) := by
  refine ⟨fun fault b2 => .inl b2, ?_, ?_, ?_, ?_, ?_⟩ <;> simp [Expected, IsB2Error]

theorem reported_ending {type : Str} (typed : self.sentType env file = .ok type) {i : ℕ}
    (inside : i < self.b2MaxRetries) {result : Except Fault Object}
    (ends : ending type (sentSha1 env file) file.filename (script.upload i) = some result) :
    self.Reported env script file result := by
  obtain ⟨content, answered, judged⟩ := Option.bind_eq_some_iff.mp ends
  rcases verdict_cases type (sentSha1 env file) file.filename content with
    caught | ⟨accepted, same⟩ | ⟨refused, other⟩
  · rw [caught] at judged
    cases judged
  · rw [accepted, Option.some.injEq] at judged
    subst judged
    exact ⟨⟨i, inside, answered⟩, type, typed, same⟩
  · rw [refused, Option.some.injEq] at judged
    subst judged
    exact .inr ⟨rfl, i, inside, content, answered, type, typed, other⟩

/-- A failed upload is reported as an error of B2 exactly if that error can be put together; and so
is one of the async twin. -/
theorem b2Upload_reported_iff (self : B2Interface) (env : Env) (script : Script)
    (account : Account) (file : File) :
    (self.Reported env script file (self.b2Upload env script account file).1 ↔
      self.Reportable env script file) ∧
    (self.Reported env script file (self.b2UploadAsync env script account file).1 ↔
      self.Reportable env script file) := by
  have admits := self.admits_expected env script file
  have sync : self.Reported env script file (self.b2Upload env script account file).1 ↔
      self.Reportable env script file := by
    have stages : (self.b2Upload env script account file).1 =
        ((self.obtainUploadUrl env script account).1 >>= self.upload env script file) := rfl
    rw [Reported, stages, meets_bind, meets_obtainUploadUrl admits]
    have uploads (url : Object) := meets_upload admits url
      fun type typed i inside result ends =>
        show self.Reported env script file result from reported_ending typed inside ends
    simp only [uploads]
    constructor
    · rintro ⟨refused, obtained⟩
      exact ⟨refused, fun url first => (obtained url first).1,
        fun url first => (obtained url first).2⟩
    · rintro ⟨refused, sendable, answered⟩
      exact ⟨refused, fun url first => ⟨sendable url first, answered url first⟩⟩
  exact ⟨sync, sync⟩

/-- A single attempt, which the server refuses with the body `<`: it is not JSON. -/
theorem b2Upload_not_reported :
    ¬ ∀ (self : B2Interface) (env : Env) (script : Script) (account : Account) (file : File),
      1 ≤ self.b2MaxRetries → (∃ type, self.sentType env file = .ok type) →
      self.Reported env script file (self.b2Upload env script account file).1 := by
  intro all
  let self : B2Interface := init 1 ∅
  let env : Env := ⟨fun _ => none, fun _ => [], id⟩
  let url : Object := [(literal "authorizationToken", .str []), (literal "uploadUrl", .str [])]
  let script : Script := ⟨fun _ => .ok 200 url, fun _ _ => .raises none, fun _ => .fails 503 [60]⟩
  let file : File := { fileData := [], filename := [], contentType := some (literal "text/plain") }
  have reported := all self env script ⟨.null, .null, .null, .null⟩ file (Nat.le_refl 1) ⟨_, rfl⟩
  have raised : (self.b2Upload env script ⟨.null, .null, .null, .null⟩ file).1 =
      .error .valueError := by rfl
  rw [Reported, raised] at reported
  exact (self.admits_expected env script file).valueError reported

end KhCommon.B2Interface
