import KhCommon.Backblaze.Lookup

/-! An upload or a lookup among others comes to what it comes to alone, for some answers to
its requests: whatever the others do, it sees nothing of them but its answers. So what
holds of the single calls whatever they are answered holds of theirs here. -/

namespace KhCommon.Backblaze.Store

open Python Attempts Machine
open B2Interface

variable {self : B2Interface} {env : Env} {describe : Version Str → Headers → Object} {s : State}

/-! ## An upload -/

variable {file : File} {uploadUrl : Object} {sent : Headers} {script : Script} {i : ℕ}

section Alone

theorem upload_eq_headers : self.upload env script file uploadUrl =
    (headers self env file uploadUrl).bind fun sent =>
      match loop (uploadAttempt script sent.contentType sent.contentSha1 file.filename uploadUrl)
        self.b2MaxRetries 0 {} with
      | .done result => result
      | .again s => (s.content.response env.loads).bind fun response =>
        .error (.b2UploadError response s.status uploadUrl sent file.fileData.length) := by
  unfold upload headers
  cases self.sentType env file with
  | error fault => rfl
  | ok contentType =>
    cases getitem uploadUrl "authorizationToken" with
    | error fault => rfl
    | ok token => cases Percent.quote file.filename <;> rfl

theorem upload_of_error {fault : Fault} (built : headers self env file uploadUrl = .error fault) :
    self.upload env script file uploadUrl = .error fault := by
  rw [upload_eq_headers, built]
  rfl

theorem upload_of_done {result : Except Fault Object}
    (built : headers self env file uploadUrl = .ok sent)
    (done : loop (uploadAttempt script sent.contentType sent.contentSha1 file.filename uploadUrl)
      self.b2MaxRetries 0 {} = .done result) :
    self.upload env script file uploadUrl = result := by
  rw [upload_eq_headers, built, Except.bind, done]

theorem upload_of_again {st : Uploading} (built : headers self env file uploadUrl = .ok sent)
    (again : loop (uploadAttempt script sent.contentType sent.contentSha1 file.filename uploadUrl)
      self.b2MaxRetries 0 {} = .again st) :
    self.upload env script file uploadUrl =
      (st.content.response env.loads).bind fun response =>
        .error (.b2UploadError response st.status uploadUrl sent file.fileData.length) := by
  rw [upload_eq_headers, built, Except.bind, again]

theorem b2UploadAsync_of_obtained {account : Account}
    (obtained : (self.obtainUploadUrl env script account).1 = .ok uploadUrl) :
    (self.b2UploadAsync env script account file).1 = self.upload env script file uploadUrl := by
  rw [b2UploadAsync, obtainUploadUrlAsync]
  dsimp only
  rw [obtained]
  rfl

end Alone

/-- Where an upload of the file stands, after the answers of some script. -/
def Uploads (self : B2Interface) (env : Env) (file : File) : Phase → Prop
  | .obtaining file' i content status => file' = file ∧ i < self.b2MaxRetries ∧
    ∃ script, ∀ account, ∃ account',
      loop (self.obtainAttempt script) i 0 { account } = .again ⟨account', content, status⟩
  | .uploading file' uploadUrl sent i s _ => file' = file ∧ i < self.b2MaxRetries ∧
    headers self env file uploadUrl = .ok sent ∧
    ∃ script, (∀ account, (self.obtainUploadUrl env script account).1 = .ok uploadUrl) ∧
      loop (uploadAttempt script sent.contentType sent.contentSha1 file.filename uploadUrl) i 0
        {} = .again s
  | .ended result => ∃ script, ∀ account,
    (self.b2UploadAsync env script account file).1.map .uploaded = result
  | _ => False

section Upload

variable (script) in
theorem uploads_nextObtain {content : Content} {status : Option ℕ} (inside : i ≤ self.b2MaxRetries)
    (answered : ∀ account, ∃ account',
      loop (self.obtainAttempt script) i 0 { account } = .again ⟨account', content, status⟩) :
    Uploads self env file (nextObtain self env file i content status) := by
  unfold nextObtain
  split_ifs with more
  · exact ⟨rfl, more, script, answered⟩
  · obtain rfl : i = self.b2MaxRetries := by omega
    refine ⟨script, fun account => ?_⟩
    obtain ⟨account', ends⟩ := answered account
    rw [b2UploadAsync, obtainUploadUrlAsync, obtainUploadUrl, ends]
    dsimp only
    cases content.response env.loads <;> rfl

theorem uploads_nextUpload {uploadUrl : Object} {sent : Headers} {st : Uploading}
    (inside : i ≤ self.b2MaxRetries) (built : headers self env file uploadUrl = .ok sent)
    (obtained : ∀ account, (self.obtainUploadUrl env script account).1 = .ok uploadUrl)
    (answered : loop (uploadAttempt script sent.contentType sent.contentSha1 file.filename
      uploadUrl) i 0 {} = .again st) :
    Uploads self env file (nextUpload self env file uploadUrl sent i st) := by
  unfold nextUpload
  split_ifs with more
  · exact ⟨rfl, more, built, script, obtained, answered⟩
  · obtain rfl : i = self.b2MaxRetries := by omega
    refine ⟨script, fun account => ?_⟩
    rw [b2UploadAsync_of_obtained (obtained account), upload_of_again built answered]
    cases st.content.response env.loads <;> rfl

def obtainedSo (script : Script) (i : ℕ) (reply : Reply) (authorize : ℕ → Reply) : Script :=
  { script with
    obtain := Function.update script.obtain i reply
    authorize := Function.update script.authorize i authorize }

theorem loop_obtainedSo (script : Script) (i : ℕ) (reply : Reply) (authorize : ℕ → Reply)
    {st st' : Obtaining} (answered : loop (self.obtainAttempt script) i 0 st = .again st') :
    loop (self.obtainAttempt (obtainedSo script i reply authorize)) (i + 1) 0 st =
      self.obtainAttempt (answering reply authorize) i st' := by
  have before : loop (self.obtainAttempt (obtainedSo script i reply authorize)) i 0 st =
      loop (self.obtainAttempt script) i 0 st := by
    refine loop_congr fun j _ inside st => ?_
    simp only [obtainAttempt, obtainedSo, Function.update_of_ne (by omega : j ≠ i)]
  have now (st : Obtaining) : self.obtainAttempt (obtainedSo script i reply authorize) i st =
      self.obtainAttempt (answering reply authorize) i st := by
    simp only [obtainAttempt, obtainedSo, answering, Function.update_self]
  rw [loop_succ, before, answered, Nat.zero_add]
  exact now st'

theorem uploads_obtainTurn {content : Content} {status : Option ℕ} (inside : i < self.b2MaxRetries)
    (answered : ∀ account, ∃ account',
      loop (self.obtainAttempt script) i 0 { account } = .again ⟨account', content, status⟩)
    (account : Account) (reply : Reply) (authorize : ℕ → Reply) :
    Uploads self env file
      (obtainTurn self env file i ⟨account, content, status⟩ reply authorize).1 := by
  have answers (account : Account) : ∃ account',
      loop (self.obtainAttempt (obtainedSo script i reply authorize)) (i + 1) 0 { account } =
        self.obtainAttempt (answering reply authorize) i ⟨account', content, status⟩ := by
    obtain ⟨account', again⟩ := answered account
    exact ⟨account', loop_obtainedSo script i reply authorize again⟩
  unfold obtainTurn
  cases reply with
  | ok code uploadUrl =>
    have obtained (account : Account) : (self.obtainUploadUrl env
        (obtainedSo script i (.ok code uploadUrl) authorize) account).1 = .ok uploadUrl := by
      obtain ⟨account', done⟩ := answers account
      rw [obtainUploadUrl, loop_done_of_le done inside]
    have done : self.obtainAttempt (answering (.ok code uploadUrl) authorize) i
        ⟨account, content, status⟩ = .done (uploadUrl, account) := rfl
    rw [done]
    dsimp only
    cases built : headers self env file uploadUrl with
    | error fault =>
      refine ⟨obtainedSo script i (.ok code uploadUrl) authorize, fun account => ?_⟩
      rw [b2UploadAsync_of_obtained (obtained account), upload_of_error built]
      rfl
    | ok sent => exact uploads_nextUpload (Nat.zero_le _) built obtained rfl
  | raises code =>
    refine uploads_nextObtain (obtainedSo script i (.raises code) authorize) inside
      fun account => ?_
    obtain ⟨account', again⟩ := answers account
    exact ⟨account', again⟩
  | fails code body =>
    by_cases unauthorized : code = 401
    · have turn (account : Account) : self.obtainAttempt (answering (.fails code body) authorize) i
          ⟨account, content, status⟩ =
            .again ⟨(self.b2Authorize authorize account).2, content, status⟩ := if_pos unauthorized
      rw [turn]
      refine uploads_nextObtain (obtainedSo script i (.fails code body) authorize) inside
        fun account => ?_
      obtain ⟨account', again⟩ := answers account
      exact ⟨_, again.trans (turn account')⟩
    · have turn (account : Account) : self.obtainAttempt (answering (.fails code body) authorize) i
          ⟨account, content, status⟩ = .again ⟨account, .raw body, some code⟩ :=
        if_neg unauthorized
      rw [turn]
      refine uploads_nextObtain (obtainedSo script i (.fails code body) authorize) inside
        fun account => ?_
      obtain ⟨account', again⟩ := answers account
      exact ⟨_, again.trans (turn account')⟩

def uploadedSo (script : Script) (i : ℕ) (reply : Reply) : Script :=
  { script with upload := Function.update script.upload i reply }

theorem loop_uploadedSo (script : Script) (i : ℕ) (reply : Reply) {contentType sha1 name : Str}
    {st st' : Uploading}
    (answered : loop (uploadAttempt script contentType sha1 name uploadUrl) i 0 st = .again st') :
    loop (uploadAttempt (uploadedSo script i reply) contentType sha1 name uploadUrl) (i + 1) 0 st =
      uploadAttempt (answering reply fun _ => reply) contentType sha1 name uploadUrl i st' := by
  have before : loop (uploadAttempt (uploadedSo script i reply) contentType sha1 name uploadUrl) i 0
      st = loop (uploadAttempt script contentType sha1 name uploadUrl) i 0 st := by
    refine loop_congr fun j _ inside st => ?_
    simp only [uploadAttempt, uploadedSo, Function.update_of_ne (by omega : j ≠ i)]
  have now (st : Uploading) :
      uploadAttempt (uploadedSo script i reply) contentType sha1 name uploadUrl i st =
        uploadAttempt (answering reply fun _ => reply) contentType sha1 name uploadUrl i st := by
    simp only [uploadAttempt, uploadedSo, answering, Function.update_self]
  rw [loop_succ, before, answered, Nat.zero_add]
  exact now st'

theorem uploads_uploadTurn {uploadUrl : Object} {sent : Headers} {st : Uploading}
    (inside : i < self.b2MaxRetries) (built : headers self env file uploadUrl = .ok sent)
    (obtained : ∀ account, (self.obtainUploadUrl env script account).1 = .ok uploadUrl)
    (answered : loop (uploadAttempt script sent.contentType sent.contentSha1 file.filename
      uploadUrl) i 0 {} = .again st) (reply : Reply) :
    Uploads self env file (uploadTurn self env file uploadUrl sent i st reply) := by
  have answers : loop (uploadAttempt (uploadedSo script i reply) sent.contentType sent.contentSha1
      file.filename uploadUrl) (i + 1) 0 {} = uploadAttempt (answering reply fun _ => reply)
        sent.contentType sent.contentSha1 file.filename uploadUrl i st :=
    loop_uploadedSo script i reply answered
  -- the requests for the url are answered as before
  have obtained' (account : Account) :
      (self.obtainUploadUrl env (uploadedSo script i reply) account).1 = .ok uploadUrl :=
    obtained account
  unfold uploadTurn
  cases turn : uploadAttempt (answering reply fun _ => reply) sent.contentType sent.contentSha1
      file.filename uploadUrl i st with
  | again st' => exact uploads_nextUpload inside built obtained' (answers.trans turn)
  | done result =>
    refine ⟨uploadedSo script i reply, fun account => ?_⟩
    rw [b2UploadAsync_of_obtained (obtained' account),
      upload_of_done built (loop_done_of_le (answers.trans turn) inside)]

end Upload

/-! ## A lookup -/

/-- Where a lookup of the file stands, after these listings. -/
def Looks (self : B2Interface) (filename : Str) : Phase → Prop
  | .finding name i _ => name = filename ∧ i < self.b2MaxRetries ∧
    ∃ listing authorize, ∀ account, ∃ account',
      loop (self.fileInfoAttempt listing authorize filename) i 0 account = .again account'
  | .ended result => ∃ listing authorize, ∀ account,
    (self.b2GetFileInfo listing authorize account filename).1.map .found = result
  | _ => False

section Lookup

variable {filename : Str} {listings : ℕ → Listing Str} {authorizations : ℕ → ℕ → Reply} {i : ℕ}

variable (listings authorizations) in
theorem looks_nextFind (inside : i ≤ self.b2MaxRetries)
    (answered : ∀ account, ∃ account',
      loop (self.fileInfoAttempt listings authorizations filename) i 0 account = .again account') :
    Looks self filename (nextFind self filename i) := by
  unfold nextFind
  split_ifs with more
  · exact ⟨rfl, more, listings, authorizations, answered⟩
  · obtain rfl : i = self.b2MaxRetries := by omega
    refine ⟨listings, authorizations, fun account => ?_⟩
    obtain ⟨account', ends⟩ := answered account
    rw [b2GetFileInfo, ends]
    rfl

theorem looks_findTurn (inside : i < self.b2MaxRetries)
    (answered : ∀ account, ∃ account',
      loop (self.fileInfoAttempt listings authorizations filename) i 0 account = .again account')
    (listing : Listing Str) (authorize : ℕ → Reply) (account : Account) :
    Looks self filename (findTurn self filename i listing authorize account).1 := by
  -- the listings so far, and this one
  let listings' := Function.update listings i listing
  let authorizations' := Function.update authorizations i authorize
  have before (account : Account) :
      loop (self.fileInfoAttempt listings' authorizations' filename) i 0 account =
        loop (self.fileInfoAttempt listings authorizations filename) i 0 account := by
    refine loop_congr fun j _ inside account => ?_
    simp only [fileInfoAttempt, listings', authorizations',
      Function.update_of_ne (by omega : j ≠ i)]
  have now (account : Account) :
      self.fileInfoAttempt listings' authorizations' filename i account =
        self.fileInfoAttempt (fun _ => listing) (fun _ => authorize) filename i account := by
    simp only [fileInfoAttempt, listings', authorizations', Function.update_self]
  have answers (account : Account) : ∃ account',
      loop (self.fileInfoAttempt listings' authorizations' filename) (i + 1) 0 account =
        self.fileInfoAttempt (fun _ => listing) (fun _ => authorize) filename i account' := by
    obtain ⟨account', again⟩ := answered account
    refine ⟨account', ?_⟩
    rw [loop_succ, before, again]
    simp only [Nat.zero_add, now]
  have goes {renew : Account → Account} (turn : ∀ account, self.fileInfoAttempt (fun _ => listing)
      (fun _ => authorize) filename i account = .again (renew account)) :
      Looks self filename (findTurn self filename i listing authorize account).1 := by
    unfold findTurn
    rw [turn]
    refine looks_nextFind listings' authorizations' inside fun account => ?_
    obtain ⟨account', again⟩ := answers account
    exact ⟨_, again.trans (turn account')⟩
  cases listing with
  | files files =>
    refine ⟨listings', authorizations', fun account => ?_⟩
    obtain ⟨account', done⟩ := answers account
    rw [b2GetFileInfo, loop_done_of_le done inside]
  | raises => exact goes fun _ => rfl
  | unauthorized => exact goes fun _ => rfl
  | refused => exact goes fun _ => rfl

end Lookup

/-! ## A call among others -/

theorem Uploads.answer {file : File} {phase : Phase} (h : Uploads self env file phase)
    (answer : Answer) : Uploads self env file (phase.answer describe answer) := by
  cases phase with
  | uploading file' uploadUrl sent i st content =>
    cases content with
    | none => cases answer <;> exact h
    | some content => exact h
  | obtaining => exact h
  | ended => exact h
  | idle => exact h.elim
  | listing => exact h.elim
  | deleting => exact h.elim
  | finding => exact h.elim

theorem Uploads.turn {file : File} {phase after : Phase} (h : Uploads self env file phase)
    {authorize : ℕ → Reply} {account account' : Account} {failure : Option Failure}
    (turn : phase.turn self env authorize account failure = some (after, account')) :
    Uploads self env file after := by
  cases phase with
  | uploading file' uploadUrl sent i st answer =>
    obtain ⟨rfl, inside, built, script, obtained, answered⟩ := h
    obtain ⟨reply, rfl, -⟩ := Phase.turn_uploading turn
    exact uploads_uploadTurn inside built obtained answered reply
  | obtaining => cases failure <;> cases turn
  | ended => cases failure <;> cases turn
  | idle => exact h.elim
  | listing => exact h.elim
  | deleting => exact h.elim
  | finding => exact h.elim

variable (describe) in
theorem Uploads.step {file : File} {id : ℕ} (h : Uploads self env file (s.phase id)) (i : Step) :
    Uploads self env file ((step self env describe s i).2.phase id) := by
  rcases (step_moves self env describe s i).phase id with same | ⟨idle, -⟩ |
    ⟨file', k, content, status, reply, authorize, waits, after⟩ | ⟨request, -, after⟩ |
    ⟨authorize, account, failure, turned⟩
  · rwa [same]
  · rw [idle] at h
    exact h.elim
  · rw [waits] at h
    obtain ⟨rfl, inside, script, answered⟩ := h
    rw [after]
    exact uploads_obtainTurn inside answered s.account reply authorize
  · rw [after]
    exact h.answer _
  · exact h.turn turned

theorem Looks.answer {filename : Str} {phase : Phase} (h : Looks self filename phase)
    (answer : Answer) : Looks self filename (phase.answer describe answer) := by
  cases phase with
  | finding name i files =>
    cases files with
    | none => cases answer <;> exact h
    | some files => exact h
  | ended => exact h
  | idle => exact h.elim
  | obtaining => exact h.elim
  | uploading => exact h.elim
  | listing => exact h.elim
  | deleting => exact h.elim

theorem Looks.turn {filename : Str} {phase after : Phase} (h : Looks self filename phase)
    {authorize : ℕ → Reply} {account account' : Account} {failure : Option Failure}
    (turn : phase.turn self env authorize account failure = some (after, account')) :
    Looks self filename after := by
  cases phase with
  | finding name i answer =>
    obtain ⟨rfl, inside, listings, authorizations, answered⟩ := h
    obtain ⟨listing, rfl, -⟩ := Phase.turn_finding turn
    exact looks_findTurn inside answered listing authorize account
  | ended => cases failure <;> cases turn
  | idle => exact h.elim
  | obtaining => exact h.elim
  | uploading => exact h.elim
  | listing => exact h.elim
  | deleting => exact h.elim

variable (describe) in
theorem Looks.step {filename : Str} {id : ℕ} (h : Looks self filename (s.phase id)) (i : Step) :
    Looks self filename ((step self env describe s i).2.phase id) := by
  rcases (step_moves self env describe s i).phase id with same | ⟨idle, -⟩ |
    ⟨file, k, content, status, reply, authorize, waits, -⟩ | ⟨request, -, after⟩ |
    ⟨authorize, account, failure, turned⟩
  · rwa [same]
  · rw [idle] at h
    exact h.elim
  · rw [waits] at h
    exact h.elim
  · rw [after]
    exact h.answer _
  · exact h.turn turned

theorem run_begun {I : Phase → Prop} {id : ℕ} {op : Op}
    (preserve : ∀ s i, I (s.phase id) → I ((step self env describe s i).2.phase id))
    (begins : I (begin self env op)) {server : Server Str} {account : Account}
    {before : List Step} (rest : List Step)
    (idle : (run (step self env describe) (start server account) before).phase id = .idle) :
    I ((run (step self env describe) (start server account)
      (before ++ .begins id op :: rest)).phase id) := by
  have always (s : State) : Always (step self env describe) (fun _ _ _ => True) s rest :=
    always_of_forall_mem (fun _ _ _ => trivial) _
  have begun : I ((step self env describe (run (step self env describe) (start server account)
      before) (.begins id op)).2.phase id) := by
    simp only [step, idle, State.setPhase_phase, if_pos]
    exact begins
  rw [run_append, run_cons]
  exact run_inv (I := fun s => I (s.phase id)) (fun s i h _ => preserve s i h) begun (always _)

/-- Whatever calls there are at a time. An upload returns or raises what it does alone for some
answers to its requests, whatever account it begins with; and so does a lookup. -/
theorem call_sequential (server : Server Str) (account : Account) (before rest : List Step)
    {id : ℕ} {op : Op} {result : Except Fault Value}
    (idle : (run (step self env describe) (start server account) before).phase id = .idle)
    (ended : (run (step self env describe) (start server account)
      (before ++ .begins id op :: rest)).phase id = .ended result) :
    (∀ file, op = .upload file → ∃ script, ∀ account,
      (self.b2UploadAsync env script account file).1.map .uploaded = result) ∧
    ∀ filename, op = .info filename → ∃ listing authorize, ∀ account,
      (self.b2GetFileInfo listing authorize account filename).1.map .found = result := by
  constructor
  · rintro file rfl
    have started : Uploads self env file (begin self env (.upload file)) :=
      uploads_nextObtain (answering (.raises none) fun _ => .raises none)
        (Nat.zero_le _) fun account => ⟨account, rfl⟩
    have there := run_begun (fun _ i h => h.step describe i) started rest idle
    rw [ended] at there
    exact there
  · rintro filename rfl
    have started : Looks self filename (begin self env (.info filename)) :=
      looks_nextFind (fun _ => .raises) (fun _ _ => .raises none) (Nat.zero_le _)
        fun account => ⟨account, rfl⟩
    have there := run_begun (fun _ i h => h.step describe i) started rest idle
    rw [ended] at there
    exact there

theorem call_sequential_twice :
    let env : Env := ⟨fun _ => none, fun _ => [], id⟩
    let ended := (run (step (init 2 ∅) env echo) (start emptyServer ⟨.null, .null, .null, .null⟩)
      storedTwice).phase 0
    let content := [(literal "contentType", .str (literal "b")),
      (literal "contentSha1", .str (literal "c")), (literal "fileName", .str (literal "a"))]
    ended = .ended (.ok (.uploaded content)) ∧ ∃ script, ∀ account,
      ((init 2 ∅).b2UploadAsync env script account emptyFile).1.map Value.uploaded =
        .ok (.uploaded content) := by
  intro env ended content
  have idle : (run (step (init 2 ∅) env echo) (start emptyServer ⟨.null, .null, .null, .null⟩)
      []).phase 0 = .idle := rfl
  have uploaded : ended = .ended (.ok (.uploaded content)) := rfl
  exact ⟨uploaded, (call_sequential emptyServer _ [] storedTwice.tail idle uploaded).1 _ rfl⟩

end KhCommon.Backblaze.Store
