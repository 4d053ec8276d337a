import KhCommon.Backblaze.Server
import KhCommon.Backblaze.Upload
import KhCommon.Lib.Machine

/-! The calls of one interface on one bucket, as many at a time as there are. A call waits
for the answer to its request, and the others go on meanwhile. The server may have
handled a request whose answer is lost, and a request that nobody waits for any more it
may handle later; an upload is sent again in both cases, and stored again. The account
is shared, and renewed by any of the calls. -/

namespace KhCommon.Backblaze.Store

open Python Attempts Machine
open B2Interface

/-! ## The server -/

inductive Request
  | upload (file : File) (headers : Headers)
  | list (startFileName : Str)
  | delete (version : Version Str)

inductive Answer
  | stored (version : Version Str)
  | listed (files : List (Version Str))
  | removed
  | missing

/-- A version is stored under the name that the header stands for. -/
def Request.handle (server : Server Str) : Request → Answer × Server Str
  | .upload _ headers =>
    let fileName := Percent.unquote headers.fileName
    (.stored ⟨fileName, server.next⟩, server.put fileName)
  | .list startFileName => (.listed (server.listFileVersions startFileName 5), server)
  | .delete version =>
    if version ∈ server.versions then (.removed, server.delete version.fileId)
    else (.missing, server)

/-! ## A call -/

inductive Op
  | upload (file : File)
  | delete (filename : Str)
  | info (filename : Str)

inductive Value
  | uploaded (content : Object)
  | deleted (some : Bool)
  | found (version : Option (Version Str))

/-- Where a call waits, in which turn of which loop; the answer to its request is there once the
server has handled that. -/
inductive Phase
  | idle
  | obtaining (file : File) (i : ℕ) (content : Content) (status : Option ℕ)
  | uploading (file : File) (uploadUrl : Object) (headers : Headers) (i : ℕ) (s : Uploading)
      (answer : Option Object)
  | listing (filename : Str) (i : ℕ) (answer : Option (List (Version Str)))
  | deleting (filename : Str) (file : Version Str) (files : List (Version Str)) (k deletes : ℕ)
      (answer : Option Bool)
  | finding (filename : Str) (i : ℕ) (answer : Option (List (Version Str)))
  | ended (result : Except Fault Value)

/-- The request that the server has not handled yet. Without a url for the upload nothing is
sent. -/
def Phase.request? : Phase → Option Request
  | .uploading file uploadUrl headers _ _ none =>
    match getitem uploadUrl "uploadUrl" with
    | .ok _ => some (.upload file headers)
    | .error _ => none
  | .listing filename _ none => some (.list filename)
  | .deleting _ file _ _ _ none => some (.delete file)
  | .finding filename _ none => some (.list filename)
  | _ => none

inductive Failure
  | raises (status : Option ℕ)
  | refused (status : ℕ) (content : Bytes)

def Failure.reply : Failure → Reply
  | .raises status => .raises status
  | .refused status content => .fails status content

def Failure.listing : Failure → Listing Str
  | .raises _ => .raises
  | .refused status _ => if status = 401 then .unauthorized else .refused

section Call

variable (self : B2Interface) (env : Env)

def headers (file : File) (uploadUrl : Object) : Except Fault Headers := do
  let sha1 := sentSha1 env file
  let contentType ← self.sentType env file
  let token ← getitem uploadUrl "authorizationToken"
  match Percent.quote file.filename with
  | none => .error .unicodeEncodeError
  | some quoted => .ok ⟨token, quoted, contentType, file.fileData.length, sha1⟩

def nextObtain (file : File) (i : ℕ) (content : Content) (status : Option ℕ) : Phase :=
  if i < self.b2MaxRetries then .obtaining file i content status
  else .ended ((content.response env.loads).bind fun response =>
    .error (.b2AuthorizationError response status))

def nextUpload (file : File) (uploadUrl : Object) (headers : Headers) (i : ℕ) (s : Uploading) :
    Phase :=
  if i < self.b2MaxRetries then .uploading file uploadUrl headers i s none
  else .ended ((s.content.response env.loads).bind fun response =>
    .error (.b2UploadError response s.status uploadUrl headers file.fileData.length))

/-- `assert files`, when the loop has run out without a listing. -/
def nextList (filename : Str) (i : ℕ) : Phase :=
  if i < self.b2MaxRetries then .listing filename i none else .ended (.error .assertionError)

def nextFile (filename : Str) (deletes : ℕ) : List (Version Str) → Phase
  | [] => .ended (.ok (.deleted (deletes ≠ 0)))
  | file :: files =>
    if file.fileName = filename ∧ 0 < self.b2MaxRetries then
      .deleting filename file files 0 deletes none
    else nextFile filename deletes files

def nextDelete (filename : Str) (file : Version Str) (files : List (Version Str))
    (k deletes : ℕ) : Phase :=
  if k < self.b2MaxRetries then .deleting filename file files k deletes none
  else nextFile self filename deletes files

def nextFind (filename : Str) (i : ℕ) : Phase :=
  if i < self.b2MaxRetries then .finding filename i none else .ended (.ok (.found none))

def begin : Op → Phase
  | .upload file => nextObtain self env file 0 .none none
  | .delete filename => nextList self filename 0
  | .info filename => nextFind self filename 0

def answering (reply : Reply) (authorize : ℕ → Reply) : Script :=
  ⟨fun _ => reply, fun _ => authorize, fun _ => reply⟩

def obtainTurn (file : File) (i : ℕ) (s : Obtaining) (reply : Reply) (authorize : ℕ → Reply) :
    Phase × Account :=
  match self.obtainAttempt (answering reply authorize) i s with
  | .done (uploadUrl, account) =>
    match headers self env file uploadUrl with
    | .ok headers => (nextUpload self env file uploadUrl headers 0 {}, account)
    | .error fault => (.ended (.error fault), account)
  | .again s => (nextObtain self env file (i + 1) s.content s.status, s.account)

def uploadTurn (file : File) (uploadUrl : Object) (headers : Headers) (i : ℕ) (s : Uploading)
    (reply : Reply) : Phase :=
  match uploadAttempt (answering reply fun _ => reply) headers.contentType headers.contentSha1
      file.filename uploadUrl i s with
  | .done result => .ended (result.map .uploaded)
  | .again s => nextUpload self env file uploadUrl headers (i + 1) s

def findTurn (filename : Str) (i : ℕ) (listing : Listing Str) (authorize : ℕ → Reply)
    (account : Account) : Phase × Account :=
  match self.fileInfoAttempt (fun _ => listing) (fun _ => authorize) filename i account with
  | .done (result, account) => (.ended (result.map .found), account)
  | .again account => (nextFind self filename (i + 1), account)

def listTurn (filename : Str) (i : ℕ) (listing : Listing Str) (authorize : ℕ → Reply)
    (account : Account) : Phase × Account :=
  match listing with
  | .files files =>
    (if files = [] then .ended (.error .assertionError) else nextFile self filename 0 files,
      account)
  | .unauthorized => (nextList self filename (i + 1), (self.b2Authorize authorize account).2)
  | _ => (nextList self filename (i + 1), account)

def Phase.answer (describe : Version Str → Headers → Object) : Phase → Answer → Phase
  | .uploading file uploadUrl headers i s none, .stored version =>
    .uploading file uploadUrl headers i s (some (describe version headers))
  | .listing filename i none, .listed files => .listing filename i (some files)
  | .deleting filename file files k deletes none, .removed =>
    .deleting filename file files k deletes (some true)
  | .deleting filename file files k deletes none, .missing =>
    .deleting filename file files k deletes (some false)
  | .finding filename i none, .listed files => .finding filename i (some files)
  | phase, _ => phase

/-- The answer is received, or the request fails. To delete what is not there fails as well. -/
def Phase.turn (authorize : ℕ → Reply) (account : Account) :
    Phase → Option Failure → Option (Phase × Account)
  | .uploading file uploadUrl headers i s (some content), none =>
    some (uploadTurn self env file uploadUrl headers i s (.ok 200 content), account)
  | .uploading file uploadUrl headers i s _, some failure =>
    some (uploadTurn self env file uploadUrl headers i s failure.reply, account)
  | .listing filename i (some files), none =>
    some (listTurn self filename i (.files files) authorize account)
  | .listing filename i _, some failure =>
    some (listTurn self filename i failure.listing authorize account)
  | .deleting filename _ files _ deletes (some true), none =>
    some (nextFile self filename (deletes + 1) files, account)
  | .deleting filename file files k deletes (some false), none =>
    some (nextDelete self filename file files (k + 1) deletes, account)
  | .deleting filename file files k deletes _, some _ =>
    some (nextDelete self filename file files (k + 1) deletes, account)
  | .finding filename i (some files), none =>
    some (findTurn self filename i (.files files) authorize account)
  | .finding filename i _, some failure =>
    some (findTurn self filename i failure.listing authorize account)
  | _, _ => none

/-! ### What a turn is answered -/

section Turn

variable {self env} {authorize : ℕ → Reply} {account account' : Account} {after : Phase}
  {failure : Option Failure} {filename : Str} {i : ℕ}

theorem Phase.turn_uploading {file : File} {uploadUrl : Object} {headers : Headers} {s : Uploading}
    {answer : Option Object}
    (turn : (Phase.uploading file uploadUrl headers i s answer).turn self env authorize account
      failure = some (after, account')) :
    ∃ reply, uploadTurn self env file uploadUrl headers i s reply = after ∧
      ((∃ content, answer = some content ∧ reply = .ok 200 content) ∨
        ∃ failed : Failure, reply = failed.reply) := by
  cases failure with
  | none =>
    cases answer with
    | none => cases turn
    | some content =>
      cases turn
      exact ⟨_, rfl, .inl ⟨content, rfl, rfl⟩⟩
  | some failed =>
    have turned : uploadTurn self env file uploadUrl headers i s failed.reply = after := by
      cases answer <;> exact congrArg Prod.fst (Option.some.inj turn)
    exact ⟨_, turned, .inr ⟨failed, rfl⟩⟩

theorem Phase.turn_listing {answer : Option (List (Version Str))}
    (turn : (Phase.listing filename i answer).turn self env authorize account failure =
      some (after, account')) :
    ∃ listing, (listTurn self filename i listing authorize account).1 = after ∧
      ((∃ files, answer = some files ∧ listing = .files files) ∨
        ∃ failed : Failure, listing = failed.listing) := by
  cases failure with
  | none =>
    cases answer with
    | none => cases turn
    | some files => exact ⟨_, congrArg Prod.fst (Option.some.inj turn), .inl ⟨files, rfl, rfl⟩⟩
  | some failed =>
    have turned : (listTurn self filename i failed.listing authorize account).1 = after := by
      cases answer <;> exact congrArg Prod.fst (Option.some.inj turn)
    exact ⟨_, turned, .inr ⟨failed, rfl⟩⟩

theorem Phase.turn_finding {answer : Option (List (Version Str))}
    (turn : (Phase.finding filename i answer).turn self env authorize account failure =
      some (after, account')) :
    ∃ listing, (findTurn self filename i listing authorize account).1 = after ∧
      ((∃ files, answer = some files ∧ listing = .files files) ∨
        ∃ failed : Failure, listing = failed.listing) := by
  cases failure with
  | none =>
    cases answer with
    | none => cases turn
    | some files => exact ⟨_, congrArg Prod.fst (Option.some.inj turn), .inl ⟨files, rfl, rfl⟩⟩
  | some failed =>
    have turned : (findTurn self filename i failed.listing authorize account).1 = after := by
      cases answer <;> exact congrArg Prod.fst (Option.some.inj turn)
    exact ⟨_, turned, .inr ⟨failed, rfl⟩⟩

end Turn

end Call

/-! ## All calls -/

/-- The server, the account, the calls, and the requests that nobody waits for any more. -/
structure State where
  server : Server Str
  account : Account
  phase : ℕ → Phase
  late : List (ℕ × Request)

def start (server : Server Str) (account : Account) : State :=
  ⟨server, account, fun _ => .idle, []⟩

/-- A call begins; it gets the answer to its request for an upload url; the server handles the
request of a call, or a late one; or the call gets the answer, or none. -/
inductive Step
  | begins (id : ℕ) (op : Op)
  | obtains (id : ℕ) (reply : Reply) (authorize : ℕ → Reply)
  | handles (id : ℕ)
  | lags (n : ℕ)
  | answers (id : ℕ) (failure : Option Failure) (authorize : ℕ → Reply)

inductive Event
  | began (id : ℕ) (op : Op)
  | handled (id : ℕ) (request : Request) (answer : Answer)

def left (id : ℕ) (phase : Phase) : Option Failure → List (ℕ × Request)
  | some (.raises _) => (phase.request?.map fun request => (id, request)).toList
  | _ => []

section Step

variable (self : B2Interface) (env : Env) (describe : Version Str → Headers → Object)

def State.setPhase (s : State) (id : ℕ) (phase : Phase) : State :=
  { s with phase := Function.update s.phase id phase }

theorem State.setPhase_phase (s : State) (id : ℕ) (phase : Phase) (id' : ℕ) :
    (s.setPhase id phase).phase id' = if id' = id then phase else s.phase id' :=
  Function.update_apply ..

def step (s : State) : Step → Option Event × State
  | .begins id op =>
    match s.phase id with
    | .idle => (some (.began id op), s.setPhase id (begin self env op))
    | _ => (none, s)
  | .obtains id reply authorize =>
    match s.phase id with
    | .obtaining file i content status =>
      let (phase, account) :=
        obtainTurn self env file i ⟨s.account, content, status⟩ reply authorize
      (none, { s.setPhase id phase with account })
    | _ => (none, s)
  | .handles id =>
    match (s.phase id).request? with
    | some request =>
      let (answer, server) := request.handle s.server
      (some (.handled id request answer),
        { s.setPhase id ((s.phase id).answer describe answer) with server })
    | none => (none, s)
  | .lags n =>
    match s.late[n]? with
    | some (id, request) =>
      let (answer, server) := request.handle s.server
      (some (.handled id request answer), { s with server, late := s.late.eraseIdx n })
    | none => (none, s)
  | .answers id failure authorize =>
    match (s.phase id).turn self env authorize s.account failure with
    | some (phase, account) =>
      (none, { s.setPhase id phase with account, late := s.late ++ left id (s.phase id) failure })
    | none => (none, s)

inductive Moves (s : State) : Option Event → State → Prop
  | stays : Moves s none s
  | begins (id : ℕ) (op : Op) (idle : s.phase id = .idle) :
    Moves s (some (.began id op)) (s.setPhase id (begin self env op))
  | obtains (id : ℕ) (file : File) (i : ℕ) (content : Content) (status : Option ℕ) (reply : Reply)
    (authorize : ℕ → Reply) (waits : s.phase id = .obtaining file i content status) :
    Moves s none
      { s.setPhase id (obtainTurn self env file i ⟨s.account, content, status⟩ reply authorize).1
        with account :=
          (obtainTurn self env file i ⟨s.account, content, status⟩ reply authorize).2 }
  | handles (id : ℕ) (request : Request) (waits : (s.phase id).request? = some request) :
    Moves s (some (.handled id request (request.handle s.server).1))
      { s.setPhase id ((s.phase id).answer describe (request.handle s.server).1)
        with server := (request.handle s.server).2 }
  | lags (n id : ℕ) (request : Request) (late : s.late[n]? = some (id, request)) :
    Moves s (some (.handled id request (request.handle s.server).1))
      { s with server := (request.handle s.server).2, late := s.late.eraseIdx n }
  | answers (id : ℕ) (failure : Option Failure) (authorize : ℕ → Reply) (phase : Phase)
    (account : Account)
    (turned : (s.phase id).turn self env authorize s.account failure = some (phase, account)) :
    Moves s none
      { s.setPhase id phase with account, late := s.late ++ left id (s.phase id) failure }

theorem step_moves (s : State) (i : Step) :
    Moves self env describe s (step self env describe s i).1 (step self env describe s i).2 := by
  cases i with
  | begins id op =>
    rw [step]
    split
    case h_1 idle => exact .begins id op idle
    case h_2 => exact .stays
  | obtains id reply authorize =>
    rw [step]
    split
    case h_1 waits => exact .obtains id _ _ _ _ reply authorize waits
    case h_2 => exact .stays
  | handles id =>
    rw [step]
    split
    case h_1 request waits => exact .handles id request waits
    case h_2 => exact .stays
  | lags n =>
    rw [step]
    split
    case h_1 id request late => exact .lags n id request late
    case h_2 => exact .stays
  | answers id failure authorize =>
    rw [step]
    split
    case h_1 phase account turned => exact .answers id failure authorize phase account turned
    case h_2 => exact .stays

end Step

/-! ## What the server holds -/

def Stored (events : List (Option Event)) (v : Version Str) : Prop :=
  ∃ id file headers, some (.handled id (.upload file headers) (.stored v)) ∈ events

def Removed (events : List (Option Event)) (v : Version Str) : Prop :=
  ∃ id, some (.handled id (.delete v) .removed) ∈ events

variable {self : B2Interface} {env : Env} {describe : Version Str → Headers → Object}
  {events : List (Option Event)} {s : State} {i : Step} {id : ℕ} {v w : Version Str}

theorem Moves.server {e : Option Event} {s' : State} (moves : Moves self env describe s e s') :
    ((∀ id request answer, e ≠ some (.handled id request answer)) ∧ s'.server = s.server) ∨
    ∃ id request, e = some (.handled id request (request.handle s.server).1) ∧
      s'.server = (request.handle s.server).2 := by
  cases moves with
  | stays => exact .inl ⟨by simp, rfl⟩
  | begins => exact .inl ⟨by simp, rfl⟩
  | obtains => exact .inl ⟨by simp, rfl⟩
  | handles => exact .inr ⟨_, _, rfl, rfl⟩
  | lags => exact .inr ⟨_, _, rfl, rfl⟩
  | answers => exact .inl ⟨by simp, rfl⟩

theorem Moves.phase {e : Option Event} {s' : State} (moves : Moves self env describe s e s')
    (id : ℕ) :
    s'.phase id = s.phase id ∨
    (s.phase id = .idle ∧ ∃ op, s'.phase id = begin self env op) ∨
    (∃ file i content status reply authorize, s.phase id = .obtaining file i content status ∧
      s'.phase id =
        (obtainTurn self env file i ⟨s.account, content, status⟩ reply authorize).1) ∨
    (∃ request, (s.phase id).request? = some request ∧
      s'.phase id = (s.phase id).answer describe (request.handle s.server).1) ∨
    ∃ authorize account failure, (s.phase id).turn self env authorize s.account failure =
      some (s'.phase id, account) := by
  have moved (id' : ℕ) (phase : Phase) : (s.setPhase id' phase).phase id = s.phase id ∨
      (id = id' ∧ (s.setPhase id' phase).phase id = phase) := by
    rw [State.setPhase_phase]
    split_ifs with own
    · exact .inr ⟨own, rfl⟩
    · exact .inl rfl
  cases moves with
  | stays => exact .inl rfl
  | begins id' op idle =>
    obtain same | ⟨rfl, after⟩ := moved id' (begin self env op)
    · exact .inl same
    · exact .inr (.inl ⟨idle, op, after⟩)
  | obtains id' file i content status reply authorize waits =>
    obtain same | ⟨rfl, after⟩ := moved id'
      (obtainTurn self env file i ⟨s.account, content, status⟩ reply authorize).1
    · exact .inl same
    · exact .inr (.inr (.inl ⟨file, i, content, status, reply, authorize, waits, after⟩))
  | handles id' request waits =>
    obtain same | ⟨rfl, after⟩ := moved id'
      ((s.phase id').answer describe (request.handle s.server).1)
    · exact .inl same
    · exact .inr (.inr (.inr (.inl ⟨request, waits, after⟩)))
  | lags => exact .inl rfl
  | answers id' failure authorize phase account turned =>
    obtain same | ⟨rfl, after⟩ := moved id' phase
    · exact .inl same
    · refine .inr (.inr (.inr (.inr ⟨authorize, account, failure, ?_⟩)))
      exact turned.trans (congrArg (fun p => some (p, account)) after.symm)

/-- A version is held if it was there at first or was stored, and no delete has removed it. -/
structure Accounted (first : Server Str) (events : List (Option Event)) (server : Server Str) :
    Prop where
  held : ∀ v, v ∈ server.versions ↔
    (v ∈ first.versions ∨ Stored events v) ∧ ¬Removed events v
  later : first.next ≤ server.next
  stored : ∀ v, Stored events v → first.next ≤ v.fileId
  below : ∀ v, Stored events v ∨ Removed events v → v.fileId < server.next

theorem stored_append {e : Option Event} : Stored (events ++ [e]) v ↔
    Stored events v ∨
      ∃ id file headers, e = some (.handled id (.upload file headers) (.stored v)) := by
  simp only [Stored, List.mem_append, List.mem_singleton, exists_or, eq_comm]

theorem removed_append {e : Option Event} : Removed (events ++ [e]) v ↔
    Removed events v ∨ ∃ id, e = some (.handled id (.delete v) .removed) := by
  simp only [Removed, List.mem_append, List.mem_singleton, exists_or, eq_comm]

theorem Accounted.quiet {first server : Server Str} (h : Accounted first events server)
    {e : Option Event} (stores : ∀ v, Stored (events ++ [e]) v ↔ Stored events v)
    (removes : ∀ v, Removed (events ++ [e]) v ↔ Removed events v) :
    Accounted first (events ++ [e]) server where
  held v := by rw [h.held, stores, removes]
  later := h.later
  stored v new := h.stored v ((stores v).mp new)
  below v seen := h.below v (by rwa [stores, removes] at seen)

theorem Accounted.handle {first server : Server Str} (h : Accounted first events server) (id : ℕ)
    (request : Request) :
    Accounted first (events ++ [some (.handled id request (request.handle server).1)])
      (request.handle server).2 := by
  cases request with
  | list startFileName =>
    exact h.quiet (fun v => by simp [stored_append]) fun v => by simp [removed_append]
  | upload file headers =>
    set new : Version Str := ⟨Percent.unquote headers.fileName, server.next⟩
    have stores (v : Version Str) :
        Stored (events ++ [some (.handled id (.upload file headers) (.stored new))]) v ↔
          Stored events v ∨ v = new := by
      simp [stored_append, eq_comm]
    have removes (v : Version Str) :
        Removed (events ++ [some (.handled id (.upload file headers) (.stored new))]) v ↔
          Removed events v := by
      simp [removed_append]
    have fresh : ¬Removed events new := fun removed => (h.below new (.inr removed)).ne rfl
    have handled : Request.handle server (.upload file headers) =
        (.stored new, server.put new.fileName) := rfl
    rw [handled]
    refine ⟨fun v => ?_, h.later.trans (Nat.le_succ _), fun v old => ?_, fun v seen => ?_⟩
    · rw [Server.mem_put, h.held, stores, removes]
      by_cases same : v = new
      · subst same
        simp [fresh, new]
      · simp [same, show v ≠ ⟨new.fileName, server.next⟩ from same]
    · rcases (stores v).mp old with old | rfl
      · exact h.stored v old
      · exact h.later
    · rw [stores, removes] at seen
      rcases seen with (old | rfl) | removed
      · exact (h.below v (.inl old)).trans (Nat.lt_succ_self _)
      · exact Nat.lt_succ_self _
      · exact (h.below v (.inr removed)).trans (Nat.lt_succ_self _)
  | delete version =>
    by_cases there : version ∈ server.versions
    · have handled : Request.handle server (.delete version) =
          (.removed, server.delete version.fileId) := if_pos there
      have stores (v : Version Str) :
          Stored (events ++ [some (.handled id (.delete version) .removed)]) v ↔
            Stored events v := by
        simp [stored_append]
      have removes (v : Version Str) :
          Removed (events ++ [some (.handled id (.delete version) .removed)]) v ↔
            Removed events v ∨ v = version := by
        simp [removed_append, eq_comm]
      rw [handled]
      refine ⟨fun v => ?_, h.later, fun v old => h.stored v ((stores v).mp old), fun v seen => ?_⟩
      · have other : v ∈ server.versions → (v.fileId ≠ version.fileId ↔ v ≠ version) := fun held =>
          not_congr ⟨Bucket.eq_of_fileId held there, congrArg Version.fileId⟩
        rw [Server.mem_delete, and_congr_right other, h.held, stores, removes, not_or, and_assoc]
      · rw [stores, removes, ← or_assoc] at seen
        rcases seen with old | rfl
        · exact h.below v old
        · exact server.below v there
    · have handled : Request.handle server (.delete version) = (.missing, server) := if_neg there
      rw [handled]
      exact h.quiet (fun v => by simp [stored_append]) fun v => by simp [removed_append]

theorem Accounted.step {first : Server Str} (h : Accounted first events s.server) (i : Step) :
    Accounted first (events ++ [(step self env describe s i).1])
      (step self env describe s i).2.server := by
  rcases (step_moves self env describe s i).server with
    ⟨quiet, same⟩ | ⟨id, request, event, after⟩
  · rw [same]
    refine h.quiet (fun v => ?_) fun v => ?_
    · rw [stored_append, or_iff_left]
      rintro ⟨id, file, headers, event⟩
      exact quiet _ _ _ event
    · rw [removed_append, or_iff_left]
      rintro ⟨id, event⟩
      exact quiet _ _ _ event
  · rw [event, after]
    exact h.handle id request

theorem run_accounted (server : Server Str) (account : Account) (steps : List Step) :
    Accounted server (outputs (step self env describe) (start server account) steps)
      (run (step self env describe) (start server account) steps).server := by
  have always : Always (step self env describe) (fun _ _ _ => True) (start server account) steps :=
    always_of_forall_mem (fun _ _ _ => trivial) _
  have first : Accounted server [] (start server account).server := by
    refine ⟨fun v => ?_, le_rfl, ?_, ?_⟩ <;> simp [Stored, Removed, start]
  exact outputs_inv (I := fun events s => Accounted server events s.server)
    (fun events s i h _ => h.step i) first always

end KhCommon.Backblaze.Store
