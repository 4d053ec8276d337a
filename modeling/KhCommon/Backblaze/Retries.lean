import KhCommon.Backblaze.Calls

/-! How often a call stores its file. An upload makes at most one request in each of its
turns, so with those that are handled late it stores no more versions than it has turns,
and what the bucket holds is accounted for. -/

namespace KhCommon.Backblaze.Store

open Python Attempts Machine
open B2Interface

variable {self : B2Interface} {env : Env} {describe : Version Str → Headers → Object}
  {events : List (Option Event)} {s : State} {id : ℕ}

def storesOf (u : ℕ) : Option Event → Bool
  | some (.handled id (.upload _ _) (.stored _)) => id = u
  | _ => false

def stores (u : ℕ) (events : List (Option Event)) : ℕ := events.countP (storesOf u)

def uploadsOf (u : ℕ) : ℕ × Request → Bool
  | (id, .upload _ _) => id = u
  | _ => false

/-- How many requests a call may still make, or has open, that store something. -/
def Phase.mayStore (retries : ℕ) : Phase → ℕ
  | .idle => retries
  | .obtaining _ _ _ _ => retries
  | .uploading _ _ _ i _ none => retries - i
  | .uploading _ _ _ i _ (some _) => retries - (i + 1)
  | _ => 0

def Phase.Within (retries n : ℕ) (phase : Phase) : Prop :=
  phase.mayStore retries ≤ n ∧
    ∀ file uploadUrl headers i s answer,
      phase = .uploading file uploadUrl headers i s answer → i < retries

section Within

variable {n retries : ℕ} {filename : Str}

theorem within_idle : Phase.idle.Within retries retries := by
  refine ⟨le_rfl, ?_⟩
  rintro _ _ _ _ _ _ ⟨⟩

theorem within_obtaining {file : File} {i : ℕ} {content : Content} {status : Option ℕ} :
    (Phase.obtaining file i content status).Within retries retries := by
  refine ⟨le_rfl, ?_⟩
  rintro _ _ _ _ _ _ ⟨⟩

theorem within_listing {i : ℕ} {answer : Option (List (Version Str))} :
    (Phase.listing filename i answer).Within retries n := by
  refine ⟨Nat.zero_le _, ?_⟩
  rintro _ _ _ _ _ _ ⟨⟩

theorem within_deleting {file : Version Str} {files : List (Version Str)} {k deletes : ℕ}
    {answer : Option Bool} :
    (Phase.deleting filename file files k deletes answer).Within retries n := by
  refine ⟨Nat.zero_le _, ?_⟩
  rintro _ _ _ _ _ _ ⟨⟩

theorem within_finding {i : ℕ} {answer : Option (List (Version Str))} :
    (Phase.finding filename i answer).Within retries n := by
  refine ⟨Nat.zero_le _, ?_⟩
  rintro _ _ _ _ _ _ ⟨⟩

theorem within_ended {result : Except Fault Value} :
    (Phase.ended result).Within retries n := by
  refine ⟨Nat.zero_le _, ?_⟩
  rintro _ _ _ _ _ _ ⟨⟩

theorem within_nextObtain {file : File} {i : ℕ} {content : Content} {status : Option ℕ} :
    (nextObtain self env file i content status).Within self.b2MaxRetries self.b2MaxRetries := by
  unfold nextObtain
  split_ifs
  · exact within_obtaining
  · exact within_ended

theorem within_nextUpload {file : File} {uploadUrl : Object} {headers : Headers} {i : ℕ}
    {s : Uploading} :
    (nextUpload self env file uploadUrl headers i s).Within self.b2MaxRetries
      (self.b2MaxRetries - i) := by
  unfold nextUpload
  split_ifs with inside
  · refine ⟨le_rfl, fun _ _ _ _ _ _ same => ?_⟩
    cases same
    exact inside
  · exact within_ended

theorem within_nextList {i : ℕ} : (nextList self filename i).Within self.b2MaxRetries n := by
  unfold nextList
  split_ifs
  · exact within_listing
  · exact within_ended

theorem within_nextFile {deletes : ℕ} {files : List (Version Str)} :
    (nextFile self filename deletes files).Within self.b2MaxRetries n := by
  induction files with
  | nil => exact within_ended
  | cons file files ih =>
    rw [nextFile]
    split_ifs
    · exact within_deleting
    · exact ih

theorem within_nextDelete {file : Version Str} {files : List (Version Str)} {k deletes : ℕ} :
    (nextDelete self filename file files k deletes).Within self.b2MaxRetries n := by
  unfold nextDelete
  split_ifs
  · exact within_deleting
  · exact within_nextFile

theorem within_nextFind {i : ℕ} : (nextFind self filename i).Within self.b2MaxRetries n := by
  unfold nextFind
  split_ifs
  · exact within_finding
  · exact within_ended

theorem within_begin {op : Op} :
    (begin self env op).Within self.b2MaxRetries self.b2MaxRetries := by
  cases op with
  | upload file => exact within_nextObtain
  | delete filename => exact within_nextList
  | info filename => exact within_nextFind

theorem within_obtainTurn {file : File} {i : ℕ} {s : Obtaining} {reply : Reply}
    {authorize : ℕ → Reply} :
    (obtainTurn self env file i s reply authorize).1.Within self.b2MaxRetries
      self.b2MaxRetries := by
  unfold obtainTurn
  cases self.obtainAttempt (answering reply authorize) i s with
  | again s => exact within_nextObtain
  | done obtained =>
    obtain ⟨uploadUrl, account⟩ := obtained
    cases built : headers self env file uploadUrl with
    | error fault =>
      simp only [built]
      exact within_ended
    | ok headers =>
      simp only [built]
      exact within_nextUpload

theorem within_uploadTurn {file : File} {uploadUrl : Object} {headers : Headers} {i : ℕ}
    {s : Uploading} {reply : Reply} :
    (uploadTurn self env file uploadUrl headers i s reply).Within self.b2MaxRetries
      (self.b2MaxRetries - (i + 1)) := by
  unfold uploadTurn
  cases uploadAttempt (answering reply fun _ => reply) headers.contentType headers.contentSha1
      file.filename uploadUrl i s with
  | again s => exact within_nextUpload
  | done result => exact within_ended

theorem within_listTurn {i : ℕ} {listing : Listing Str} {authorize : ℕ → Reply}
    {account : Account} :
    (listTurn self filename i listing authorize account).1.Within self.b2MaxRetries n := by
  cases listing with
  | files files =>
    rw [listTurn]
    dsimp only
    split_ifs
    · exact within_ended
    · exact within_nextFile
  | raises => exact within_nextList
  | unauthorized => exact within_nextList
  | refused => exact within_nextList

theorem within_findTurn {i : ℕ} {listing : Listing Str} {authorize : ℕ → Reply}
    {account : Account} :
    (findTurn self filename i listing authorize account).1.Within self.b2MaxRetries n := by
  unfold findTurn
  cases self.fileInfoAttempt (fun _ => listing) (fun _ => authorize) filename i account with
  | again account => exact within_nextFind
  | done found => exact within_ended

theorem Phase.Within.turn (id : ℕ) {phase after : Phase} (h : phase.Within self.b2MaxRetries n)
    {authorize : ℕ → Reply} {account account' : Account} {failure : Option Failure}
    (turn : phase.turn self env authorize account failure = some (after, account')) (u : ℕ) :
    ∃ m, m + (left id phase failure).countP (uploadsOf u) ≤ n ∧
      after.Within self.b2MaxRetries m := by
  have lists (request : Request) (list : uploadsOf u (id, request) = false)
      (waits : phase.request? = none ∨ phase.request? = some request) :
      (left id phase failure).countP (uploadsOf u) = 0 := by
    unfold left
    rcases waits with waits | waits <;> split <;> simp [waits, list]
  cases phase with
  | uploading file uploadUrl headers i s answer =>
    have inside : i < self.b2MaxRetries := h.2 _ _ _ _ _ _ rfl
    have room : self.b2MaxRetries - i ≤ n ∨ (self.b2MaxRetries - (i + 1) ≤ n ∧ answer ≠ none) := by
      cases answer with
      | none => exact .inl h.1
      | some content => exact .inr ⟨h.1, Option.some_ne_none content⟩
    obtain ⟨reply, rfl, -⟩ := Phase.turn_uploading turn
    refine ⟨_, ?_, within_uploadTurn⟩
    rcases room with room | ⟨room, answered⟩
    · have one : (left id (.uploading file uploadUrl headers i s answer) failure).countP
          (uploadsOf u) ≤ 1 := by
        refine List.countP_le_length.trans ?_
        unfold left
        split
        · cases (Phase.uploading file uploadUrl headers i s answer).request? <;> simp
        · exact Nat.zero_le _
      omega
    · have none : (left id (.uploading file uploadUrl headers i s answer) failure).countP
          (uploadsOf u) = 0 := by
        cases answer with
        | none => exact absurd rfl answered
        | some content => rcases failure with _ | (status | ⟨status, content⟩) <;> rfl
      omega
  | listing filename i answer =>
    rw [lists (.list filename) rfl (by cases answer <;> simp [Phase.request?])]
    obtain ⟨listing, rfl, -⟩ := Phase.turn_listing turn
    exact ⟨0, Nat.zero_le _, within_listTurn⟩
  | deleting filename file files k deletes answer =>
    rw [lists (.delete file) rfl (by cases answer <;> simp [Phase.request?])]
    refine ⟨0, Nat.zero_le _, ?_⟩
    rcases failure with _ | failure <;> rcases answer with _ | _ | _ <;> cases turn
    · exact within_nextDelete
    · exact within_nextFile
    all_goals exact within_nextDelete
  | finding filename i answer =>
    rw [lists (.list filename) rfl (by cases answer <;> simp [Phase.request?])]
    obtain ⟨listing, rfl, -⟩ := Phase.turn_finding turn
    exact ⟨0, Nat.zero_le _, within_findTurn⟩
  | idle => cases failure <;> cases turn
  | obtaining file i content status => cases failure <;> cases turn
  | ended result => cases failure <;> cases turn

theorem Phase.Within.answer (id : ℕ) {phase : Phase} (h : phase.Within self.b2MaxRetries n)
    {request : Request} (waits : phase.request? = some request) (server : Server Str) :
    ∃ m, m + stores id [some (.handled id request (request.handle server).1)] ≤ n ∧
      (phase.answer describe (request.handle server).1).Within self.b2MaxRetries m := by
  cases phase with
  | uploading file uploadUrl headers i s answer =>
    have inside : i < self.b2MaxRetries := h.2 _ _ _ _ _ _ rfl
    cases answer with
    | some content => cases waits
    | none =>
      simp only [Phase.request?] at waits
      split at waits
      · cases waits
        have room : self.b2MaxRetries - i ≤ n := h.1
        refine ⟨self.b2MaxRetries - (i + 1), ?_, le_rfl, fun _ _ _ _ _ _ same => ?_⟩
        · have one : stores id [some (.handled id (.upload file headers)
              (Request.handle server (.upload file headers)).1)] = 1 := by
            simp [stores, storesOf, Request.handle]
          omega
        · cases same
          exact inside
      · cases waits
  | listing filename i answer =>
    cases answer with
    | some files => cases waits
    | none =>
      cases waits
      exact ⟨0, Nat.zero_le _, within_listing⟩
  | deleting filename file files k deletes answer =>
    cases answer with
    | some removed => cases waits
    | none =>
      cases waits
      have nothing : stores id [some (.handled id (.delete file)
          (Request.handle server (.delete file)).1)] = 0 := rfl
      refine ⟨0, by omega, ?_⟩
      unfold Request.handle
      dsimp only
      split_ifs <;> exact within_deleting
  | finding filename i answer =>
    cases answer with
    | some files => cases waits
    | none =>
      cases waits
      exact ⟨0, Nat.zero_le _, within_finding⟩
  | idle => cases waits
  | obtaining file i content status => cases waits
  | ended result => cases waits

end Within

theorem countP_left {u : ℕ} (other : u ≠ id) (phase : Phase) (failure : Option Failure) :
    (left id phase failure).countP (uploadsOf u) = 0 := by
  rw [List.countP_eq_zero]
  intro entry mem
  unfold left at mem
  split at mem
  · obtain ⟨request, -, rfl⟩ := Option.map_eq_some_iff.mp (Option.mem_toList.mp mem)
    cases request <;> simp [uploadsOf, Ne.symm other]
  · cases mem

def Bounded (self : B2Interface) (u : ℕ) (events : List (Option Event)) (s : State) : Prop :=
  ∃ m, m + (stores u events + s.late.countP (uploadsOf u)) ≤ self.b2MaxRetries ∧
    (s.phase u).Within self.b2MaxRetries m

theorem stores_append (u : ℕ) (e : Option Event) :
    stores u (events ++ [e]) = stores u events + stores u [e] := List.countP_append

theorem stores_handled {u : ℕ} (other : u ≠ id) (request : Request) (answer : Answer) :
    stores u [some (.handled id request answer)] = 0 := by
  cases request <;> cases answer <;> simp [stores, storesOf, Ne.symm other]

theorem Bounded.moves {u : ℕ} (h : Bounded self u events s) {e : Option Event} {s' : State}
    (moves : Moves self env describe s e s') : Bounded self u (events ++ [e]) s' := by
  obtain ⟨m, few, within⟩ := h
  have quiet {e : Option Event} (none : stores u [e] = 0) : stores u (events ++ [e]) =
      stores u events := by
    rw [stores_append, none, Nat.add_zero]
  -- the call of another number keeps its phase
  have others {id : ℕ} {phase : Phase} (other : u ≠ id) :
      ((s.setPhase id phase).phase u).Within self.b2MaxRetries m := by
    rwa [State.setPhase_phase, if_neg other]
  have own {phase : Phase} : (s.setPhase u phase).phase u = phase := by
    rw [State.setPhase_phase, if_pos rfl]
  cases moves with
  | stays => exact ⟨m, by rwa [quiet rfl], within⟩
  | begins id op idle =>
    rw [Bounded, quiet rfl]
    by_cases same : u = id
    · subst same
      rw [idle] at within
      exact ⟨self.b2MaxRetries, (Nat.add_le_add_right within.1 _).trans few, own ▸ within_begin⟩
    · exact ⟨m, few, others same⟩
  | obtains id file i content status reply authorize waits =>
    rw [Bounded, quiet rfl]
    by_cases same : u = id
    · subst same
      rw [waits] at within
      exact ⟨self.b2MaxRetries, (Nat.add_le_add_right within.1 _).trans few,
        own ▸ within_obtainTurn⟩
    · exact ⟨m, few, others same⟩
  | handles id request waits =>
    by_cases same : u = id
    · subst same
      obtain ⟨m', less, after⟩ := within.answer u waits s.server
      refine ⟨m', ?_, own ▸ after⟩
      rw [stores_append]
      dsimp only [State.setPhase]
      omega
    · rw [Bounded, quiet (stores_handled same ..)]
      exact ⟨m, few, others same⟩
  | lags n id request late =>
    obtain ⟨inside, here⟩ := List.getElem?_eq_some_iff.mp late
    have one : s.late.countP (uploadsOf u) =
        (s.late.eraseIdx n).countP (uploadsOf u) + [(id, request)].countP (uploadsOf u) := by
      rw [← (List.getElem_cons_eraseIdx_perm inside).countP_eq, here, List.countP_cons,
        List.countP_singleton]
    have stored : stores u [some (.handled id request (request.handle s.server).1)] ≤
        [(id, request)].countP (uploadsOf u) := by
      cases request with
      | upload file headers => exact le_rfl
      | list startFileName => exact le_rfl
      | delete version => exact Nat.zero_le _
    refine ⟨m, ?_, within⟩
    rw [stores_append]
    dsimp only
    omega
  | answers id failure authorize phase account turned =>
    rw [Bounded, quiet rfl]
    dsimp only
    rw [List.countP_append]
    by_cases same : u = id
    · subst same
      obtain ⟨m', less, after⟩ := within.turn u turned u
      exact ⟨m', by omega, own ▸ after⟩
    · have none := countP_left same (s.phase id) failure
      exact ⟨m, by omega, others same⟩

theorem run_bounded (server : Server Str) (account : Account) (steps : List Step) (u : ℕ) :
    Bounded self u (outputs (step self env describe) (start server account) steps)
      (run (step self env describe) (start server account) steps) := by
  have always : Always (step self env describe) (fun _ _ _ => True) (start server account) steps :=
    always_of_forall_mem (fun _ _ _ => trivial) _
  have first : Bounded self u [] (start server account) :=
    ⟨self.b2MaxRetries, le_rfl, within_idle⟩
  exact outputs_inv (I := Bounded self u) (fun events s i h _ => h.moves (step_moves ..)) first
    always

/-- After any steps of any calls. A version is held if it was there at first or was stored, and has
not been removed; it was stored by an upload of the file that it is named after, and no upload
stores more versions than it has turns; it was removed by a delete of that file that had it in its
listing; and a delete that returns True has removed one. -/
theorem calls_accounted (self : B2Interface) (env : Env)
    (describe : Version Str → Headers → Object) (server : Server Str) (account : Account)
    (steps : List Step) :
    let events := outputs (step self env describe) (start server account) steps
    let s := run (step self env describe) (start server account) steps
    (∀ v, v ∈ s.server.versions ↔
      (v ∈ server.versions ∨ Stored events v) ∧ ¬Removed events v) ∧
    (∀ u file headers v, some (.handled u (.upload file headers) (.stored v)) ∈ events →
      some (.began u (.upload file)) ∈ events ∧ v.fileName = file.filename) ∧
    (∀ u, stores u events ≤ self.b2MaxRetries) ∧
    (∀ d v, some (.handled d (.delete v) .removed) ∈ events →
      some (.began d (.delete v.fileName)) ∈ events ∧
        ∃ files, some (.handled d (.list v.fileName) (.listed files)) ∈ events ∧ v ∈ files) ∧
    ∀ d, s.phase d = .ended (.ok (.deleted true)) →
      ∃ v, some (.handled d (.delete v) .removed) ∈ events := by
  intro events s
  have accounted : Accounted server events s.server := run_accounted server account steps
  have sound : Sound describe events s := run_sound server account steps
  refine ⟨accounted.held, fun u file headers v stored => ?_, fun u => ?_, fun d v removed => ?_,
    fun d returned => ?_⟩
  · obtain ⟨began, quoted⟩ := sound.handled u _ _ stored
    exact ⟨began, (sound.stored u file headers v stored).trans (Percent.unquote_quote quoted)⟩
  · obtain ⟨m, few, -⟩ : Bounded self u events s := run_bounded server account steps u
    omega
  · obtain ⟨began, files, listed, sub⟩ := sound.handled d _ _ removed
    exact ⟨began, files, listed, sub (List.mem_singleton_self v)⟩
  · have ended := sound.phase d
    rw [returned] at ended
    exact ended.2 rfl

end KhCommon.Backblaze.Store
