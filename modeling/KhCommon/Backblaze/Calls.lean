import KhCommon.Backblaze.Store

/-! What the calls ask of the server. A version that is stored has the name of the file of
the call that stored it, whatever `quote` made of that; a version that is removed was
listed for a delete of its file. -/

namespace KhCommon.Backblaze.Store

open Python Attempts Machine
open B2Interface

variable {self : B2Interface} {env : Env} {describe : Version Str → Headers → Object}
  {events : List (Option Event)} {s : State} {id : ℕ} {w : Version Str}

/-! ## What the calls ask for -/

def Listed (events : List (Option Event)) (id : ℕ) (filename : Str)
    (files : List (Version Str)) : Prop :=
  some (.began id (.delete filename)) ∈ events ∧
    ∃ listed, some (.handled id (.list filename) (.listed listed)) ∈ events ∧ files ⊆ listed

def Uploaded (describe : Version Str → Headers → Object) (events : List (Option Event)) (id : ℕ)
    (content : Object) : Prop :=
  ∃ file headers w, some (.began id (.upload file)) ∈ events ∧
    some (.handled id (.upload file headers) (.stored w)) ∈ events ∧
    w.fileName = file.filename ∧ content = describe w headers

def Request.Asked (events : List (Option Event)) (id : ℕ) : Request → Prop
  | .upload file headers => some (.began id (.upload file)) ∈ events ∧
    Percent.quote file.filename = some headers.fileName
  | .list _ => True
  | .delete v => Listed events id v.fileName [v]

def Phase.Sound (describe : Version Str → Headers → Object) (events : List (Option Event))
    (id : ℕ) : Phase → Prop
  | .idle => True
  | .obtaining file _ _ _ => some (.began id (.upload file)) ∈ events
  | .uploading file _ headers _ _ answer =>
    Request.Asked events id (.upload file headers) ∧
      ∀ content, answer = some content → Uploaded describe events id content
  | .listing filename _ answer => some (.began id (.delete filename)) ∈ events ∧
    ∀ files, answer = some files → Listed events id filename files
  | .deleting filename file files _ deletes answer =>
    Listed events id filename (file :: files) ∧ file.fileName = filename ∧
      (deletes ≠ 0 ∨ answer = some true →
        ∃ v, some (.handled id (.delete v) .removed) ∈ events)
  | .finding _ _ _ => True
  | .ended result =>
    (∀ content, result = .ok (.uploaded content) → Uploaded describe events id content) ∧
      (result = .ok (.deleted true) → ∃ v, some (.handled id (.delete v) .removed) ∈ events)

section Mono

variable {events' : List (Option Event)} (grow : events ⊆ events')
include grow

theorem Listed.mono {filename : Str} {files : List (Version Str)}
    (h : Listed events id filename files) : Listed events' id filename files := by
  obtain ⟨began, listed, handled, sub⟩ := h
  exact ⟨grow began, listed, grow handled, sub⟩

theorem Uploaded.mono {content : Object} (h : Uploaded describe events id content) :
    Uploaded describe events' id content := by
  obtain ⟨file, headers, w, began, handled, rest⟩ := h
  exact ⟨file, headers, w, grow began, grow handled, rest⟩

theorem Request.Asked.mono {request : Request} (h : request.Asked events id) :
    request.Asked events' id := by
  cases request with
  | upload file headers => exact ⟨grow h.1, h.2⟩
  | list startFileName => trivial
  | delete v => exact Listed.mono grow h

theorem Phase.Sound.mono {phase : Phase} (h : phase.Sound describe events id) :
    phase.Sound describe events' id := by
  cases phase with
  | idle => trivial
  | obtaining file i content status => exact grow h
  | uploading file uploadUrl headers i s answer =>
    exact ⟨h.1.mono grow, fun content answered => (h.2 content answered).mono grow⟩
  | listing filename i answer =>
    exact ⟨grow h.1, fun files answered => (h.2 files answered).mono grow⟩
  | deleting filename file files k deletes answer =>
    refine ⟨h.1.mono grow, h.2.1, fun some => ?_⟩
    obtain ⟨v, removed⟩ := h.2.2 some
    exact ⟨v, grow removed⟩
  | finding filename i answer => trivial
  | ended result =>
    refine ⟨fun content uploaded => (h.1 content uploaded).mono grow, fun some => ?_⟩
    obtain ⟨v, removed⟩ := h.2 some
    exact ⟨v, grow removed⟩

end Mono

/-! ### One turn of a call -/

section Turn

variable {filename : Str} {file : Version Str} {files : List (Version Str)} {deletes : ℕ}

theorem sound_error {fault : Fault} : (Phase.ended (.error fault)).Sound describe events id :=
  ⟨fun _ => nofun, nofun⟩

theorem sound_report {response : Except Fault (Option Auth.Json)}
    {fault : Option Auth.Json → Fault} :
    (Phase.ended (response.bind fun response => .error (fault response))).Sound describe
      events id := by
  cases response <;> exact sound_error

theorem sound_nextObtain {file : File} {i : ℕ} {content : Content} {status : Option ℕ}
    (began : some (.began id (.upload file)) ∈ events) :
    (nextObtain self env file i content status).Sound describe events id := by
  unfold nextObtain
  split_ifs
  · exact began
  · exact sound_report

theorem sound_nextUpload {file : File} {uploadUrl : Object} {headers : Headers} {i : ℕ}
    {s : Uploading} (asked : Request.Asked events id (.upload file headers)) :
    (nextUpload self env file uploadUrl headers i s).Sound describe events id := by
  unfold nextUpload
  split_ifs
  · exact ⟨asked, nofun⟩
  · exact sound_report

theorem sound_nextList {i : ℕ} (began : some (.began id (.delete filename)) ∈ events) :
    (nextList self filename i).Sound describe events id := by
  unfold nextList
  split_ifs
  · exact ⟨began, nofun⟩
  · exact sound_error

theorem sound_nextFile (listed : Listed events id filename files)
    (removes : deletes ≠ 0 → ∃ v, some (.handled id (.delete v) .removed) ∈ events) :
    (nextFile self filename deletes files).Sound describe events id := by
  induction files with
  | nil =>
    refine ⟨fun _ => nofun, fun some => removes ?_⟩
    simpa using some
  | cons file files ih =>
    rw [nextFile]
    split_ifs with named
    · exact ⟨listed, named.1, fun some => removes (some.resolve_right nofun)⟩
    · obtain ⟨began, all, handled, sub⟩ := listed
      exact ih ⟨began, all, handled, fun v mem => sub (List.mem_cons_of_mem _ mem)⟩

theorem sound_nextDelete {k : ℕ} (listed : Listed events id filename (file :: files))
    (named : file.fileName = filename)
    (removes : deletes ≠ 0 → ∃ v, some (.handled id (.delete v) .removed) ∈ events) :
    (nextDelete self filename file files k deletes).Sound describe events id := by
  unfold nextDelete
  split_ifs
  · exact ⟨listed, named, fun some => removes (some.resolve_right nofun)⟩
  · obtain ⟨began, all, handled, sub⟩ := listed
    exact sound_nextFile ⟨began, all, handled, fun v mem => sub (List.mem_cons_of_mem _ mem)⟩
      removes

theorem sound_nextFind {i : ℕ} : (nextFind self filename i).Sound describe events id := by
  unfold nextFind
  split_ifs
  · trivial
  · exact ⟨fun _ => nofun, nofun⟩

theorem headers_spec {file : File} {uploadUrl : Object} {sent : Headers}
    (h : headers self env file uploadUrl = .ok sent) :
    Percent.quote file.filename = some sent.fileName := by
  unfold headers at h
  cases typed : self.sentType env file with
  | error fault =>
    rw [typed] at h
    cases h
  | ok contentType =>
    cases given : getitem uploadUrl "authorizationToken" with
    | error fault =>
      rw [typed, given] at h
      cases h
    | ok token =>
      rw [typed, given] at h
      cases quoted : Percent.quote file.filename with
      | none =>
        simp only [quoted] at h
        cases h
      | some name =>
        simp only [quoted] at h
        cases h
        rfl

theorem uploadAttempt_done {script : Script} {contentType sha1 name : Str} {uploadUrl : Object}
    {i : ℕ} {s : Uploading} {result : Except Fault Object}
    (h : uploadAttempt script contentType sha1 name uploadUrl i s = .done result) :
    ∃ status content, script.upload i = .ok status content ∧
      (result = .ok content ∨ result = .error .assertionError) := by
  unfold uploadAttempt at h
  cases url : getitem uploadUrl "uploadUrl" with
  | error fault =>
    simp only [url] at h
    cases h
  | ok value =>
    cases reply : script.upload i with
    | raises status =>
      simp only [url, reply] at h
      cases h
    | fails status content =>
      simp only [url, reply] at h
      cases h
    | ok status content =>
      simp only [url, reply] at h
      refine ⟨status, content, rfl, ?_⟩
      rcases verdict_cases contentType sha1 name content with none | ⟨ok, -⟩ | ⟨error, -⟩
      · rw [none] at h
        cases h
      · rw [ok] at h
        cases h
        exact .inl rfl
      · rw [error] at h
        cases h
        exact .inr rfl

theorem sound_obtainTurn {file : File} {i : ℕ} {s : Obtaining} {reply : Reply}
    {authorize : ℕ → Reply} (began : some (.began id (.upload file)) ∈ events) :
    (obtainTurn self env file i s reply authorize).1.Sound describe events id := by
  unfold obtainTurn
  cases self.obtainAttempt (answering reply authorize) i s with
  | again s => exact sound_nextObtain began
  | done obtained =>
    obtain ⟨uploadUrl, account⟩ := obtained
    cases built : headers self env file uploadUrl with
    | error fault =>
      simp only [built]
      exact sound_error
    | ok headers =>
      simp only [built]
      exact sound_nextUpload ⟨began, headers_spec built⟩

theorem sound_uploadTurn {file : File} {uploadUrl : Object} {headers : Headers} {i : ℕ}
    {s : Uploading} {reply : Reply} (asked : Request.Asked events id (.upload file headers))
    (uploaded : ∀ status content, reply = .ok status content →
      Uploaded describe events id content) :
    (uploadTurn self env file uploadUrl headers i s reply).Sound describe events id := by
  unfold uploadTurn
  cases turn : uploadAttempt (answering reply fun _ => reply) headers.contentType
      headers.contentSha1 file.filename uploadUrl i s with
  | again s => exact sound_nextUpload asked
  | done result =>
    obtain ⟨status, content, replied, rfl | rfl⟩ := uploadAttempt_done turn
    · refine ⟨fun other same => ?_, nofun⟩
      cases same
      exact uploaded status content replied
    · exact sound_error

theorem sound_listTurn {i : ℕ} {listing : Listing Str} {authorize : ℕ → Reply} {account : Account}
    (began : some (.began id (.delete filename)) ∈ events)
    (listed : ∀ files, listing = .files files → Listed events id filename files) :
    (listTurn self filename i listing authorize account).1.Sound describe events id := by
  cases listing with
  | files files =>
    rw [listTurn]
    dsimp only
    split_ifs
    · exact sound_error
    · exact sound_nextFile (listed files rfl) (absurd rfl)
  | raises => exact sound_nextList began
  | unauthorized => exact sound_nextList began
  | refused => exact sound_nextList began

theorem sound_findTurn {i : ℕ} {listing : Listing Str} {authorize : ℕ → Reply}
    {account : Account} :
    (findTurn self filename i listing authorize account).1.Sound describe events id := by
  unfold findTurn
  cases self.fileInfoAttempt (fun _ => listing) (fun _ => authorize) filename i account with
  | again account => exact sound_nextFind
  | done found =>
    obtain ⟨result, account⟩ := found
    cases result <;> exact ⟨fun _ => nofun, nofun⟩

theorem sound_begin {op : Op} (began : some (.began id op) ∈ events) :
    (begin self env op).Sound describe events id := by
  cases op with
  | upload file => exact sound_nextObtain began
  | delete filename => exact sound_nextList began
  | info filename => exact sound_nextFind

theorem Phase.Sound.asked {phase : Phase} (h : phase.Sound describe events id)
    {request : Request} (waits : phase.request? = some request) : request.Asked events id := by
  cases phase with
  | uploading file uploadUrl headers i s answer =>
    cases answer with
    | some content => cases waits
    | none =>
      simp only [Phase.request?] at waits
      split at waits
      · cases waits
        exact h.1
      · cases waits
  | listing filename i answer =>
    cases answer with
    | some files => cases waits
    | none =>
      cases waits
      trivial
  | deleting filename file files k deletes answer =>
    cases answer with
    | some removed => cases waits
    | none =>
      cases waits
      obtain ⟨⟨began, listed, handled, sub⟩, rfl, -⟩ := h
      exact ⟨began, listed, handled, fun v mem =>
        sub (List.mem_singleton.mp mem ▸ List.mem_cons_self)⟩
  | finding filename i answer =>
    cases answer with
    | some files => cases waits
    | none =>
      cases waits
      trivial
  | idle => cases waits
  | obtaining file i content status => cases waits
  | ended result => cases waits

theorem Phase.Sound.answer {phase : Phase} (h : phase.Sound describe events id)
    {request : Request} (waits : phase.request? = some request) {server : Server Str}
    (handled : some (.handled id request (request.handle server).1) ∈ events) :
    (phase.answer describe (request.handle server).1).Sound describe events id := by
  cases phase with
  | uploading file uploadUrl headers i s answer =>
    cases answer with
    | some content => cases waits
    | none =>
      simp only [Phase.request?] at waits
      split at waits
      · cases waits
        refine ⟨h.1, fun content same => ?_⟩
        cases same
        exact ⟨file, headers, _, h.1.1, handled, Percent.unquote_quote h.1.2, rfl⟩
      · cases waits
  | listing filename i answer =>
    cases answer with
    | some files => cases waits
    | none =>
      cases waits
      refine ⟨h.1, fun files same => ?_⟩
      cases same
      exact ⟨h.1, _, handled, List.Subset.refl _⟩
  | deleting filename file files k deletes answer =>
    cases answer with
    | some removed => cases waits
    | none =>
      cases waits
      by_cases there : file ∈ server.versions
      · have answered : Request.handle server (.delete file) =
            (.removed, server.delete file.fileId) := if_pos there
        rw [answered] at handled ⊢
        exact ⟨h.1, h.2.1, fun _ => ⟨file, handled⟩⟩
      · have answered : Request.handle server (.delete file) = (.missing, server) :=
          if_neg there
        rw [answered]
        exact ⟨h.1, h.2.1, fun some => h.2.2 (.inl (some.resolve_right nofun))⟩
  | finding filename i answer =>
    cases answer with
    | some files => cases waits
    | none =>
      cases waits
      trivial
  | idle => cases waits
  | obtaining file i content status => cases waits
  | ended result => cases waits

theorem Failure.listing_ne_files (failure : Failure) (files : List (Version Str)) :
    failure.listing ≠ .files files := by
  cases failure with
  | raises status => nofun
  | refused status content =>
    rw [Failure.listing]
    split_ifs <;> nofun

theorem Phase.Sound.left {phase : Phase} (h : phase.Sound describe events id)
    {failure : Option Failure} {entry : ℕ × Request} (mem : entry ∈ left id phase failure) :
    entry.2.Asked events entry.1 := by
  unfold Store.left at mem
  split at mem
  · obtain ⟨request, waits, rfl⟩ := Option.map_eq_some_iff.mp (Option.mem_toList.mp mem)
    exact h.asked waits
  · cases mem

theorem Phase.Sound.turn {phase after : Phase} (h : phase.Sound describe events id)
    {authorize : ℕ → Reply} {account account' : Account} {failure : Option Failure}
    (turn : phase.turn self env authorize account failure = some (after, account')) :
    after.Sound describe events id := by
  cases phase with
  | uploading file uploadUrl headers i s answer =>
    obtain ⟨reply, rfl, ⟨content, rfl, rfl⟩ | ⟨failed, rfl⟩⟩ := Phase.turn_uploading turn
    · refine sound_uploadTurn h.1 fun status other same => ?_
      cases same
      exact h.2 content rfl
    · refine sound_uploadTurn h.1 fun status other same => ?_
      cases failed <;> cases same
  | listing filename i answer =>
    obtain ⟨listing, rfl, ⟨files, rfl, rfl⟩ | ⟨failed, rfl⟩⟩ := Phase.turn_listing turn
    · refine sound_listTurn h.1 fun other same => ?_
      cases same
      exact h.2 files rfl
    · exact sound_listTurn h.1 fun files same => absurd same (failed.listing_ne_files files)
  | deleting filename file files k deletes answer =>
    obtain ⟨listed, named, removes⟩ := h
    have again : (nextDelete self filename file files (k + 1) deletes).Sound describe events id :=
      sound_nextDelete listed named fun some => removes (.inl some)
    cases failure with
    | none =>
      cases answer with
      | none => cases turn
      | some removed =>
        cases removed with
        | false =>
          cases turn
          exact again
        | true =>
          cases turn
          obtain ⟨began, all, handled, sub⟩ := listed
          exact sound_nextFile ⟨began, all, handled, fun v mem =>
            sub (List.mem_cons_of_mem _ mem)⟩ fun _ => removes (.inr rfl)
    | some failure =>
      have turned : some (nextDelete self filename file files (k + 1) deletes, account) =
          some (after, account') := by
        rcases answer with _ | _ | _ <;> exact turn
      cases turned
      exact again
  | finding filename i answer =>
    obtain ⟨listing, rfl, -⟩ := Phase.turn_finding turn
    exact sound_findTurn
  | idle => cases failure <;> cases turn
  | obtaining file i content status => cases failure <;> cases turn
  | ended result => cases failure <;> cases turn

end Turn

/-! ### A step of the whole -/

structure Sound (describe : Version Str → Headers → Object) (events : List (Option Event))
    (s : State) : Prop where
  phase : ∀ id, (s.phase id).Sound describe events id
  late : ∀ entry ∈ s.late, entry.2.Asked events entry.1
  handled : ∀ id request answer, some (.handled id request answer) ∈ events →
    request.Asked events id
  stored : ∀ id file headers w,
    some (.handled id (.upload file headers) (.stored w)) ∈ events →
      w.fileName = Percent.unquote headers.fileName

theorem Sound.setPhase (h : Sound describe events s) {phase : Phase}
    (sound : phase.Sound describe events id) (id' : ℕ) :
    ((s.setPhase id phase).phase id').Sound describe events id' := by
  rw [State.setPhase_phase]
  split_ifs with own
  · subst own
    exact sound
  · exact h.phase id'

theorem Sound.quiet (h : Sound describe events s) {e : Option Event}
    (quiet : ∀ id request answer, e ≠ some (.handled id request answer)) :
    Sound describe (events ++ [e]) s := by
  have grow : events ⊆ events ++ [e] := List.subset_append_left _ _
  have old {id : ℕ} {request : Request} {answer : Answer}
      (mem : some (.handled id request answer) ∈ events ++ [e]) :
      some (.handled id request answer) ∈ events := by
    rcases List.mem_append.mp mem with old | new
    · exact old
    · exact absurd (List.mem_singleton.mp new).symm (quiet _ _ _)
  exact ⟨fun id => (h.phase id).mono grow, fun entry mem => (h.late entry mem).mono grow,
    fun id request answer mem => (h.handled id request answer (old mem)).mono grow,
    fun id file headers w mem => h.stored id file headers w (old mem)⟩

theorem Sound.handle (h : Sound describe events s) {request : Request}
    (asked : request.Asked events id) (server : Server Str) :
    Sound describe (events ++ [some (.handled id request (request.handle server).1)]) s := by
  have grow : events ⊆ events ++ [some (.handled id request (request.handle server).1)] :=
    List.subset_append_left _ _
  refine ⟨fun id => (h.phase id).mono grow, fun entry mem => (h.late entry mem).mono grow,
    fun id' request' answer mem => ?_, fun id' file headers w mem => ?_⟩
  · rcases List.mem_append.mp mem with old | new
    · exact (h.handled id' request' answer old).mono grow
    · cases List.mem_singleton.mp new
      exact asked.mono grow
  · rcases List.mem_append.mp mem with old | new
    · exact h.stored id' file headers w old
    · obtain ⟨rfl, rfl, answered⟩ : id' = id ∧ .upload file headers = request ∧
          .stored w = (request.handle server).1 := by
        simpa using List.mem_singleton.mp new
      cases answered
      rfl

theorem Sound.moves (h : Sound describe events s) {e : Option Event} {s' : State}
    (moves : Moves self env describe s e s') : Sound describe (events ++ [e]) s' := by
  have quiet : Sound describe (events ++ [none]) s := h.quiet fun _ _ _ => nofun
  cases moves with
  | stays => exact quiet
  | begins id op =>
    have began : Sound describe (events ++ [some (.began id op)]) s :=
      h.quiet fun _ _ _ => nofun
    have sound : (begin self env op).Sound describe (events ++ [some (.began id op)]) id :=
      sound_begin (List.mem_append_right _ (List.mem_singleton_self _))
    exact ⟨began.setPhase sound, began.late, began.handled, began.stored⟩
  | obtains id file i content status reply authorize waits =>
    have began := quiet.phase id
    rw [waits] at began
    exact ⟨quiet.setPhase (sound_obtainTurn began), quiet.late, quiet.handled, quiet.stored⟩
  | handles id request waits =>
    have handled := h.handle ((h.phase id).asked waits) s.server
    have sound := (handled.phase id).answer waits
      (List.mem_append_right _ (List.mem_singleton_self _))
    exact ⟨handled.setPhase sound, handled.late, handled.handled, handled.stored⟩
  | lags n id request late =>
    have asked := h.late (id, request) (List.mem_of_getElem? late)
    have handled := h.handle asked s.server
    exact ⟨handled.phase, fun entry mem => handled.late entry (List.mem_of_mem_eraseIdx mem),
      handled.handled, handled.stored⟩
  | answers id failure authorize phase account turned =>
    refine ⟨quiet.setPhase ((quiet.phase id).turn turned), fun entry mem => ?_, quiet.handled,
      quiet.stored⟩
    rcases List.mem_append.mp mem with old | new
    · exact quiet.late entry old
    · exact (quiet.phase id).left new

theorem run_sound (server : Server Str) (account : Account) (steps : List Step) :
    Sound describe (outputs (step self env describe) (start server account) steps)
      (run (step self env describe) (start server account) steps) := by
  have always : Always (step self env describe) (fun _ _ _ => True) (start server account) steps :=
    always_of_forall_mem (fun _ _ _ => trivial) _
  have first : Sound describe [] (start server account) := by
    refine ⟨fun _ => trivial, ?_, ?_, ?_⟩ <;> simp [start]
  exact outputs_inv (I := Sound describe) (fun events s i h _ => h.moves (step_moves ..)) first
    always

end KhCommon.Backblaze.Store
