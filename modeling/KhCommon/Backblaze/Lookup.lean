import KhCommon.Backblaze.Calls

/-! A lookup that begins when an upload of the file has returned. Uploads that were sent
again, or that are handled late, put newer versions of files before it, never older
ones; only a delete of the file itself can take away what was uploaded. -/

namespace KhCommon.Backblaze.Store

open Python Attempts Machine
open B2Interface

variable {self : B2Interface} {env : Env} {describe : Version Str → Headers → Object}
  {events : List (Option Event)} {s : State} {w : Version Str}

/-- What a lookup of the file may come to after `w` was stored: a version that is no older, unless
`w` has been removed. -/
def Tells (events : List (Option Event)) (filename : Str) (w : Version Str)
    (result : Except Fault (Option (Version Str))) : Prop :=
  (∃ v, result = .ok (some v) ∧ v.fileName = filename ∧ w.fileId ≤ v.fileId ∧ Stored events v) ∨
    Removed events w

def Looking (events : List (Option Event)) (filename : Str) (w : Version Str) : Phase → Prop
  | .finding name _ answer => name = filename ∧
    ∀ files, answer = some files → Tells events filename w (firstVersion filename files)
  | .ended result => result = .ok (.found none) ∨
    ∃ found, result = found.map .found ∧ Tells events filename w found
  | _ => False

def Receives (i : ℕ) (s : State) (j : Step) : Prop :=
  (∃ authorize, j = .answers i none authorize) ∧
    ∃ filename k files, s.phase i = .finding filename k (some files)

section Lookup

variable {filename : Str} {first server : Server Str}

theorem Tells.mono {events' : List (Option Event)} (grow : events ⊆ events')
    {result : Except Fault (Option (Version Str))} (h : Tells events filename w result) :
    Tells events' filename w result := by
  rcases h with ⟨v, found, named, newer, id, file, headers, stored⟩ | ⟨id, removed⟩
  · exact .inl ⟨v, found, named, newer, id, file, headers, grow stored⟩
  · exact .inr ⟨id, grow removed⟩

theorem Looking.mono {events' : List (Option Event)} (grow : events ⊆ events') {phase : Phase}
    (h : Looking events filename w phase) : Looking events' filename w phase := by
  cases phase with
  | finding name i answer => exact ⟨h.1, fun files answered => (h.2 files answered).mono grow⟩
  | ended result =>
    rcases h with none | ⟨found, result, tells⟩
    · exact .inl none
    · exact .inr ⟨found, result, tells.mono grow⟩
  | _ => exact h

theorem looking_nextFind {i : ℕ} : Looking events filename w (nextFind self filename i) := by
  unfold nextFind
  split_ifs
  · refine ⟨rfl, ?_⟩
    rintro _ ⟨⟩
  · exact .inl rfl

theorem Accounted.tells (h : Accounted first events server) (stored : Stored events w)
    (named : w.fileName = filename) :
    Tells events filename w (firstVersion filename (server.listFileVersions filename 5)) := by
  by_cases removed : Removed events w
  · exact .inr removed
  · have held : w ∈ server.versionsOf filename :=
      Bucket.mem_versionsOf.mpr ⟨(h.held w).mpr ⟨.inr stored, removed⟩, named⟩
    obtain ⟨v, newest⟩ : ∃ v, (server.versionsOf filename).head? = some v := by
      cases versions : server.versionsOf filename with
      | nil =>
        rw [versions] at held
        cases held
      | cons v older => exact ⟨v, rfl⟩
    obtain ⟨mem, same, newer⟩ := Server.le_of_head? newest
    have found : firstVersion filename (server.listFileVersions filename 5) = .ok (some v) := by
      rw [firstVersion, server.find?_listFileVersions (by simp) (by decide), newest]
    have no_older : w.fileId ≤ v.fileId := newer w (Bucket.mem_versionsOf.mp held).1 named
    rcases ((h.held v).mp mem).1 with old | new
    · have := first.below v old
      have := h.stored w stored
      omega
    · exact .inl ⟨v, found, same, no_older, new⟩

theorem findTurn_failure (filename : Str) (i : ℕ) (failure : Failure) (authorize : ℕ → Reply)
    (account : Account) : (findTurn self filename i failure.listing authorize account).1 =
      nextFind self filename (i + 1) := by
  unfold findTurn
  cases listing : failure.listing with
  | files files => exact absurd listing (failure.listing_ne_files files)
  | _ => rfl

theorem Looking.turn {phase after : Phase} (h : Looking events filename w phase)
    {authorize : ℕ → Reply} {account account' : Account} {failure : Option Failure}
    (turn : phase.turn self env authorize account failure = some (after, account')) :
    Looking events filename w after := by
  cases phase with
  | finding name i answer =>
    obtain ⟨rfl, tells⟩ := h
    obtain ⟨listing, rfl, ⟨files, rfl, rfl⟩ | ⟨failed, rfl⟩⟩ := Phase.turn_finding turn
    · exact .inr ⟨_, rfl, tells files rfl⟩
    · rw [findTurn_failure]
      exact looking_nextFind
  | ended result => cases failure <;> cases turn
  | idle => exact absurd h id
  | obtaining => exact absurd h id
  | uploading => exact absurd h id
  | listing => exact absurd h id
  | deleting => exact absurd h id

theorem Looking.answer {phase : Phase} (h : Looking events filename w phase) {request : Request}
    (waits : phase.request? = some request) (accounted : Accounted first events s.server)
    (stored : Stored events w) (named : w.fileName = filename) :
    Looking events filename w (phase.answer describe (request.handle s.server).1) := by
  cases phase with
  | finding name k answer =>
    obtain ⟨rfl, -⟩ := h
    cases answer with
    | some files => cases waits
    | none =>
      cases waits
      refine ⟨rfl, fun files same => ?_⟩
      cases same
      exact accounted.tells stored named
  | ended result => cases waits
  | idle => exact absurd h id
  | obtaining => exact absurd h id
  | uploading => exact absurd h id
  | listing => exact absurd h id
  | deleting => exact absurd h id

theorem Looking.step {id : ℕ} (h : Looking events filename w (s.phase id))
    (accounted : Accounted first events s.server) (stored : Stored events w)
    (named : w.fileName = filename) (i : Step) :
    Looking (events ++ [(step self env describe s i).1]) filename w
      ((step self env describe s i).2.phase id) := by
  refine Looking.mono (List.subset_append_left _ _) ?_
  obtain same | ⟨idle, -⟩ | ⟨file, k, content, status, reply, authorize, waits, -⟩ |
    ⟨request, waits, after⟩ | ⟨authorize, account, failure, turned⟩ :=
      (step_moves self env describe s i).phase id
  · rwa [same]
  · rw [idle] at h
    exact h.elim
  · rw [waits] at h
    exact h.elim
  · rw [after]
    exact h.answer waits accounted stored named
  · exact h.turn turned

end Lookup

theorem ended_step {id : ℕ} {result : Except Fault Value} (ended : s.phase id = .ended result)
    (i : Step) : (step self env describe s i).2.phase id = .ended result := by
  obtain same | ⟨idle, -⟩ | ⟨file, k, content, status, reply, authorize, waits, -⟩ |
    ⟨request, waits, -⟩ | ⟨authorize, account, failure, turned⟩ :=
      (step_moves self env describe s i).phase id
  · rwa [same]
  · rw [ended] at idle
    cases idle
  · rw [ended] at waits
    cases waits
  · rw [ended] at waits
    cases waits
  · rw [ended] at turned
    cases failure <;> cases turned

theorem ended_run {id : ℕ} {result : Except Fault Value} (steps : List Step)
    (ended : s.phase id = .ended result) :
    (run (step self env describe) s steps).phase id = .ended result := by
  induction steps generalizing s with
  | nil => exact ended
  | cons i steps ih => exact ih (ended_step ended i)

theorem firstVersion_ne_none (filename : Str) (files : List (Version Str)) :
    firstVersion filename files ≠ .ok none := by
  unfold firstVersion
  cases files.find? fun file => file.fileName = filename <;> simp

variable (self env describe) in
theorem Receives.ends {i : ℕ} {j : Step} (h : Receives i s j) :
    ∃ found : Except Fault (Option (Version Str)), found ≠ .ok none ∧
      (step self env describe s j).2.phase i = .ended (found.map .found) := by
  obtain ⟨⟨authorize, rfl⟩, filename, k, files, waits⟩ := h
  refine ⟨firstVersion filename files, firstVersion_ne_none filename files, ?_⟩
  simp [step, waits, Phase.turn, findTurn, fileInfoAttempt, State.setPhase]

theorem not_receives_of_none {i : ℕ} {steps : List Step}
    (ended : (run (step self env describe) s steps).phase i = .ended (.ok (.found none))) :
    Always (step self env describe) (fun s j _ => ¬Receives i s j) s steps := by
  induction steps generalizing s with
  | nil => trivial
  | cons j steps ih =>
    refine ⟨fun received => ?_, ih ended⟩
    obtain ⟨found, some, after⟩ := received.ends self env describe
    rw [run_cons, ended_run steps after, Phase.ended.injEq] at ended
    cases found with
    | error fault => cases ended
    | ok version =>
      cases ended
      exact some rfl

/-- Whatever calls there are at a time, whatever answers are lost and whatever is handled late. When
an upload has returned, the file is stored, and a lookup that begins then finds a version of the
file that is no older, unless it receives no listing, or a delete of that file removed the stored
version. -/
theorem lookup_current (server : Server Str) (account : Account) (before rest : List Step)
    {u i : ℕ} {content : Object} {filename : Str} {result : Except Fault Value}
    (uploaded : (run (step self env describe) (start server account) before).phase u =
      .ended (.ok (.uploaded content)))
    (idle : (run (step self env describe) (start server account) before).phase i = .idle)
    (ended : (run (step self env describe) (start server account)
      (before ++ .begins i (.info filename) :: rest)).phase i = .ended result) :
    let events := outputs (step self env describe) (start server account)
    ∃ file headers w, some (.began u (.upload file)) ∈ events before ∧
      some (.handled u (.upload file headers) (.stored w)) ∈ events before ∧
      w.fileName = file.filename ∧ content = describe w headers ∧
      (file.filename = filename →
        (result = .ok (.found none) ∧
          Always (step self env describe) (fun s j _ => ¬Receives i s j)
            (run (step self env describe) (start server account) before)
            (.begins i (.info filename) :: rest)) ∨
        (∃ v, result = .ok (.found (some v)) ∧ v.fileName = filename ∧ w.fileId ≤ v.fileId ∧
          Stored (events (before ++ .begins i (.info filename) :: rest)) v) ∨
        ∃ d, some (.began d (.delete filename)) ∈
            events (before ++ .begins i (.info filename) :: rest) ∧
          some (.handled d (.delete w) .removed) ∈
            events (before ++ .begins i (.info filename) :: rest)) := by
  intro events
  have sound : Sound describe (events before) _ := run_sound server account before
  have last := sound.phase u
  rw [uploaded] at last
  obtain ⟨file, headers, w, began, handled, named, same⟩ := last.1 content rfl
  refine ⟨file, headers, w, began, handled, named, same, fun asked => ?_⟩
  have stored : Stored (events before) w := ⟨u, file, headers, handled⟩
  set s := run (step self env describe) (start server account) before
  have begins : step self env describe s (.begins i (.info filename)) =
      (some (.began i (.info filename)), s.setPhase i (nextFind self filename 0)) := by
    simp only [step, idle]
    rfl
  have looking : Looking (events before ++ [some (.began i (.info filename))]) filename w
      ((s.setPhase i (nextFind self filename 0)).phase i) := by
    rw [State.setPhase_phase, if_pos rfl]
    exact looking_nextFind
  have accounted : Accounted server (events before ++ [some (.began i (.info filename))])
      (s.setPhase i (nextFind self filename 0)).server := by
    have before : Accounted server (events before) s.server := run_accounted server account before
    have next : Accounted server
        (events _ ++ [(step self env describe s (.begins i (.info filename))).1]) _ :=
      before.step _
    rwa [begins] at next
  have always : Always (step self env describe) (fun _ _ _ => True)
      (s.setPhase i (nextFind self filename 0)) rest :=
    always_of_forall_mem (fun _ _ _ => trivial) _
  -- the lookup, from its beginning on
  have looks := outputs_inv (I := fun events s => Accounted server events s.server ∧
      Stored events w ∧ Looking events filename w (s.phase i))
    (fun events s j h _ => ⟨h.1.step j, stored_append.mpr (.inl h.2.1),
      h.2.2.step h.1 h.2.1 (named.trans asked) j⟩)
    ⟨accounted, stored_append.mpr (.inl stored), looking⟩ always
  have all : events (before ++ .begins i (.info filename) :: rest) =
      (events before ++ [some (.began i (.info filename))]) ++
        outputs (step self env describe) (s.setPhase i (nextFind self filename 0)) rest := by
    simp only [events, outputs_append, outputs, List.append_assoc, List.singleton_append]
    rw [begins]
  have there : run (step self env describe) (start server account)
      (before ++ .begins i (.info filename) :: rest) =
        run (step self env describe) (s.setPhase i (nextFind self filename 0)) rest := by
    rw [run_append, run_cons, begins]
  have sound' : Sound describe (events (before ++ .begins i (.info filename) :: rest)) _ :=
    run_sound server account _
  rw [← all, ← there, ended] at looks
  rcases looks.2.2 with none | ⟨found, same, ⟨v, rfl, rest⟩ | ⟨d, removed⟩⟩
  · rw [run_append, none] at ended
    exact .inl ⟨none, not_receives_of_none ended⟩
  · exact .inr (.inl ⟨v, same, rest⟩)
  · obtain ⟨began, -⟩ := sound'.handled d _ _ removed
    rw [named, asked] at began
    exact .inr (.inr ⟨d, began, removed⟩)

section Twice

def emptyFile : File := ⟨[], literal "a", some (literal "b"), some (literal "c")⟩

def emptyServer : Server Str := ⟨⟨[], .nil, .nil⟩, 0, .nil, List.forall_mem_nil _⟩

def echo (_ : Version Str) (headers : Headers) : Object :=
  [(literal "contentType", .str headers.contentType),
    (literal "contentSha1", .str headers.contentSha1), (literal "fileName", .str headers.fileName)]

def storedTwice : List Step :=
  [.begins 0 (.upload emptyFile),
    .obtains 0 (.ok 200 [(literal "authorizationToken", .null), (literal "uploadUrl", .null)])
      fun _ => .raises none,
    .handles 0, .answers 0 (some (.raises none)) fun _ => .raises none,
    .handles 0, .answers 0 none fun _ => .raises none]

theorem lookup_current_twice :
    let machine := step (init 2 ∅) ⟨fun _ => none, fun _ => [], id⟩ echo
    let first := start emptyServer ⟨.null, .null, .null, .null⟩
    let rest : List Step := [.handles 1, .answers 1 none fun _ => .raises none]
    (run machine first (storedTwice ++ .begins 1 (.info (literal "a")) :: rest)).phase 1 =
        .ended (.ok (.found (some ⟨literal "a", 1⟩))) ∧
      ∃ file w, some (.began 0 (.upload file)) ∈ outputs machine first storedTwice ∧
        w.fileName = file.filename ∧ Stored (outputs machine first storedTwice) w := by
  intro machine first rest
  have found : (run machine first
      (storedTwice ++ .begins 1 (.info (literal "a")) :: rest)).phase 1 =
        .ended (.ok (.found (some ⟨literal "a", 1⟩))) := rfl
  obtain ⟨file, headers, w, began, stored, named, -⟩ := lookup_current emptyServer
    ⟨.null, .null, .null, .null⟩ storedTwice rest (u := 0) (i := 1) rfl rfl found
  exact ⟨found, file, w, began, named, 0, file, headers, stored⟩

end Twice

end KhCommon.Backblaze.Store
