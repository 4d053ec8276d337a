import KhCommon.Caching.SimpleCache
import KhCommon.SafeJoin

/-! `safeJoin` over time. The list of secure folders is read from a file that others
change, and is kept for 15 minutes by `SimpleCache`; the file is read after the
reading from which the expiry is taken. It is asked for only when the path begins
with the working directory, so other requests do not renew it. -/

namespace KhCommon.SafeJoin

open Python Machine

def foldersTTL : ℚ := 900

/-- What `securefolders.json` has at each time; none when it is not to be opened or read. -/
abbrev FoldersFile := ℚ → Option (List Str)

/-- A call of `safeJoin`: its arguments, the file system it meets, the readings of the cache, and
the time at which the file is read if it is. -/
structure Request where
  args : List Str
  fs : FileSystem
  now : ℚ
  started : ℚ
  read : ℚ

abbrev FoldersCache := SimpleCache.State (List Str)

def cachedFolders (file : FoldersFile) (s : FoldersCache) (request : Request) :
    Except Empty (Option (List Str)) × FoldersCache :=
  SimpleCache.wrapper foldersTTL s
    ⟨request.now, request.started, .ok (secureFolders (file request.read))⟩

def safeJoinStep (file : FoldersFile) (cwd : RealPath) (s : FoldersCache) (request : Request) :
    Except Exc Str × FoldersCache :=
  match join request.args with
  | .error e => (.error e, s)
  | .ok joined =>
    let path := (request.fs.realpath joined).text
    if cwd.text <+: path then
      match cachedFolders file s request with
      | (.ok (some folders), s) =>
        (if (∀ folder ∈ folders, ¬folder <:+: path) ∧ request.fs.exists path then .ok path
          else .error unavailable, s)
      | (.ok none, s) => (.error .typeError, s) -- `None` is not iterable
    else (.error unavailable, s)

def AnswersAt (file : FoldersFile) (cwd : RealPath) (request : Request) (answer : Except Exc Str)
    (read : ℚ) : Prop :=
  answer = safeJoin request.fs cwd (secureFolders (file read)) request.args

def Recent (file : FoldersFile) (t : ℚ) (s : FoldersCache) : Prop :=
  s = SimpleCache.start ∨
    ∃ started read, started ≤ read ∧ read ≤ t ∧
      s = ⟨started + foldersTTL, some (secureFolders (file read))⟩

variable {file : FoldersFile} {cwd : RealPath} {t : ℚ} {s : FoldersCache} {request : Request}

theorem cachedFolders_recent (h : Recent file t s) (positive : 0 < t) (now : t ≤ request.now)
    (started : request.now ≤ request.started) (readLater : request.started ≤ request.read) :
    ∃ read, request.now ≤ read + foldersTTL ∧ read ≤ request.read ∧
      (cachedFolders file s request).1 = .ok (some (secureFolders (file read))) ∧
      Recent file request.read (cachedFolders file s request).2 := by
  have ttl : (0 : ℚ) ≤ foldersTTL := by norm_num [foldersTTL]
  have close : t ≤ request.read := (now.trans started).trans readLater
  by_cases due : request.now > s.expire
  · refine ⟨request.read, ?_, le_rfl, ?_, ?_⟩
    · exact (started.trans readLater).trans (le_add_of_nonneg_right ttl)
    · rw [cachedFolders, SimpleCache.wrapper_ok due rfl]
    · rw [cachedFolders, SimpleCache.wrapper_ok due rfl]
      exact .inr ⟨request.started, request.read, readLater, le_rfl, rfl⟩
  · rcases h with rfl | ⟨earlier, read, order, past, rfl⟩
    · exact absurd (positive.trans_le now) due
    · refine ⟨read, ?_, past.trans close, ?_, ?_⟩
      · exact (not_lt.mp due).trans (add_le_add_left order foldersTTL)
      · rw [cachedFolders, SimpleCache.wrapper_hit due]
      · rw [cachedFolders, SimpleCache.wrapper_hit due]
        exact .inr ⟨earlier, read, order, past.trans close, rfl⟩

theorem safeJoinStep_recent (cwd : RealPath) (h : Recent file t s) (positive : 0 < t)
    (now : t ≤ request.now) (started : request.now ≤ request.started)
    (readLater : request.started ≤ request.read) :
    (∃ read, request.now ≤ read + foldersTTL ∧ read ≤ request.read ∧
      AnswersAt file cwd request (safeJoinStep file cwd s request).1 read) ∧
    Recent file request.read (safeJoinStep file cwd s request).2 := by
  have ttl : (0 : ℚ) ≤ foldersTTL := by norm_num [foldersTTL]
  have readNow : request.now ≤ request.read + foldersTTL :=
    (started.trans readLater).trans (le_add_of_nonneg_right ttl)
  have kept : Recent file request.read s := by
    rcases h with rfl | ⟨earlier, read, order, past, rfl⟩
    · exact .inl rfl
    · exact .inr ⟨earlier, read, order, ((past.trans now).trans started).trans readLater, rfl⟩
  unfold safeJoinStep AnswersAt safeJoin
  cases joined : join request.args with
  | error e => exact ⟨⟨request.read, readNow, le_rfl, rfl⟩, kept⟩
  | ok joined =>
    dsimp only
    split_ifs with begins
    · obtain ⟨read, recent, past, got, after⟩ :=
        cachedFolders_recent h positive now started readLater
      generalize cachedFolders file s request = cached at got after
      obtain ⟨folders, s'⟩ := cached
      obtain rfl : folders = .ok (some (secureFolders (file read))) := got
      exact ⟨⟨read, recent, past, by simp only [begins, true_and]⟩, after⟩
    · exact ⟨⟨request.read, readNow, le_rfl, by simp only [begins, false_and, if_false]⟩, kept⟩

theorem AnswersAt.secured {answer : Except Exc Str} {read : ℚ}
    (h : AnswersAt file cwd request answer read) {folders : List Str} {name : Str}
    (listed : file read = some folders) (mem : name ∈ folders) {path : Str}
    (served : answer = .ok path) : ¬name <:+: path := by
  rw [AnswersAt, served, safeJoin, listed] at h
  split at h
  · cases h
  · dsimp only at h
    split_ifs at h with passes
    cases h
    exact passes.2.1 name mem

/-- Whatever is asked for, and however the file changes: each answer is the one of `safeJoin` for
what the file had at some moment not more than 15 minutes before the call. So when a name has been
in the file for 15 minutes, no path with this name in it is served, until it is taken out. -/
theorem safeJoin_secured (file : FoldersFile) (cwd : RealPath) {t₀ : ℚ} (positive : 0 < t₀)
    (requests : List Request) (clock : Clocked Request.now Request.read t₀ requests)
    (timely : ∀ request ∈ requests,
      request.now ≤ request.started ∧ request.started ≤ request.read) :
    Always (safeJoinStep file cwd) (fun _ request answer =>
      (∃ read, request.now ≤ read + foldersTTL ∧ read ≤ request.read ∧
        AnswersAt file cwd request answer read) ∧
      ∀ name added, added + foldersTTL ≤ request.now →
        (∀ t, added ≤ t → t ≤ request.read → ∃ folders, file t = some folders ∧ name ∈ folders) →
        ∀ path, answer = .ok path → ¬name <:+: path) SimpleCache.start requests := by
  refine (always_of_clocked (I := fun t s => 0 < t ∧ Recent file t s)
    (C := fun _ request _ => request.now ≤ request.started ∧ request.started ≤ request.read)
    (fun t s request before now _ ordered => ?_) ⟨positive, .inl rfl⟩ clock
    (always_of_forall_mem (fun request mem _ => timely request mem) _)).1
  obtain ⟨recent, after⟩ := safeJoinStep_recent cwd before.2 before.1 now ordered.1 ordered.2
  have later : 0 < request.read :=
    before.1.trans_le ((now.trans ordered.1).trans ordered.2)
  refine ⟨⟨recent, fun name added old listed path served => ?_⟩, later, after⟩
  obtain ⟨read, close, past, answers⟩ := recent
  have since : added ≤ read := le_of_add_le_add_right (old.trans close)
  obtain ⟨folders, has, mem⟩ := listed read since past
  exact answers.secured has mem served

theorem safeJoin_secured_private :
    let cwd := pathOf ["srv", "app"] (by decide)
    let folder := pathOf ["srv", "app", "private"] (by decide)
    let file : FoldersFile := fun t => some (if t < 10 then [] else [literal "private"])
    let request := fun t => Request.mk [literal "private"] ⟨fun _ => folder, fun _ => true⟩ t t t
    let s := (safeJoinStep file cwd SimpleCache.start (request 5)).2
    (safeJoinStep file cwd s (request 1000)).1 ≠ .ok folder.text := by
  intro cwd folder file request s served
  have run := safeJoin_secured file cwd one_pos [request 5, request 1000]
    (by norm_num [Clocked, request]) (by simp [request])
  refine run.2.1.2 (literal "private") 10 (by norm_num [request, foldersTTL]) (fun t since _ => ?_)
    folder.text served (by decide)
  exact ⟨_, rfl, by simp [not_lt.mpr since]⟩

end KhCommon.SafeJoin
