import KhCommon.Caching.SimpleCache
import Mathlib.Data.List.Nodup
import Mathlib.Logic.Function.Basic

/-! The asynchronous wrapper of `SimpleCache`. Its lock is held round the run of the
function, and asyncio's lock is handed on in the order in which it was asked for.
So whatever is interleaved, the calls are served one after the other, the first
first, and each is answered as the synchronous wrapper answers it then. -/

namespace KhCommon.SimpleCache.Async

open Machine

variable {E V : Type*}

inductive Phase
  | idle
  | waiting
  | running (now started : ℚ)

structure Shared (V : Type*) where
  cache : State V
  locked : Bool
  waiters : List ℕ
  phase : ℕ → Phase

/-- A call begins; the first waiter goes on; or the function ends that a call awaits. The readings
are those it takes if it gets the lock. -/
inductive Event (E V : Type*)
  | start (id : ℕ) (now started : ℚ)
  | resume (now started : ℚ)
  | complete (id : ℕ) (result : Except E V)

/-- A call that is over: its readings, what its run gave if it ran the function, and its answer. -/
structure Completion (E V : Type*) where
  id : ℕ
  now : ℚ
  started : ℚ
  ran : Option (Except E V)
  answer : Except E (Option V)

inductive Notice (E V : Type*)
  | arrived (id : ℕ)
  | completed (completion : Completion E V)

def Shared.setPhase (s : Shared V) (id : ℕ) (phase : Phase) : Shared V :=
  { s with phase := Function.update s.phase id phase }

@[simp] theorem setPhase_cache (s : Shared V) (id : ℕ) (phase : Phase) :
    (s.setPhase id phase).cache = s.cache := rfl

@[simp] theorem setPhase_locked (s : Shared V) (id : ℕ) (phase : Phase) :
    (s.setPhase id phase).locked = s.locked := rfl

@[simp] theorem setPhase_waiters (s : Shared V) (id : ℕ) (phase : Phase) :
    (s.setPhase id phase).waiters = s.waiters := rfl

@[simp] theorem setPhase_self (s : Shared V) (id : ℕ) (phase : Phase) :
    (s.setPhase id phase).phase id = phase := Function.update_self ..

theorem setPhase_of_ne (s : Shared V) {id id' : ℕ} (other : id' ≠ id) (phase : Phase) :
    (s.setPhase id phase).phase id' = s.phase id' := Function.update_of_ne other ..

def enter (ttl : ℚ) (s : Shared V) (id : ℕ) (now started : ℚ) :
    List (Notice E V) × Shared V :=
  if now > s.cache.expire then
    ([], { s with cache := { s.cache with expire := started + ttl }, locked := true }.setPhase id
      (.running now started))
  else ([.completed ⟨id, now, started, none, .ok s.cache.data⟩], s.setPhase id .idle)

def step (ttl : ℚ) (s : Shared V) : Event E V → List (Notice E V) × Shared V
  | .start id now started =>
    match s.phase id with
    | .idle =>
      if !s.locked && s.waiters.isEmpty then
        let (notices, s) := enter ttl s id now started
        (.arrived id :: notices, s)
      else ([.arrived id], { s with waiters := s.waiters ++ [id] }.setPhase id .waiting)
    | _ => ([], s)
  | .resume now started =>
    match s.locked, s.waiters with
    | false, id :: waiters => enter ttl { s with waiters } id now started
    | _, _ => ([], s)
  | .complete id result =>
    match s.phase id with
    | .running now started =>
      match result with
      | .ok data =>
        ([.completed ⟨id, now, started, some (.ok data), .ok (some data)⟩],
          { s with cache := { s.cache with data := some data }, locked := false }.setPhase id .idle)
      | .error e =>
        ([.completed ⟨id, now, started, some (.error e), .error e⟩],
          { s with locked := false }.setPhase id .idle)
    | _ => ([], s)

def start : Shared V := ⟨SimpleCache.start, false, [], fun _ => .idle⟩

/-- The call to the synchronous wrapper; `unused` is what the function would have given to a call
that did not run it. -/
def Completion.call (unused : Except E V) (completion : Completion E V) : Call E V :=
  ⟨completion.now, completion.started, completion.ran.getD unused⟩

def Notice.arrival : Notice E V → Option ℕ
  | .arrived id => some id
  | .completed _ => none

def Notice.completion : Notice E V → Option (Completion E V)
  | .arrived _ => none
  | .completed completion => some completion

def Replays (ttl : ℚ) (completions : List (Completion E V)) (s : State V) : Prop :=
  ∀ unused : Except E V,
    run (wrapper ttl) SimpleCache.start (completions.map (Completion.call unused)) = s ∧
      outputs (wrapper ttl) SimpleCache.start (completions.map (Completion.call unused)) =
        completions.map Completion.answer

/-- The state of the cache, given the one that the calls before left: a call that awaits the
function has moved the expiry on. -/
def Ahead (ttl : ℚ) (before : State V) (s : Shared V) : Option ℕ → Prop
  | none => s.cache = before
  | some id => ∃ now started, s.phase id = .running now started ∧ now > before.expire ∧
    s.cache = ⟨started + ttl, before.data⟩

structure Serial (ttl : ℚ) (notices : List (Notice E V)) (s : Shared V)
    (holder : Option ℕ) : Prop where
  locked : s.locked = holder.isSome
  runs : ∀ id, (∃ now started, s.phase id = .running now started) → holder = some id
  waits : ∀ id, s.phase id = .waiting ↔ id ∈ s.waiters
  distinct : s.waiters.Nodup
  order : (notices.filterMap Notice.completion).map Completion.id ++ holder.toList ++ s.waiters =
    notices.filterMap Notice.arrival
  cache : ∃ before, Replays ttl (notices.filterMap Notice.completion) before ∧
    Ahead ttl before s holder

variable {ttl : ℚ} {s : Shared V} {notices : List (Notice E V)}

theorem Replays.snoc {completions : List (Completion E V)} {before after : State V}
    (h : Replays ttl completions before) {completion : Completion E V}
    (answers : ∀ unused, wrapper ttl before (completion.call unused) = (completion.answer, after)) :
    Replays ttl (completions ++ [completion]) after := by
  intro unused
  obtain ⟨reached, answered⟩ := h unused
  rw [List.map_append, List.map_singleton, run_append, outputs_append, reached, answered]
  simp [outputs, answers unused]

@[simp] theorem completion_completed (completion : Completion E V) :
    Notice.completion (.completed completion) = some completion := rfl

@[simp] theorem completion_arrived (id : ℕ) :
    (Notice.arrived id : Notice E V).completion = none := rfl

@[simp] theorem arrival_completed (completion : Completion E V) :
    Notice.arrival (.completed completion) = none := rfl

@[simp] theorem arrival_arrived (id : ℕ) :
    (Notice.arrived id : Notice E V).arrival = some id := rfl

/-! ## Getting the lock -/

structure Next (ttl : ℚ) (notices : List (Notice E V)) (s : Shared V)
    (id : ℕ) : Prop where
  locked : s.locked = false
  runs : ∀ id' now started, s.phase id' ≠ .running now started
  waits : ∀ id', id' ≠ id → (s.phase id' = .waiting ↔ id' ∈ s.waiters)
  distinct : (id :: s.waiters).Nodup
  order : (notices.filterMap Notice.completion).map Completion.id ++ id :: s.waiters =
    notices.filterMap Notice.arrival
  cache : Replays ttl (notices.filterMap Notice.completion) s.cache

theorem Next.enter {id : ℕ} (h : Next ttl notices s id) (now started : ℚ) :
    ∃ holder, Serial ttl (notices ++ (Async.enter ttl s id now started).1)
      (Async.enter (E := E) ttl s id now started).2 holder := by
  have absent : id ∉ s.waiters := (List.nodup_cons.mp h.distinct).1
  have waits : ∀ phase, phase ≠ .waiting → ∀ id',
      ((s.setPhase id phase).phase id' = .waiting ↔ id' ∈ s.waiters) := by
    intro phase away id'
    by_cases same : id' = id
    · subst same
      simpa [away] using absent
    · rw [setPhase_of_ne s same]
      exact h.waits id' same
  by_cases due : now > s.cache.expire
  · have entered : Async.enter (E := E) ttl s id now started =
        ([], { s with
          cache := { s.cache with expire := started + ttl }
          locked := true }.setPhase id (.running now started)) := if_pos due
    rw [entered, List.append_nil]
    refine ⟨some id, ⟨rfl, ?_, waits _ (by simp), (List.nodup_cons.mp h.distinct).2, ?_, ?_⟩⟩
    · rintro id' ⟨now', started', running⟩
      by_cases same : id' = id
      · rw [same]
      · rw [setPhase_of_ne _ same] at running
        exact absurd running (h.runs id' now' started')
    · simpa using h.order
    · exact ⟨s.cache, h.cache, now, started, setPhase_self .., due, rfl⟩
  · have entered : Async.enter (E := E) ttl s id now started =
        ([.completed ⟨id, now, started, none, .ok s.cache.data⟩], s.setPhase id .idle) :=
      if_neg due
    rw [entered]
    refine ⟨none, ⟨h.locked, ?_, waits _ (by simp), (List.nodup_cons.mp h.distinct).2, ?_, ?_⟩⟩
    · rintro id' ⟨now', started', running⟩
      by_cases same : id' = id
      · subst same
        simp at running
      · rw [setPhase_of_ne _ same] at running
        exact absurd running (h.runs id' now' started')
    · simpa [List.filterMap_cons] using h.order
    · refine ⟨s.cache, ?_, rfl⟩
      rw [List.filterMap_append]
      exact h.cache.snoc fun _ => wrapper_hit due

/-! ## One step -/

theorem Serial.wait {holder : Option ℕ} (h : Serial ttl notices s holder) {id : ℕ}
    (idle : s.phase id = .idle) :
    Serial ttl (notices ++ [.arrived id])
      ({ s with waiters := s.waiters ++ [id] }.setPhase id .waiting) holder where
  locked := h.locked
  runs := by
    rintro id' ⟨now, started, running⟩
    by_cases same : id' = id
    · subst same
      simp at running
    · rw [setPhase_of_ne _ same] at running
      exact h.runs id' ⟨now, started, running⟩
  waits id' := by
    by_cases same : id' = id
    · subst same
      simp
    · rw [setPhase_of_ne _ same]
      simp [h.waits id', same]
  distinct := by
    have absent : id ∉ s.waiters := by simp [← h.waits, idle]
    exact List.nodup_append.mpr ⟨h.distinct, List.nodup_singleton id, by
      rintro a ha b hb rfl
      exact absent (List.mem_singleton.mp hb ▸ ha)⟩
  order := by simp [← h.order]
  cache := by
    obtain ⟨before, replays, ahead⟩ := h.cache
    refine ⟨before, by simpa [List.filterMap_cons] using replays, ?_⟩
    cases holder with
    | none => exact ahead
    | some id' =>
      obtain ⟨now, started, running, due, moved⟩ := ahead
      have same : id' ≠ id := by
        rintro rfl
        rw [idle] at running
        cases running
      exact ⟨now, started, by rwa [setPhase_of_ne _ same], due, moved⟩

theorem Serial.finish {id : ℕ} {holder : Option ℕ} (h : Serial ttl notices s holder)
    {now started : ℚ} (running : s.phase id = .running now started) {result : Except E V}
    {cache : State V} {answer : Except E (Option V)}
    (answers : ∀ before : State V, now > before.expire → s.cache = ⟨started + ttl, before.data⟩ →
      wrapper ttl before ⟨now, started, result⟩ = (answer, cache)) :
    Serial ttl (notices ++ [.completed ⟨id, now, started, some result, answer⟩])
      ({ s with cache := cache, locked := false }.setPhase id .idle) none := by
  obtain rfl := h.runs id ⟨now, started, running⟩
  refine ⟨rfl, ?_, fun id' => ?_, h.distinct, ?_, ?_⟩
  · rintro id' ⟨now', started', running'⟩
    by_cases same : id' = id
    · subst same
      simp at running'
    · rw [setPhase_of_ne _ same] at running'
      exact absurd (Option.some.inj (h.runs id' ⟨now', started', running'⟩)).symm same
  · by_cases same : id' = id
    · subst same
      have away := (h.waits id').not.mp (by simp [running])
      simpa using away
    · rw [setPhase_of_ne _ same]
      exact h.waits id'
  · simp [← h.order]
  · obtain ⟨before, replays, now', started', running', due, moved⟩ := h.cache
    rw [running] at running'
    cases running'
    refine ⟨cache, ?_, rfl⟩
    rw [List.filterMap_append]
    exact replays.snoc fun _ => answers before due moved

theorem Serial.next {holder : Option ℕ} (h : Serial ttl notices s holder)
    (free : s.locked = false) {id : ℕ} {waiters : List ℕ} (distinct : (id :: waiters).Nodup)
    {more : List (Notice E V)} (quiet : more.filterMap Notice.completion = [])
    (order : s.waiters ++ more.filterMap Notice.arrival = id :: waiters)
    (others : ∀ id', id' ≠ id → (id' ∈ s.waiters ↔ id' ∈ waiters)) :
    Next ttl (notices ++ more) { s with waiters := waiters } id := by
  obtain rfl : holder = none := by
    rw [← Option.not_isSome_iff_eq_none, ← h.locked, free]
    exact Bool.false_ne_true
  obtain ⟨before, replays, rfl⟩ := h.cache
  refine ⟨free, fun id' now started running => ?_, fun id' other => ?_, distinct, ?_, ?_⟩
  · exact absurd (h.runs id' ⟨now, started, running⟩) (by simp)
  · exact (h.waits id').trans (others id' other)
  · rw [List.filterMap_append, List.filterMap_append, quiet, ← h.order, List.append_nil, ← order]
    simp
  · rwa [List.filterMap_append, quiet, List.append_nil]

theorem step_serial {holder : Option ℕ} (h : Serial ttl notices s holder)
    (event : Event E V) :
    ∃ holder, Serial ttl (notices ++ (step ttl s event).1) (step ttl s event).2 holder := by
  have stay : ∃ holder, Serial ttl (notices ++ []) s holder :=
    ⟨holder, by rwa [List.append_nil]⟩
  cases event with
  | start id now started =>
    cases phase : s.phase id with
    | waiting => simpa only [step, phase] using stay
    | running => simpa only [step, phase] using stay
    | idle =>
      simp only [step, phase]
      split_ifs with free
      · rw [Bool.and_eq_true, Bool.not_eq_true', List.isEmpty_iff] at free
        have next : Next ttl (notices ++ [.arrived id]) { s with waiters := [] } id :=
          h.next free.1 (List.nodup_singleton id) rfl (by rw [free.2]; rfl) (by simp [free.2])
        rw [← free.2] at next
        rw [List.append_cons]
        exact next.enter now started
      · exact ⟨holder, h.wait phase⟩
  | resume now started =>
    cases locked : s.locked with
    | true => simpa only [step, locked] using stay
    | false =>
      cases waiters : s.waiters with
      | nil => simpa only [step, locked, waiters] using stay
      | cons id rest =>
        simp only [step, locked, waiters]
        have distinct := h.distinct
        rw [waiters] at distinct
        have next : Next ttl (notices ++ []) { s with waiters := rest } id := by
          refine h.next locked distinct rfl (by simp [waiters]) fun id' other => ?_
          simp [waiters, other]
        rw [List.append_nil] at next
        simpa only [locked] using next.enter now started
  | complete id result =>
    cases phase : s.phase id with
    | idle => simpa only [step, phase] using stay
    | waiting => simpa only [step, phase] using stay
    | running now started =>
      cases result with
      | ok data =>
        simp only [step, phase]
        refine ⟨none, h.finish phase fun before due moved => ?_⟩
        rw [wrapper_ok due rfl, moved]
      | error e =>
        simp only [step, phase]
        refine ⟨none, h.finish phase fun before due moved => ?_⟩
        rw [wrapper_error due rfl, moved]

/-! ## The whole run -/

theorem start_serial (ttl : ℚ) :
    Serial ttl ([] : List (Notice E V)) start none where
  locked := rfl
  runs := by
    rintro id ⟨now, started, running⟩
    cases running
  waits id := by simp [start]
  distinct := List.nodup_nil
  order := rfl
  cache := ⟨SimpleCache.start, fun _ => ⟨rfl, rfl⟩, rfl⟩

theorem run_serial (ttl : ℚ) (events : List (Event E V)) :
    ∃ holder, Serial ttl (outputs (step ttl) start events).flatten
      (run (step ttl) start events) holder := by
  have first : ∃ holder, Serial ttl ([] : List (List (Notice E V))).flatten start holder :=
    ⟨none, start_serial ttl⟩
  refine outputs_inv (I := fun os s => ∃ holder, Serial ttl os.flatten s holder)
    (C := fun _ _ _ => True) (fun os s event before _ => ?_) first
    (always_of_forall_mem (fun _ _ _ => trivial) _)
  obtain ⟨holder, serial⟩ := before
  rw [List.flatten_append, List.flatten_singleton]
  exact step_serial serial event

/-- However the calls are interleaved: at most one awaits the function; the calls that are over,
the one that awaits the function and the ones that wait are all that came, in the order in which
they came; and the ones that are over were answered as the synchronous wrapper answers them when
they are made one after the other in this order. -/
theorem asyncWrapper_serial (ttl : ℚ) (events : List (Event E V)) :
    let s := run (step ttl) start events
    let notices := (outputs (step ttl) start events).flatten
    let completions := notices.filterMap Notice.completion
    (∃ holder : Option ℕ,
      (∀ id, (∃ now started, s.phase id = .running now started) ↔ holder = some id) ∧
      completions.map Completion.id ++ holder.toList ++ s.waiters =
        notices.filterMap Notice.arrival) ∧
    ∀ unused : Except E V, outputs (wrapper ttl) SimpleCache.start
      (completions.map (Completion.call unused)) = completions.map Completion.answer := by
  intro s notices completions
  obtain ⟨holder, serial⟩ := run_serial ttl events
  obtain ⟨before, replays, ahead⟩ := serial.cache
  refine ⟨⟨holder, fun id => ⟨serial.runs id, ?_⟩, serial.order⟩, fun unused => (replays unused).2⟩
  rintro rfl
  obtain ⟨now, started, running, -⟩ := ahead
  exact ⟨now, started, running⟩

end KhCommon.SimpleCache.Async
