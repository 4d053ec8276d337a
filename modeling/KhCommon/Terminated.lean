import KhCommon.Lib.Machine
import Mathlib.Data.List.Nodup
import Mathlib.Data.List.Range

/-! `Terminated`: callbacks for a signal that ends the process, and the flag the worker
loops poll. A callback that raises leaves the handler in the middle of its loop, so
the list is not cleared and the flag not lowered. A registration is known by its
number; whether its callback raises is up to each signal. No signal is handled
inside the handler of another. -/

namespace KhCommon

structure Terminated where
  alive : Bool
  runOnTerm : List ℕ -- `(func, args, kwargs)` of these registrations
  registered : ℕ

namespace Terminated

open Machine

inductive Event
  | onTerminate
  | signal (raises : ℕ → Bool)

def start : Terminated := ⟨true, [], 0⟩

/-- The loop of `terminate`: the callbacks it runs, the last of them perhaps in vain, and whether
one raised. -/
def runCallbacks (raises : ℕ → Bool) : List ℕ → List ℕ × Bool
  | [] => ([], false)
  | func :: funcs =>
    if raises func then ([func], true)
    else
      let (ran, raised) := runCallbacks raises funcs
      (func :: ran, raised)

def onTerminate (s : Terminated) : Terminated :=
  { s with runOnTerm := s.runOnTerm ++ [s.registered], registered := s.registered + 1 }

def terminate (raises : ℕ → Bool) (s : Terminated) : List ℕ × Terminated :=
  let (ran, raised) := runCallbacks raises s.runOnTerm
  (ran, if raised then s else { s with runOnTerm := [], alive := false })

def step (s : Terminated) : Event → List ℕ × Terminated
  | .onTerminate => ([], s.onTerminate)
  | .signal raises => s.terminate raises

/-! ## What is promised -/

def Event.isRegistration : Event → Bool
  | .onTerminate => true
  | .signal _ => false

def registrations (events : List Event) : ℕ := events.countP Event.isRegistration

def ran (events : List Event) : List ℕ := (outputs step start events).flatten

/-- After a signal the flag is down and all that was registered before it has been run, and nothing
is run twice. -/
structure Promised (events : List Event) : Prop where
  lowered : ∀ before, before <+: events → (∃ raises, .signal raises ∈ before) →
    (run step start before).alive = false
  complete : ∀ before raises, before ++ [.signal raises] <+: events →
    ∀ n < registrations before, n ∈ ran (before ++ [.signal raises])
  once : (ran events).Nodup

def Waiting (events : List Event) (n : ℕ) : Prop :=
  ∃ earlier later, events = earlier ++ .onTerminate :: later ∧ registrations earlier = n ∧
    ∀ raises, .signal raises ∉ later

/-- No signal of the run meets a callback that waits for it and raises. -/
def Returning (events : List Event) : Prop :=
  ∀ before raises, before ++ [.signal raises] <+: events →
    ∀ n, Waiting before n → raises n = false

def Quiet (events : List Event) : Prop := ∀ raises, .signal raises ∈ events → ∀ n, raises n = false

/-! ## The loop -/

variable {raises : ℕ → Bool} {funcs : List ℕ} {s : Terminated} {events before : List Event}

theorem runCallbacks_of_returning (h : ∀ n ∈ funcs, raises n = false) :
    runCallbacks raises funcs = (funcs, false) := by
  induction funcs with
  | nil => rfl
  | cons func funcs ih =>
    rw [List.forall_mem_cons] at h
    rw [runCallbacks, h.1, ih h.2]
    rfl

theorem runCallbacks_of_raising {n : ℕ} (mem : n ∈ funcs) (h : raises n = true) :
    (runCallbacks raises funcs).2 = true := by
  induction funcs with
  | nil => cases mem
  | cons func funcs ih =>
    rw [runCallbacks]
    split_ifs with first
    · rfl
    · have later : n ∈ funcs := by
        refine (List.mem_cons.mp mem).resolve_left ?_
        rintro rfl
        exact first h
      exact ih later

theorem runCallbacks_head (raises : ℕ → Bool) (func : ℕ) (funcs : List ℕ) :
    ∃ others, (runCallbacks raises (func :: funcs)).1 = func :: others := by
  rw [runCallbacks]
  split_ifs
  · exact ⟨[], rfl⟩
  · exact ⟨_, rfl⟩

/-! ## Runs -/

@[simp] theorem registrations_append (events later : List Event) :
    registrations (events ++ later) = registrations events + registrations later :=
  List.countP_append

theorem registered_terminate (raises : ℕ → Bool) (s : Terminated) :
    (s.terminate raises).2.registered = s.registered := by
  rcases hcalls : runCallbacks raises s.runOnTerm with ⟨ran, _ | _⟩ <;> simp [terminate, hcalls]

theorem registered_run (s : Terminated) (events : List Event) :
    (run step s events).registered = s.registered + registrations events := by
  induction events generalizing s with
  | nil => rfl
  | cons event events ih =>
    rw [run_cons, ih]
    cases event with
    | onTerminate =>
      simp only [step, onTerminate, registrations, List.countP_cons, Event.isRegistration, if_true]
      omega
    | signal raises => simp [step, registered_terminate, registrations, Event.isRegistration]

theorem runOnTerm_grows (s : Terminated) (h : ∀ raises, .signal raises ∉ events) :
    s.runOnTerm <+: (run step s events).runOnTerm := by
  induction events generalizing s with
  | nil => exact List.prefix_rfl
  | cons event events ih =>
    cases event with
    | signal raises => exact absurd List.mem_cons_self (h raises)
    | onTerminate =>
      refine .trans ?_ (ih _ fun raises mem => h raises (List.mem_cons_of_mem _ mem))
      exact List.prefix_append _ _

theorem Waiting.mem_runOnTerm {n : ℕ} (h : Waiting events n) :
    n ∈ (run step start events).runOnTerm := by
  obtain ⟨earlier, later, rfl, rfl, noSignal⟩ := h
  rw [run_append, run_cons]
  refine (runOnTerm_grows _ noSignal).subset ?_
  simp [step, onTerminate, registered_run, start]

theorem Waiting.onTerminate {n : ℕ} (h : Waiting events n) :
    Waiting (events ++ [.onTerminate]) n := by
  obtain ⟨earlier, later, rfl, number, noSignal⟩ := h
  exact ⟨earlier, later ++ [.onTerminate], by simp, number, by simpa using noSignal⟩

theorem not_waiting_signal (n : ℕ) : ¬Waiting (events ++ [.signal raises]) n := by
  rintro ⟨earlier, later, same, -, noSignal⟩
  rcases List.eq_nil_or_concat later with rfl | ⟨others, last, rfl⟩
  · simp at same
  · have ends : .signal raises = last := by
      rw [List.concat_eq_append, ← List.cons_append, ← List.append_assoc] at same
      exact List.singleton_inj.mp (List.append_inj_right' same rfl)
    exact noSignal raises (by simp [ends])

structure Orderly (events : List Event) : Prop where
  ran : ran events ++ (run step start events).runOnTerm = List.range (registrations events)
  waiting : ∀ n ∈ (run step start events).runOnTerm, Waiting events n
  lowered : (∃ raises, .signal raises ∈ events) → (run step start events).alive = false

theorem Returning.of_prefix (h : Returning events) (le : before <+: events) : Returning before :=
  fun earlier raises inside => h earlier raises (inside.trans le)

theorem ran_append_singleton (events : List Event) (event : Event) :
    Terminated.ran (events ++ [event]) =
      Terminated.ran events ++ (step (run step start events) event).1 := by
  simp [Terminated.ran, outputs_append, outputs]

theorem orderly_of_returning (h : Returning events) : Orderly events := by
  induction events using List.reverseRecOn with
  | nil => exact ⟨rfl, nofun, by simp⟩
  | append_singleton events event ih =>
    have orderly := ih (h.of_prefix (List.prefix_append _ _))
    cases event with
    | onTerminate =>
      refine ⟨?_, ?_, ?_⟩
      · rw [ran_append_singleton, run_append, registrations_append]
        simp only [step, run_cons, run_nil, onTerminate, List.append_nil]
        rw [← List.append_assoc, orderly.ran, registered_run]
        simp [start, registrations, Event.isRegistration, List.range_succ]
      · rw [run_append]
        simp only [step, run_cons, run_nil, onTerminate, List.mem_append, List.mem_singleton]
        rintro n (mem | rfl)
        · exact (orderly.waiting n mem).onTerminate
        · exact ⟨events, [], rfl, by simp [registered_run, start], by simp⟩
      · rw [run_append]
        rintro ⟨raises, mem⟩
        exact orderly.lowered ⟨raises, by simpa using mem⟩
    | signal raises =>
      have returns : ∀ n ∈ (run step start events).runOnTerm, raises n = false :=
        fun n mem => h events raises List.prefix_rfl n (orderly.waiting n mem)
      have done : step (run step start events) (.signal raises) =
          ((run step start events).runOnTerm,
            { run step start events with runOnTerm := [], alive := false }) := by
        simp [step, terminate, runCallbacks_of_returning returns]
      refine ⟨?_, ?_, ?_⟩
      · rw [ran_append_singleton, run_append, run_cons, done, registrations_append]
        simpa [registrations, Event.isRegistration] using orderly.ran
      · rw [run_append, run_cons, done]
        exact nofun
      · rw [run_append, run_cons, done]
        exact fun _ => rfl

theorem promised_of_returning (h : Returning events) : Promised events where
  lowered before inside := (orderly_of_returning (h.of_prefix inside)).lowered
  complete before raises inside n registered := by
    have orderly := orderly_of_returning (h.of_prefix inside)
    have cleared : (run step start (before ++ [.signal raises])).runOnTerm = [] :=
      List.eq_nil_iff_forall_not_mem.mpr fun n mem =>
        not_waiting_signal n (orderly.waiting n mem)
    have all := orderly.ran
    rw [cleared, List.append_nil] at all
    rw [all, List.mem_range, registrations_append]
    exact Nat.lt_add_right _ registered
  once := by
    have all := (orderly_of_returning h).ran
    exact List.nodup_range.sublist (all ▸ List.sublist_append_left _ _)

/-! ## Runs with an exception -/

theorem first_mem_ran {func : ℕ} (first : [func] <+: s.runOnTerm)
    (signalled : ∃ raises, .signal raises ∈ events) : func ∈ (outputs step s events).flatten := by
  induction events generalizing s with
  | nil => simp at signalled
  | cons event events ih =>
    rw [outputs, List.flatten_cons, List.mem_append]
    cases event with
    | onTerminate =>
      refine .inr (ih (first.trans (List.prefix_append _ _)) ?_)
      obtain ⟨raises, mem⟩ := signalled
      exact ⟨raises, by simpa using mem⟩
    | signal raises =>
      obtain ⟨funcs, list⟩ := first
      obtain ⟨others, calls⟩ := runCallbacks_head raises func funcs
      refine .inl ?_
      simp only [step, terminate, ← list, List.singleton_append, calls]
      exact List.mem_cons_self

theorem not_once_of_raising {n : ℕ} {later : List Event} (waiting : Waiting before n)
    (raised : raises n = true) (signalled : ∃ raises, .signal raises ∈ later) :
    ¬(ran (before ++ .signal raises :: later)).Nodup := by
  have mem := waiting.mem_runOnTerm
  obtain ⟨func, funcs, list⟩ := List.exists_cons_of_ne_nil (List.ne_nil_of_mem mem)
  obtain ⟨others, calls⟩ := runCallbacks_head raises func funcs
  have failed := runCallbacks_of_raising mem raised
  have stays : step (run step start before) (.signal raises) =
      (func :: others, run step start before) := by
    rw [list] at failed
    simp only [step, terminate, list, failed, calls, if_true]
  have again : func ∈ (outputs step (run step start before) later).flatten :=
    first_mem_ran ⟨funcs, by rw [list, List.singleton_append]⟩ signalled
  rw [ran, outputs_append, outputs, stays, List.flatten_append, List.flatten_cons]
  intro nodup
  have twice := (List.nodup_append.mp nodup).2.1
  rw [List.nodup_append] at twice
  exact twice.2.2 func List.mem_cons_self func again rfl

/-- What is promised of a run, and of the run with anything behind it that raises nothing, holds
exactly if no callback raises at the signal it waits for. -/
theorem terminate_promised_iff (events : List Event) :
    (∀ later, Quiet later → Promised (events ++ later)) ↔ Returning events := by
  constructor
  · intro promised before raises inside n waiting
    by_contra raised
    rw [Bool.not_eq_false] at raised
    obtain ⟨later, rfl⟩ := inside
    have quiet : Quiet [.signal fun _ => false] := by
      rintro _ mem n
      cases List.mem_singleton.mp mem
      rfl
    have once := (promised _ quiet).once
    rw [List.append_assoc, List.append_assoc, List.singleton_append] at once
    exact not_once_of_raising waiting raised ⟨_, List.mem_append_right _ List.mem_cons_self⟩ once
  · intro returning later quiet
    refine promised_of_returning fun before raises inside n waiting => ?_
    rcases List.prefix_or_prefix_of_prefix inside (List.prefix_append events later) with
      within | ⟨between, same⟩
    · exact returning before raises within n waiting
    rcases List.eq_nil_or_concat between with rfl | ⟨others, last, rfl⟩
    · exact returning before raises ⟨[], by simpa using same.symm⟩ n waiting
    · rw [← same, List.prefix_append_right_inj, List.concat_eq_append] at inside
      rw [List.concat_eq_append, ← List.append_assoc] at same
      obtain rfl : last = .signal raises :=
        List.singleton_inj.mp (List.append_inj_right' same rfl)
      exact quiet raises (inside.subset (List.mem_append_right _ List.mem_cons_self)) n

/-- The only callback raises: the flag is up after the signal. -/
theorem terminate_not_promised : ¬ ∀ events, Promised events := by
  intro all
  have lowered := (all [.onTerminate, .signal fun _ => true]).lowered _ List.prefix_rfl
    ⟨fun _ => true, by simp⟩
  exact absurd lowered (by decide)

end Terminated

end KhCommon
