import KhCommon.Telegram.Listener
import Mathlib.Algebra.BigOperators.Fin

/-! `Listener.run`: any number of `processQueue` workers and one `recv`, interleaved at
their awaits, with `Terminated.alive` going down at any moment. A worker that sees it
down and the queue empty is gone, while `recv` may still be waiting for a batch. -/

namespace KhCommon.Telegram

open Machine

variable {n : ℕ} {B : Type*}

/-- asyncio's `Queue` without a bound, and its number of unfinished tasks. -/
structure Queue (B : Type*) where
  items : List (Update B)
  unfinished : ℕ

namespace Queue

def empty (self : Queue B) : Bool := self.items.isEmpty

def put (self : Queue B) (update : Update B) : Queue B :=
  ⟨self.items ++ [update], self.unfinished + 1⟩

/-- `none` is `QueueEmpty`. -/
def getNowait (self : Queue B) : Option (Update B × Queue B) :=
  match self.items with
  | [] => none
  | update :: items => some (update, ⟨items, self.unfinished⟩)

/-- `none` is the `ValueError` of a call too many. -/
def taskDone (self : Queue B) : Option (Queue B) :=
  match self.unfinished with
  | 0 => none
  | unfinished + 1 => some ⟨self.items, unfinished⟩

theorem foldl_put (self : Queue B) (batch : List (Update B)) :
    batch.foldl put self = ⟨self.items ++ batch, self.unfinished + batch.length⟩ := by
  induction batch generalizing self with
  | nil => simp
  | cons update batch ih =>
    rw [List.foldl_cons, ih, put, List.append_assoc, List.length_cons]
    simp [Nat.add_comm batch.length, Nat.add_assoc]

end Queue

/-- Where a `processQueue` is: at the head of its loop or asleep before it, in the handler of
an update, or over. -/
inductive Worker (B : Type*)
  | head
  | parsing (update : Update B)
  | finished
  | raised -- the `ValueError` of `task_done` is not caught

def Worker.Ended : Worker B → Prop
  | .finished | .raised => True
  | .head | .parsing _ => False

inductive Place
  | head
  | requesting
  | finished
  deriving DecidableEq

inductive Action (n : ℕ) (B : Type*)
  | put (update : Update B)
  | take (worker : Fin n) (update : Update B)
  | taskDone (worker : Fin n)

structure Threads (n : ℕ) (B : Type*) where
  alive : Bool
  queue : Queue B
  workers : Fin n → Worker B
  recv : Place
  mostrecent : ℤ

/-- What happens next. A coroutine that is elsewhere does not take part. -/
inductive Event (n : ℕ) (B : Type*)
  | terminate -- `Terminated.alive = False`
  | look (worker : Fin n) -- a worker goes on from the head of its loop
  | parsed (worker : Fin n) -- the handler of its update ends, by an exception or not
  | request -- `recv` goes on from the head of its loop
  | answer (response : Response B) -- its request comes to an end

namespace Threads

def start : Threads n B := ⟨true, ⟨[], 0⟩, fun _ => .head, .head, 0⟩

variable (s : Threads n B)

def setWorker (i : Fin n) (worker : Worker B) : Threads n B :=
  { s with workers := Function.update s.workers i worker }

@[simp] theorem setWorker_queue (i : Fin n) (worker : Worker B) :
    (s.setWorker i worker).queue = s.queue := rfl

@[simp] theorem setWorker_self (i : Fin n) (worker : Worker B) :
    (s.setWorker i worker).workers i = worker := Function.update_self ..

theorem setWorker_of_ne {i j : Fin n} (other : j ≠ i) (worker : Worker B) :
    (s.setWorker i worker).workers j = s.workers j := Function.update_of_ne other ..

/-- `processQueue` from the head of its loop to its next await. -/
def look (i : Fin n) : List (Action n B) × Threads n B :=
  if s.alive || !s.queue.empty then
    match s.queue.getNowait with
    | some (update, queue) =>
      ([.take i update], { s with queue := queue }.setWorker i (.parsing update))
    | none => ([], s) -- `sleep(self.queue_empty_wait)`, then the head again
  else ([], s.setWorker i .finished)

/-- Whatever the handler raised is caught, and `task_done` called. -/
def parsed (i : Fin n) : List (Action n B) × Threads n B :=
  match s.queue.taskDone with
  | some queue => ([.taskDone i], { s with queue := queue }.setWorker i .head)
  | none => ([], s.setWorker i .raised)

def batch (response : Response B) : List (Update B) :=
  (Recv.turn ⟨s.mostrecent, []⟩ response).2.put

def answer (response : Response B) : List (Action n B) × Threads n B :=
  ((s.batch response).map .put,
    { s with
      mostrecent := (Recv.turn ⟨s.mostrecent, []⟩ response).2.mostrecent
      queue := (s.batch response).foldl Queue.put s.queue
      recv := .head })

def step : Event n B → List (Action n B) × Threads n B
  | .terminate => ([], { s with alive := false })
  | .look i =>
    match s.workers i with
    | .head => s.look i
    | _ => ([], s)
  | .parsed i =>
    match s.workers i with
    | .parsing _ => s.parsed i
    | _ => ([], s)
  | .request =>
    match s.recv with
    | .head => ([], { s with recv := if s.alive then .requesting else .finished })
    | _ => ([], s)
  | .answer response =>
    match s.recv with
    | .requesting => s.answer response
    | _ => ([], s)

/-- `WaitAll` returns. -/
def Ended : Prop := (∀ i, (s.workers i).Ended) ∧ s.recv = .finished

end Threads

def Action.putUpdate : Action n B → Option (Update B)
  | .put update => some update
  | .take _ _ | .taskDone _ => none

def Action.taken : Action n B → Option (Fin n × Update B)
  | .take i update => some (i, update)
  | .put _ | .taskDone _ => none

def Action.takenBy (i : Fin n) : Action n B → Option (Update B)
  | .take j update => if j = i then some update else none
  | .put _ | .taskDone _ => none

def Action.isBy (i : Fin n) : Action n B → Bool
  | .put _ => false
  | .take j _ => j = i
  | .taskDone j => j = i

/-- Nothing is left on the queue. What was put on it was taken, the first first and each update
by the one worker named, and each worker called `task_done` once after each update it took. -/
structure Drained (actions : List (Action n B)) (s : Threads n B) : Prop where
  empty : s.queue.items = []
  taken : (actions.filterMap Action.taken).map Prod.snd = actions.filterMap Action.putUpdate
  matched : ∀ i, actions.filter (Action.isBy i) =
    (actions.filterMap (Action.takenBy i)).flatMap fun u => [.take i u, .taskDone i]

def Attended (s : Threads n B) : Event n B → List (Action n B) → Prop
  | .answer response, _ => s.recv = .requesting → s.batch response ≠ [] →
    ∃ i, ¬(s.workers i).Ended
  | _, _ => True

/-! ## One step -/

namespace Threads

inductive Moves (s : Threads n B) : Event n B → List (Action n B) × Threads n B → Prop
  | share (event : Event n B) (alive : Bool) (recv : Place) :
    Moves s event ([], { s with alive := alive, recv := recv })
  | leave {i : Fin n} (head : s.workers i = .head) (terminated : s.alive = false)
    (empty : s.queue.items = []) :
    Moves s (.look i) ([], s.setWorker i .finished)
  | take {i : Fin n} {update : Update B} {items : List (Update B)} (head : s.workers i = .head)
    (items_eq : s.queue.items = update :: items) :
    Moves s (.look i) ([.take i update],
      { s with queue := ⟨items, s.queue.unfinished⟩ }.setWorker i (.parsing update))
  | done {i : Fin n} {update : Update B} {unfinished : ℕ} (parsing : s.workers i = .parsing update)
    (counted : s.queue.unfinished = unfinished + 1) :
    Moves s (.parsed i) ([.taskDone i],
      { s with queue := ⟨s.queue.items, unfinished⟩ }.setWorker i .head)
  | raise {i : Fin n} {update : Update B} (parsing : s.workers i = .parsing update)
    (counted : s.queue.unfinished = 0) : Moves s (.parsed i) ([], s.setWorker i .raised)
  | put (response : Response B) (requesting : s.recv = .requesting) :
    Moves s (.answer response) (s.answer response)

variable {s : Threads n B}

theorem look_moves {i : Fin n} (head : s.workers i = .head) : Moves s (.look i) (s.look i) := by
  rw [look]
  split
  · cases items : s.queue.items with
    | nil => simpa [Queue.getNowait, items] using Moves.share (.look i) s.alive s.recv
    | cons update rest => simpa [Queue.getNowait, items] using Moves.take head items
  case isFalse stopped =>
    obtain ⟨terminated, empty⟩ : s.alive = false ∧ s.queue.items = [] := by
      simpa [Queue.empty] using stopped
    exact .leave head terminated empty

theorem parsed_moves {i : Fin n} {update : Update B} (parsing : s.workers i = .parsing update) :
    Moves s (.parsed i) (s.parsed i) := by
  rw [parsed, Queue.taskDone]
  cases counted : s.queue.unfinished with
  | zero => exact .raise parsing counted
  | succ unfinished => exact .done parsing counted

theorem step_moves (s : Threads n B) (event : Event n B) : Moves s event (s.step event) := by
  have idle : Moves s event ([], s) := .share event s.alive s.recv
  cases event with
  | terminate => exact .share _ false s.recv
  | look i =>
    cases worker : s.workers i with
    | head => simpa [step, worker] using look_moves worker
    | _ => simpa [step, worker] using idle
  | parsed i =>
    cases worker : s.workers i with
    | parsing update => simpa [step, worker] using parsed_moves worker
    | _ => simpa [step, worker] using idle
  | request =>
    cases place : s.recv with
    | head => simpa [step, place] using Moves.share .request s.alive _
    | _ => simpa [step, place] using idle
  | answer response =>
    cases place : s.recv with
    | requesting => simpa [step, place] using Moves.put response place
    | _ => simpa [step, place] using idle

/-! ## What is on the queue -/

def due (i : Fin n) : Worker B → List (Action n B)
  | .parsing _ => [.taskDone i]
  | .head | .finished | .raised => []

def owed (s : Threads n B) : ℕ := ∑ i, (due i (s.workers i)).length

theorem owed_setWorker (s : Threads n B) (i : Fin n) (worker : Worker B) :
    (s.setWorker i worker).owed + (due i (s.workers i)).length =
      s.owed + (due i worker).length := by
  have others : ∀ j ∈ Finset.univ.erase i,
      (due j ((s.setWorker i worker).workers j)).length = (due j (s.workers j)).length := by
    intro j hj
    rw [setWorker_of_ne s (Finset.ne_of_mem_erase hj)]
  rw [owed, owed, ← Finset.add_sum_erase _ _ (Finset.mem_univ i),
    ← Finset.add_sum_erase Finset.univ (fun j => (due j (s.workers j)).length) (Finset.mem_univ i),
    Finset.sum_congr rfl others, setWorker_self]
  omega

theorem due_le_owed (s : Threads n B) (i : Fin n) : (due i (s.workers i)).length ≤ s.owed := by
  rw [owed, ← Finset.add_sum_erase _ _ (Finset.mem_univ i)]
  exact Nat.le_add_right _ _

structure Accounted (actions : List (Action n B)) (s : Threads n B) : Prop where
  order : (actions.filterMap Action.taken).map Prod.snd ++ s.queue.items =
    actions.filterMap Action.putUpdate
  matched : ∀ i, actions.filter (Action.isBy i) ++ due i (s.workers i) =
    (actions.filterMap (Action.takenBy i)).flatMap fun u => [.take i u, .taskDone i]
  counted : s.queue.unfinished = s.queue.items.length + s.owed
  caught : ∀ i, s.workers i ≠ .raised

theorem start_accounted : Accounted [] (start : Threads n B) where
  order := rfl
  matched _ := rfl
  counted := by simp [start, owed, due]
  caught := by simp [start]

theorem setWorker_caught {i : Fin n} {worker : Worker B} (caught : ∀ j, s.workers j ≠ .raised)
    (new : worker ≠ .raised) (j : Fin n) : (s.setWorker i worker).workers j ≠ .raised := by
  by_cases same : j = i
  · rwa [same, setWorker_self]
  · rw [setWorker_of_ne s same]
    exact caught j

variable {actions : List (Action n B)}

theorem Accounted.leave {i : Fin n} (h : Accounted actions s) (head : s.workers i = .head) :
    Accounted actions (s.setWorker i .finished) where
  order := h.order
  matched j := by
    rw [← h.matched j]
    by_cases same : j = i
    · rw [same, setWorker_self, head]
      rfl
    · rw [setWorker_of_ne s same]
  counted := by
    have owes := owed_setWorker s i .finished
    rw [head] at owes
    exact h.counted.trans (congrArg (s.queue.items.length + ·) owes.symm)
  caught := setWorker_caught h.caught (by simp)

theorem Accounted.take {i : Fin n} {update : Update B} {items : List (Update B)}
    (h : Accounted actions s) (head : s.workers i = .head)
    (items_eq : s.queue.items = update :: items) :
    Accounted (actions ++ [.take i update])
      ({ s with queue := ⟨items, s.queue.unfinished⟩ }.setWorker i (.parsing update)) where
  order := by
    have order := h.order
    rw [items_eq] at order
    simpa [List.filterMap_cons, Action.taken, Action.putUpdate] using order
  matched j := by
    have matched := h.matched j
    by_cases same : j = i
    · rw [same, head] at matched
      simp only [due, List.append_nil] at matched
      simp [same, Action.isBy, Action.takenBy, due, matched]
    · rw [setWorker_of_ne _ same]
      simpa [List.filterMap_cons, Action.isBy, Action.takenBy, Ne.symm same] using matched
  counted := by
    have owes : _ + (due i (s.workers i)).length = s.owed + 1 :=
      owed_setWorker { s with queue := ⟨items, s.queue.unfinished⟩ } i (.parsing update)
    have counted := h.counted
    rw [items_eq, List.length_cons] at counted
    rw [head, due, List.length_nil, Nat.add_zero] at owes
    rw [setWorker_queue, owes]
    show s.queue.unfinished = items.length + (s.owed + 1)
    omega
  caught := setWorker_caught h.caught (by simp)

theorem Accounted.done {i : Fin n} {update : Update B} {unfinished : ℕ} (h : Accounted actions s)
    (parsing : s.workers i = .parsing update) (counted : s.queue.unfinished = unfinished + 1) :
    Accounted (actions ++ [.taskDone i])
      ({ s with queue := ⟨s.queue.items, unfinished⟩ }.setWorker i .head) where
  order := by simpa [List.filterMap_cons, Action.taken, Action.putUpdate] using h.order
  matched j := by
    have matched := h.matched j
    by_cases same : j = i
    · rw [same, parsing] at matched
      simpa [List.filterMap_cons, same, Action.isBy, Action.takenBy, due] using matched
    · rw [setWorker_of_ne _ same]
      simpa [List.filterMap_cons, Action.isBy, Action.takenBy, Ne.symm same] using matched
  counted := by
    have owes : _ + (due i (s.workers i)).length = s.owed + 0 :=
      owed_setWorker { s with queue := ⟨s.queue.items, unfinished⟩ } i .head
    have before := h.counted
    rw [parsing, due, List.length_singleton] at owes
    show unfinished = s.queue.items.length + _
    omega
  caught := setWorker_caught h.caught (by simp)

theorem Accounted.pos {i : Fin n} {update : Update B} (h : Accounted actions s)
    (parsing : s.workers i = .parsing update) : s.queue.unfinished ≠ 0 := by
  have one := due_le_owed s i
  have counted := h.counted
  rw [parsing, due, List.length_singleton] at one
  omega

theorem Accounted.put (h : Accounted actions s) (response : Response B) :
    Accounted (actions ++ (s.answer response).1) (s.answer response).2 where
  order := by
    have puts : (s.answer response).1.filterMap Action.putUpdate = s.batch response := by
      rw [answer, List.filterMap_map]
      exact List.filterMap_some
    have takes : (s.answer response).1.filterMap Action.taken = [] := by simp [answer, Action.taken]
    rw [List.filterMap_append, List.filterMap_append, puts, takes, ← h.order]
    simp [answer, Queue.foldl_put]
  matched i := by
    have own : (s.answer response).1.filter (Action.isBy i) = [] := by simp [answer, Action.isBy]
    have takes : (s.answer response).1.filterMap (Action.takenBy i) = [] := by
      simp [answer, Action.takenBy]
    rw [List.filter_append, List.filterMap_append, own, takes, List.append_nil, List.append_nil]
    exact h.matched i
  counted := by
    have counted := h.counted
    rw [answer, Queue.foldl_put, List.length_append]
    show s.queue.unfinished + _ = _ + _ + s.owed
    omega
  caught := h.caught

theorem step_accounted (h : Accounted actions s) (event : Event n B) :
    Accounted (actions ++ (s.step event).1) (s.step event).2 := by
  have moves := step_moves s event
  generalize s.step event = next at moves
  cases moves with
  | share _ alive recv =>
    rw [List.append_nil]
    exact ⟨h.order, h.matched, h.counted, h.caught⟩
  | leave head =>
    rw [List.append_nil]
    exact h.leave head
  | take head items_eq => exact h.take head items_eq
  | done parsing counted => exact h.done parsing counted
  | raise parsing counted => exact absurd counted (h.pos parsing)
  | put response => exact h.put response

/-! ## Who takes it -/

def Served (s : Threads n B) : Prop := s.queue.items = [] ∨ ∃ i, ¬(s.workers i).Ended

theorem Served.setWorker {i : Fin n} {worker : Worker B} (running : ¬worker.Ended) :
    Served (s.setWorker i worker) := .inr ⟨i, by rwa [setWorker_self]⟩

theorem step_served (accounted : Accounted actions s) (h : Served s) {event : Event n B}
    (attended : Attended s event (s.step event).1) : Served (s.step event).2 := by
  have moves := step_moves s event
  generalize s.step event = next at moves
  cases moves with
  | share => exact h
  | leave _ _ empty => exact .inl empty
  | take | done => exact .setWorker (by simp [Worker.Ended])
  | raise parsing counted => exact absurd counted (accounted.pos parsing)
  | put response requesting =>
    by_cases none : s.batch response = []
    · simpa [Served, answer, none] using h
    · exact .inr (attended requesting none)

structure Abandoned (s : Threads n B) : Prop where
  waiting : s.queue.items ≠ []
  ended : ∀ i, (s.workers i).Ended

theorem step_abandoned (h : Abandoned s) (event : Event n B) : Abandoned (s.step event).2 := by
  have moves := step_moves s event
  generalize s.step event = next at moves
  cases moves with
  | share => exact ⟨h.waiting, h.ended⟩
  | @leave i head | @take i _ _ head =>
    have ended := h.ended i
    rw [head] at ended
    exact ended.elim
  | @done i _ _ parsing | @raise i _ parsing =>
    have ended := h.ended i
    rw [parsing] at ended
    exact ended.elim
  | put response =>
    refine ⟨?_, h.ended⟩
    rw [answer, Queue.foldl_put]
    exact List.append_ne_nil_of_left_ne_nil h.waiting _

/-! ## The whole run -/

theorem run_served {events : List (Event n B)} (attended : Always step Attended start events) :
    Accounted (outputs step start events).flatten (run step start events) ∧
      Served (run step start events) := by
  have first : Accounted ([] : List (List (Action n B))).flatten start ∧
      Served (start : Threads n B) := ⟨start_accounted, .inl rfl⟩
  refine outputs_inv (I := fun os s => Accounted os.flatten s ∧ Served s)
    (fun os s event before attended => ?_) first attended
  rw [List.flatten_append, List.flatten_singleton]
  exact ⟨step_accounted before.1 event, step_served before.1 before.2 attended⟩

theorem attended_of_empty {events : List (Event n B)}
    (empty : (run step s events).queue.items = []) : Always step Attended s events := by
  induction events generalizing s with
  | nil => trivial
  | cons event events ih =>
    refine ⟨?_, ih empty⟩
    by_contra unattended
    have left : Abandoned (s.step event).2 := by
      cases event with
      | answer response =>
        simp only [Attended, not_forall, not_exists, not_not] at unattended
        obtain ⟨requesting, batch, ended⟩ := unattended
        have answered : s.step (.answer response) = s.answer response := by
          rw [step, requesting]
        rw [answered, answer, Queue.foldl_put]
        exact ⟨List.append_ne_nil_of_right_ne_nil _ batch, ended⟩
      | _ => exact (unattended trivial).elim
    have all : Abandoned (run step (s.step event).2 events) :=
      run_inv (I := Abandoned) (C := fun _ _ _ => True)
        (fun s event h _ => step_abandoned h event) left
        (always_of_forall_mem (fun _ _ _ => trivial) _)
    exact all.waiting empty

end Threads

/-- When all coroutines are over, the queue is empty and each update was taken once and done
once, exactly if every batch came while there still was a worker. -/
theorem run_drained_iff (events : List (Event n B))
    (ended : (run Threads.step Threads.start events).Ended) :
    Drained (outputs Threads.step Threads.start events).flatten
        (run Threads.step Threads.start events) ↔
      Always Threads.step Attended Threads.start events := by
  refine ⟨fun drained => Threads.attended_of_empty drained.empty, fun attended => ?_⟩
  obtain ⟨accounted, served⟩ := Threads.run_served attended
  have empty : (run Threads.step Threads.start events).queue.items = [] :=
    served.resolve_right fun ⟨i, running⟩ => running (ended.1 i)
  refine ⟨empty, ?_, fun i => ?_⟩
  · rw [← accounted.order, empty, List.append_nil]
  · have settled : Threads.due i ((run Threads.step Threads.start events).workers i) = [] := by
      have last := ended.1 i
      revert last
      cases (run Threads.step Threads.start events).workers i <;> simp [Worker.Ended, Threads.due]
    rw [← accounted.matched i, settled, List.append_nil]

theorem run_drained_iff_handling :
    let events : List (Event 1 String) := [.request, .answer (.parsed ⟨true, none, [⟨3, "/help"⟩]⟩),
      .look 0, .terminate, .parsed 0, .look 0, .request]
    Drained (outputs Threads.step Threads.start events).flatten
      (run Threads.step Threads.start events) := by
  intro events
  refine (run_drained_iff events ⟨fun i => ?_, rfl⟩).mpr ?_
  · rw [Fin.fin_one_eq_zero i]
    trivial
  · exact ⟨trivial, fun _ _ => ⟨0, id⟩, trivial, trivial, trivial, trivial, trivial, trivial⟩

/-- The signal comes while `recv` waits and the worker sleeps, the worker wakes up first, and
then the response arrives. -/
theorem run_not_drained :
    let events : List (Event 1 String) := [.look 0, .request, .terminate, .look 0,
      .answer (.parsed ⟨true, none, [⟨3, "/help"⟩]⟩), .request]
    (run Threads.step Threads.start events).Ended ∧
      (run Threads.step Threads.start events).queue.items = [⟨3, "/help"⟩] ∧
      ¬Drained (outputs Threads.step Threads.start events).flatten
        (run Threads.step Threads.start events) := by
  intro events
  refine ⟨⟨fun i => ?_, rfl⟩, rfl, fun drained => ?_⟩
  · rw [Fin.fin_one_eq_zero i]
    trivial
  · exact List.cons_ne_nil _ _ drained.empty

end KhCommon.Telegram
