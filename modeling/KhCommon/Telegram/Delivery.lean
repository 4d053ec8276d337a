import KhCommon.Telegram.Shutdown

/-! The listener with the server: updates reach the server's log at any moment, `recv` asks
for them from `mostrecent`, and the workers take them off the queue. Seen from outside, the
queue and the workers together hold what `recv` alone has put, so the order of the log
carries over to what the workers take. -/

namespace KhCommon.Telegram.Delivery

open Machine OffsetLog

variable {n : ℕ} {B : Type*}

structure World (n : ℕ) (B : Type*) where
  log : List (Update B)
  threads : Threads n B

def start (log : List (Update B)) : World n B := ⟨log, .start⟩

inductive Happening (n : ℕ) (B : Type*)
  | arrive (updates : List (Update B))
  | next (event : Event n B)

def step (w : World n B) : Happening n B → List (Action n B) × World n B
  | .arrive updates => ([], { w with log := w.log ++ updates })
  | .next event => ((w.threads.step event).1, { w with threads := (w.threads.step event).2 })

/-- The server numbers what arrives, and answers with a prefix of what is pending. -/
def Serves (w : World n B) : Happening n B → List (Action n B) → Prop
  | .arrive updates, _ => Numbered (w.log ++ updates)
  | .next (.answer (.parsed updates)), _ => w.threads.recv = .requesting → updates.ok →
    updates.result <+: pending Update.updateId w.threads.mostrecent w.log
  | .next _, _ => True

def Happening.event : Happening n B → Option (Event n B)
  | .arrive _ => none
  | .next event => some event

def World.seen (actions : List (Action n B)) (w : World n B) : System B :=
  ⟨w.log, ⟨w.threads.mostrecent, actions.filterMap Action.putUpdate⟩⟩

structure Delivered (actions : List (Action n B)) (w : World n B) : Prop where
  accounted : w.threads.Accounted actions
  inOrder : InOrder (w.seen actions)

/-! ## One step -/

theorem seen_answer (actions : List (Action n B)) (log : List (Update B)) (s : Threads n B)
    (response : Response B) :
    World.seen (actions ++ (s.answer response).1) ⟨log, (s.answer response).2⟩ =
      ⟨log, (Recv.turn ⟨s.mostrecent, actions.filterMap Action.putUpdate⟩ response).2⟩ := by
  have puts : (s.answer response).1.filterMap Action.putUpdate = s.batch response := by
    rw [Threads.answer, List.filterMap_map]
    exact List.filterMap_some
  rw [World.seen, List.filterMap_append, puts, Threads.batch, Threads.answer]
  cases response with
  | failed | unparsed => simp [Recv.turn]
  | parsed updates =>
    cases hok : updates.ok with
    | false => simp [Recv.turn, hok]
    | true => cases hlast : updates.result.getLast? <;> simp [Recv.turn, hok, hlast]

theorem inOrder_turn {log : List (Update B)} {recv : Recv B} (h : InOrder ⟨log, recv⟩)
    (response : Response B)
    (answer : ∀ updates, response = .parsed updates → updates.ok →
      updates.result <+: pending Update.updateId recv.mostrecent log) :
    InOrder ⟨log, (recv.turn response).2⟩ := by
  rcases turn_cases recv response with same | ⟨updates, last, hresponse, ok, hlast, after⟩
  · rwa [same]
  · rw [after]
    exact h.batch hlast (answer updates hresponse ok)

theorem seen_moves {actions : List (Action n B)} {w : World n B} {event : Event n B}
    (h : InOrder (w.seen actions)) (serves : Serves w (.next event) (w.threads.step event).1) :
    InOrder (World.seen (actions ++ (w.threads.step event).1)
      ⟨w.log, (w.threads.step event).2⟩) := by
  have moves := Threads.step_moves w.threads event
  generalize w.threads.step event = next at moves serves
  cases moves with
  | share | leave | raise => simpa [World.seen, Threads.setWorker] using h
  | take | done =>
    simpa [World.seen, Threads.setWorker, List.filterMap_cons, Action.putUpdate] using h
  | put response requesting =>
    rw [seen_answer]
    refine inOrder_turn h response fun updates hresponse ok => ?_
    rw [hresponse] at serves
    exact serves requesting ok

theorem step_delivered {actions : List (Action n B)} {w : World n B} (h : Delivered actions w)
    {happening : Happening n B} (serves : Serves w happening (step w happening).1) :
    Delivered (actions ++ (step w happening).1) (step w happening).2 := by
  cases happening with
  | arrive updates =>
    rw [step, List.append_nil]
    exact ⟨h.accounted, h.inOrder.later serves⟩
  | next event => exact ⟨Threads.step_accounted h.accounted event, seen_moves h.inOrder serves⟩

/-! ## The whole run -/

theorem run_delivered {log : List (Update B)} (numbered : Numbered log)
    {happenings : List (Happening n B)} (serves : Always step Serves (start log) happenings) :
    Delivered (outputs step (start log) happenings).flatten
      (run step (start log) happenings) := by
  have first : Delivered ([] : List (List (Action n B))).flatten (start log) :=
    ⟨Threads.start_accounted, start_inOrder numbered⟩
  refine outputs_inv (I := fun os w => Delivered os.flatten w)
    (fun os w happening before serves => ?_) first serves
  rw [List.flatten_append, List.flatten_singleton]
  exact step_delivered before serves

theorem Delivered.order {actions : List (Action n B)} {w : World n B} (h : Delivered actions w) :
    (actions.filterMap Action.taken).map Prod.snd ++ w.threads.queue.items =
      w.log.filter fun u => u.updateId < w.threads.mostrecent :=
  h.accounted.order.trans h.inOrder.put

theorem run_threads (w : World n B) (happenings : List (Happening n B)) :
    (run step w happenings).threads =
        run Threads.step w.threads (happenings.filterMap Happening.event) ∧
      (outputs step w happenings).flatten =
        (outputs Threads.step w.threads (happenings.filterMap Happening.event)).flatten := by
  induction happenings generalizing w with
  | nil => exact ⟨rfl, rfl⟩
  | cons happening happenings ih =>
    obtain ⟨state, actions⟩ := ih (step w happening).2
    cases happening with
    | arrive updates => exact ⟨state, actions⟩
    | next event => exact ⟨state, congrArg ((w.threads.step event).1 ++ ·) actions⟩

/-- Whatever the order of things: what the workers took and then what waits on the queue is what
the server numbered below `mostrecent`, in the order of the log and each once, so that no two
workers take one update. When `run` returns, nothing below `mostrecent` was left out exactly if
every batch came while there still was a worker. -/
theorem listener_delivers {log : List (Update B)} (numbered : Numbered log)
    (happenings : List (Happening n B)) (serves : Always step Serves (start log) happenings) :
    let w := run step (start log) happenings
    let taken := (outputs step (start log) happenings).flatten.filterMap Action.taken
    taken.map Prod.snd ++ w.threads.queue.items =
        w.log.filter (fun u => u.updateId < w.threads.mostrecent) ∧
      taken.Pairwise (fun a b => a.2.updateId < b.2.updateId) ∧
      (w.threads.Ended →
        (taken.map Prod.snd = w.log.filter (fun u => u.updateId < w.threads.mostrecent) ↔
          Always Threads.step Attended (Threads.start : Threads n B)
            (happenings.filterMap Happening.event))) := by
  intro w taken
  have delivered : Delivered (outputs step (start log) happenings).flatten w :=
    run_delivered numbered serves
  have held : taken.map Prod.snd ++ w.threads.queue.items =
      w.log.filter fun u => u.updateId < w.threads.mostrecent := delivered.order
  refine ⟨held, ?_, fun ended => ?_⟩
  · have increasing : (taken.map Prod.snd ++ w.threads.queue.items).Pairwise
        fun a b => a.updateId < b.updateId := by
      rw [held]
      exact delivered.inOrder.numbered.increasing.sublist List.filter_sublist
    have front := (List.pairwise_append.mp increasing).1
    rwa [List.pairwise_map] at front
  · obtain ⟨state, -⟩ := run_threads (start log : World n B) happenings
    have emptied : taken.map Prod.snd = w.log.filter (fun u => u.updateId < w.threads.mostrecent) ↔
        w.threads.queue.items = [] := by
      rw [← held]
      exact List.self_eq_append_right
    rw [emptied]
    constructor
    · intro empty
      refine Threads.attended_of_empty ?_
      rw [state] at empty
      exact empty
    · intro attended
      obtain ⟨-, served⟩ := Threads.run_served attended
      have last : w.threads.Served := by
        rw [state]
        exact served
      exact last.resolve_right fun ⟨i, running⟩ => running (ended.1 i)

theorem listener_delivers_two :
    let happenings : List (Happening 2 String) :=
      [.next .request, .next (.answer (.parsed ⟨true, none, [⟨3, "/help"⟩]⟩)), .next (.look 1),
        .arrive [⟨5, "/start"⟩], .next .request,
        .next (.answer (.parsed ⟨true, none, [⟨5, "/start"⟩]⟩)), .next (.look 0)]
    let w := run step (start [⟨3, "/help"⟩]) happenings
    let taken := (outputs step (start [⟨3, "/help"⟩]) happenings).flatten.filterMap Action.taken
    taken.map Prod.snd ++ w.threads.queue.items =
      w.log.filter fun u => u.updateId < w.threads.mostrecent := by
  intro happenings
  refine (listener_delivers ⟨by simp [Increasing], by simp⟩ happenings ?_).1
  refine ⟨trivial, ?_, trivial, ?_, trivial, ?_, trivial, trivial⟩
  · rintro - -
    exact ⟨[], rfl⟩
  · exact ⟨by simp [Increasing, step, start], by simp [step, start]⟩
  · rintro - -
    exact ⟨[], rfl⟩

end KhCommon.Telegram.Delivery
