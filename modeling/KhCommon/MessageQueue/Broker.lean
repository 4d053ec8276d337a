import KhCommon.Lib.CommitQueue
import KhCommon.MessageQueue

/-! `Receiver._recv` and the broker, one session after another. A session is one run of
the generator on a connection of its own: deliveries are numbered from 1, and what
has not been acknowledged when the connection is gone goes back to its place in
the queue. Of an acknowledgement it is only known that the broker has it when
`cancel`, which follows it on the channel, has been answered. -/

namespace KhCommon.MessageQueue

open Machine CommitQueue

variable {B : Type*}

abbrev Body (B : Type*) := Option (List B)

structure Session (B : Type*) where
  published : List (Body B)
  events : List Event
  reaches : Bool -- whether an acknowledgement arrives that is not known to

/-- What the session yields, which `receiveAll` returns, and how it ends. -/
structure Report (B : Type*) where
  returned : List (Body B)
  acknowledged : Bool
  ended : Bool

def deliver (queue : List (Body B)) : List (Delivery B) :=
  queue.zipIdx.map fun (body, i) => ⟨i + 1, body⟩

def Turn.yielded? (turn : Turn B) : Option (Delivery B) :=
  match turn.result with
  | .yields delivery => some delivery
  | _ => none

def yielded (turns : List (Turn B)) : List (Delivery B) := turns.filterMap Turn.yielded?

def Turn.isEnd (turn : Turn B) : Bool :=
  match turn.result with
  | .ends => true
  | _ => false

def Action.tag? : Action → Option ℤ
  | .basicAck tag => some tag
  | _ => none

def tags (turns : List (Turn B)) : List ℤ := (turns.flatMap Turn.actions).filterMap Action.tag?

def covered (tags : List ℤ) (delivery : Delivery B) : Bool :=
  tags.any fun tag => delivery.deliveryTag ≤ tag ∨ tag = 0

/-- A session: the queue the broker is left with, and what the consumer was given. -/
def serve (queue : List (Body B)) (session : Session B) : Report B × List (Body B) :=
  let deliveries := deliver (queue ++ session.published)
  let all := turns deliveries session.events
  let ended := all.any Turn.isEnd
  let sent := if ended ∨ session.reaches then tags all else []
  (⟨(yielded all).map Delivery.body, !sent.isEmpty, ended⟩,
    (deliveries.filter fun delivery => !covered sent delivery).map Delivery.body)

/-! ## One run of the generator -/

def ackAfter (n : ℕ) : ℤ := if n = 0 then -1 else n

structure Going (deliveries : List (Delivery B)) (turns : List (Turn B))
    (queue : List (Delivery B)) : Prop where
  split : deliveries = yielded turns ++ queue
  truthy : ∀ delivery ∈ yielded turns, delivery.isTruthy
  tags : tags turns = []
  ended : ¬turns.any Turn.isEnd

/-- What has been yielded comes first and is not empty; one tag may have been acknowledged, that of
the last, and at the end it has been. -/
structure Settled (deliveries : List (Delivery B)) (turns : List (Turn B)) : Prop where
  first : yielded turns <+: deliveries
  truthy : ∀ delivery ∈ yielded turns, delivery.isTruthy
  tags : tags turns = [] ∨ yielded turns ≠ [] ∧ tags turns = [((yielded turns).length : ℤ)]
  ended : turns.any Turn.isEnd → yielded turns = [] ∨ MessageQueue.tags turns ≠ []

def Coherent (deliveries : List (Delivery B)) (turns : List (Turn B)) (s : State B) : Prop :=
  match s.place with
  | .created => turns = [] ∧ s.queue = deliveries
  | .suspended ack delivery => Going deliveries turns s.queue ∧
    ∃ n, (yielded turns).length = n + 1 ∧ ack = ackAfter n ∧ delivery.deliveryTag = n + 1
  | .stopped => Settled deliveries turns

variable {deliveries queue : List (Delivery B)} {turns : List (Turn B)} {turn : Turn B}

@[simp] theorem yielded_concat :
    yielded (turns ++ [turn]) = yielded turns ++ turn.yielded?.toList := by
  cases h : turn.yielded? <;> simp [yielded, h]

@[simp] theorem tags_concat :
    tags (turns ++ [turn]) = tags turns ++ turn.actions.filterMap Action.tag? := by
  simp [tags]

theorem Going.settled (h : Going deliveries turns queue) : Settled deliveries turns where
  first := ⟨queue, h.split.symm⟩
  truthy := h.truthy
  tags := .inl h.tags
  ended ends := absurd ends h.ended

theorem Settled.concat (h : Settled deliveries turns) (silent : turn.yielded? = none)
    (quiet : turn.actions.filterMap Action.tag? = []) (goes_on : ¬turn.isEnd) :
    Settled deliveries (turns ++ [turn]) where
  first := by simpa [silent] using h.first
  truthy := by simpa [silent] using h.truthy
  tags := by simpa [silent, quiet] using h.tags
  ended := by simpa [silent, quiet, goes_on] using h.ended

@[simp] theorem map_body_deliver (queue : List (Body B)) :
    (deliver queue).map Delivery.body = queue := by
  simp [deliver, Function.comp_def]

theorem deliver_getElem? (queue : List (Body B)) (i : ℕ) :
    (deliver queue)[i]? = queue[i]?.map fun body => ⟨i + 1, body⟩ := by
  simp [deliver, Function.comp_def]

theorem deliveryTag_of_deliver {bodies : List (Body B)} {before after : List (Delivery B)}
    {delivery : Delivery B} (split : deliver bodies = before ++ delivery :: after) :
    delivery.deliveryTag = before.length + 1 := by
  have here : (deliver bodies)[before.length]? = some delivery := by simp [split]
  rw [deliver_getElem?, Option.map_eq_some_iff] at here
  obtain ⟨body, -, rfl⟩ := here
  rfl

theorem isTruthy_of_loop {driver : Driver} {ack : ℤ} {delivery : Delivery B}
    (yields : (loop driver ack queue).1.result = .yields delivery) : delivery.isTruthy := by
  unfold loop at yields
  split at yields
  · simp at yields
  · split at yields
    · simp_all
    · exact absurd yields finish_not_yields
  · exact absurd yields finish_not_yields

@[simp] theorem yielded?_finish (driver : Driver) (ack : ℤ) :
    (finish driver ack : Turn B).yielded? = none := by
  unfold Turn.yielded?
  split
  · case h_1 yields => exact absurd yields finish_not_yields
  · rfl

theorem tags_finish (driver : Driver) (n : ℕ) :
    (finish driver (ackAfter n) : Turn B).actions.filterMap Action.tag? =
      if n = 0 then [] else [(n : ℤ)] := by
  unfold finish ackAfter
  by_cases none : n = 0
  · simp [none, Action.tag?]
  · cases driver.basicAck <;> simp [none, Action.tag?]

theorem finish_settled (h : Going deliveries turns queue) (driver : Driver) :
    Settled deliveries (turns ++ [finish driver (ackAfter (yielded turns).length)]) where
  first := by simpa using h.settled.first
  truthy := by simpa using h.truthy
  tags := by
    rw [tags_concat, tags_finish, h.tags]
    by_cases none : yielded turns = [] <;> simp [none]
  ended _ := by
    rw [tags_concat, tags_finish, h.tags]
    by_cases none : yielded turns = [] <;> simp [none]

theorem loop_coherent {bodies : List (Body B)} (h : Going (deliver bodies) turns queue)
    (driver : Driver) : Coherent (deliver bodies)
      (turns ++ [(loop driver (ackAfter (yielded turns).length) queue).1])
      (loop driver (ackAfter (yielded turns).length) queue).2 := by
  rcases loop_cases driver (ackAfter (yielded turns).length) queue with
    same | ⟨delivery, rest, rfl, same⟩ | ⟨rest, same⟩
  · rw [same]
    exact h.settled.concat rfl rfl (by simp [Turn.isEnd])
  · have truthy : delivery.isTruthy := isTruthy_of_loop (by rw [same])
    have more : Turn.yielded? (⟨[], .yields delivery⟩ : Turn B) = some delivery := rfl
    rw [same]
    refine ⟨⟨by simpa [more] using h.split, ?_, by simp [h.tags], ?_⟩, (yielded turns).length, ?_⟩
    · simpa [more, or_imp, forall_and] using ⟨h.truthy, truthy⟩
    · simpa [Turn.isEnd] using h.ended
    · simpa [more] using deliveryTag_of_deliver h.split
  · rw [same]
    exact finish_settled h driver

theorem Going.caught (h : Going deliveries turns queue) {actions : List Action}
    (quiet : actions.filterMap Action.tag? = []) :
    Coherent deliveries (turns ++ [⟨actions, .caught⟩]) ⟨.stopped, queue⟩ :=
  h.settled.concat rfl quiet nofun

theorem step_coherent {bodies : List (Body B)} {s : State B} (event : Event)
    (h : Coherent (deliver bodies) turns s) :
    Coherent (deliver bodies) (turns ++ [(step s event).1]) (step s event).2 := by
  rcases s with ⟨place, queue⟩
  cases place with
  | created =>
    obtain ⟨rfl, rfl⟩ : turns = [] ∧ queue = deliver bodies := h
    have going : Going (deliver bodies) [] (deliver bodies) :=
      ⟨rfl, List.forall_mem_nil _, rfl, by simp⟩
    cases event with
    | close => exact going.settled.concat rfl rfl fun goes => by cases goes
    | next driver =>
      simp only [step]
      split_ifs
      · exact going.caught rfl
      · exact going.caught rfl
      · exact loop_coherent going driver
  | suspended ack delivery =>
    obtain ⟨going, n, length, rfl, tag⟩ := h
    cases event with
    | close => exact going.caught rfl
    | next driver =>
      have ack : max (ackAfter n) (delivery.deliveryTag : ℤ) = ackAfter (yielded turns).length := by
        have below : ackAfter n ≤ ((n + 1 : ℕ) : ℤ) := by
          unfold ackAfter
          split <;> omega
        rw [tag, length, max_eq_right below]
        exact (if_neg n.succ_ne_zero).symm
      simpa only [step, ack] using loop_coherent going driver
  | stopped =>
    have nothing : step ⟨.stopped, queue⟩ event = (⟨[], .nothing⟩, ⟨.stopped, queue⟩) := by
      cases event <;> rfl
    rw [nothing]
    exact Settled.concat h rfl rfl fun goes => by cases goes

theorem turns_settled (bodies : List (Body B)) (events : List Event) :
    Settled (deliver bodies) (MessageQueue.turns (deliver bodies) events) := by
  have coherent : Coherent (deliver bodies) (MessageQueue.turns (deliver bodies) events)
      (run step (start (deliver bodies)) events) := by
    have begins : Coherent (deliver bodies) [] (start (deliver bodies)) := ⟨rfl, rfl⟩
    have always : Always step (fun _ _ _ => True) (start (deliver bodies)) events :=
      always_of_forall_mem (fun _ _ _ => trivial) _
    exact outputs_inv (fun _ _ event h _ => step_coherent event h) begins always
  generalize run step (start (deliver bodies)) events = s at coherent
  rcases s with ⟨place, queue⟩
  cases place with
  | created =>
    obtain ⟨none, -⟩ := coherent
    rw [none]
    exact ⟨List.nil_prefix, nofun, .inl rfl, by simp⟩
  | suspended ack delivery => exact coherent.1.settled
  | stopped => exact coherent

/-! ## Many sessions -/

theorem filter_zipIdx (bodies : List (Body B)) (n i : ℕ) :
    ((bodies.zipIdx i).filter fun p => !decide (p.2 < i + n)).map Prod.fst = bodies.drop n := by
  induction bodies generalizing n i with
  | nil => simp
  | cons body bodies ih =>
    cases n with
    | zero =>
      have later : ∀ p ∈ (body :: bodies).zipIdx i, (!decide (p.2 < i + 0)) = true := by
        intro p mem
        simpa using List.le_snd_of_mem_zipIdx mem
      rw [List.filter_eq_self.mpr later, List.zipIdx_map_fst, List.drop_zero]
    | succ n =>
      have next := ih n (i + 1)
      rw [Nat.add_right_comm, Nat.add_assoc i] at next
      simpa [List.zipIdx_cons] using next

theorem filter_covered (bodies : List (Body B)) {n : ℕ} (some : n ≠ 0) :
    ((deliver bodies).filter fun delivery => !covered [(n : ℤ)] delivery).map Delivery.body =
      bodies.drop n := by
  have covers (p : Body B × ℕ) : covered [(n : ℤ)] ⟨p.2 + 1, p.1⟩ = decide (p.2 < 0 + n) := by
    rw [covered, List.any_cons, List.any_nil, Bool.or_false, decide_eq_decide]
    dsimp only
    omega
  rw [← filter_zipIdx bodies n 0, deliver, List.filter_map, List.map_map]
  simp [Function.comp_def, covers]

theorem serve_serves (queue : List (Body B)) (session : Session B) :
    Serves (queue ++ session.published)
      ⟨(serve queue session).1.returned, (serve queue session).1.acknowledged⟩
      (serve queue session).2 := by
  have settled := turns_settled (queue ++ session.published) session.events
  obtain ⟨rest, split⟩ := settled.first
  unfold serve
  extract_lets deliveries all ended sent
  have first : queue ++ session.published =
      (yielded all).map Delivery.body ++ rest.map Delivery.body := by
    rw [← List.map_append, split, map_body_deliver]
  refine ⟨rest.map Delivery.body, first, ?_⟩
  have kept : sent = [] ∨ yielded all ≠ [] ∧ sent = [((yielded all).length : ℤ)] := by
    unfold sent
    split
    · exact settled.tags
    · exact .inl rfl
  rcases kept with none | ⟨some, one⟩
  · have nothing : (fun delivery : Delivery B => !covered [] delivery) = fun _ => true := by
      simp [covered]
    rw [none, nothing, List.filter_true, map_body_deliver]
    rfl
  · rw [one, filter_covered _ (by simpa using some), first]
    simp

theorem serve_ended (queue : List (Body B)) (session : Session B) :
    (serve queue session).1.ended → (serve queue session).1.returned ≠ [] →
      (serve queue session).1.acknowledged := by
  have settled := turns_settled (queue ++ session.published) session.events
  unfold serve
  extract_lets deliveries all ended sent
  intro ends some
  have sent_all : sent = tags all := if_pos (.inl ends)
  have yields : yielded all ≠ [] := fun none => some (by simp [none])
  have acked := (settled.ended ends).resolve_left yields
  simpa [sent_all] using acked

theorem serve_truthy (queue : List (Body B)) (session : Session B) :
    ∀ body ∈ (serve queue session).1.returned, (body.getD []).isEmpty = false := by
  have settled := turns_settled (queue ++ session.published) session.events
  intro body mem
  obtain ⟨delivery, given, rfl⟩ := List.mem_map.mp mem
  simpa [Delivery.isTruthy] using settled.truthy delivery given

def brokerQueue : Queue (α := Body B) (serve (B := B)) where
  pending queue := queue
  arrives session := session.published
  reading report := ⟨report.returned, report.acknowledged⟩
  serves := serve_serves

/-- Over any sessions, however each of them ends: the bodies of the acknowledged sessions, in order,
and then those still in the queue are all that was ever published. A session that ends as it
should is acknowledged, and what one that is not has returned is at the front of what is left. -/
theorem serve_conserves (queue : List (Body B)) (sessions : List (Session B)) :
    let reports := outputs serve queue sessions
    let published := queue ++ sessions.flatMap Session.published
    published = (reports.filter Report.acknowledged).flatMap Report.returned ++
      run serve queue sessions ∧
    Always serve (fun queue session report =>
      (report.ended → report.returned ≠ [] → report.acknowledged) ∧
      (¬report.acknowledged → report.returned <+: (serve queue session).2)) queue sessions ∧
    ((∀ report ∈ reports, report.ended) →
      published = reports.flatMap Report.returned ++ run serve queue sessions) := by
  intro reports published
  have conserved := brokerQueue.conserved queue sessions
  refine ⟨?_, ?_, fun ended => ?_⟩
  · rw [Queue.readings, committed_map] at conserved
    exact conserved
  · exact always_of_forall_mem (fun session _ queue =>
      ⟨serve_ended queue session, brokerQueue.again queue session⟩) _
  · have acknowledged : ∀ report ∈ reports, report.returned ≠ [] → report.acknowledged := by
      have each : ∀ report ∈ reports,
          report.ended → report.returned ≠ [] → report.acknowledged :=
        always_iff_forall_outputs.mp
          (always_of_forall_mem (fun session _ queue => serve_ended queue session) _)
      exact fun report mem => each report mem (ended report mem)
    have all : ∀ reading ∈ brokerQueue.readings queue sessions,
        reading.items ≠ [] → reading.committed := by
      intro reading mem
      obtain ⟨report, here, rfl⟩ := List.mem_map.mp mem
      exact acknowledged report here
    rw [committed_eq_flatMap all, Queue.readings, List.flatMap_map] at conserved
    exact conserved

/-- An empty message ends every session that comes to it, and is never acknowledged: the messages
behind it are never returned, however many sessions there are. -/
theorem serve_blocked {before after : List (Body B)} {empty : Body B}
    (is_empty : (empty.getD []).isEmpty) (queue : List (Body B)) (sessions : List (Session B))
    (published : queue ++ sessions.flatMap Session.published = before ++ empty :: after) :
    let reports := outputs serve queue sessions
    (∀ report ∈ reports, report.returned <:+: before) ∧
    ∃ stuck, before = (reports.filter Report.acknowledged).flatMap Report.returned ++ stuck ∧
      run serve queue sessions = stuck ++ empty :: after := by
  intro reports
  have not_good : ¬(empty.getD []).isEmpty = false := by simp [is_empty]
  obtain ⟨returned, stuck, rest⟩ := brokerQueue.blocked
    (fun queue session => serve_truthy queue session) not_good queue sessions published
  refine ⟨fun report mem => returned _ (List.mem_map_of_mem mem), stuck, ?_, rest⟩
  have conserved := brokerQueue.conserved queue sessions
  rw [rest, Queue.readings, committed_map, ← List.append_assoc] at conserved
  exact List.append_cancel_right (published.symm.trans conserved)

theorem serve_blocked_twice :
    let sessions : List (Session Char) :=
      [⟨[], [.next {}, .next {}], false⟩, ⟨[some ['c']], [.next {}], false⟩]
    let queue : List (Body Char) := [some ['a'], some []]
    ∃ stuck, run serve queue sessions = stuck ++ some [] :: [some ['c']] := by
  intro sessions queue
  have published : queue ++ sessions.flatMap Session.published =
    [some ['a']] ++ some [] :: [some ['c']] := rfl
  obtain ⟨-, stuck, -, rest⟩ := serve_blocked rfl queue sessions published
  exact ⟨stuck, rest⟩

end KhCommon.MessageQueue
