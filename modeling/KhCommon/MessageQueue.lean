import KhCommon.Lib.Machine
import Mathlib.Data.Int.Order.Basic
import Mathlib.Data.List.Induction
import Mathlib.Data.List.Pairwise
import Mathlib.Order.MinMax

/-! `Receiver._recv`: a generator over the deliveries of a queue. They are acknowledged
together when its loop is left, up to the last one after which the consumer asked
for more. The bare `except` catches what the driver raises and also the
GeneratorExit of a consumer that stops. Declarations of the queue are left out. -/

namespace KhCommon.MessageQueue

open Machine

variable {B : Type*}

/-- A delivery of the queue; its body may be None, or empty. -/
structure Delivery (B : Type*) where
  deliveryTag : ℕ
  body : Option (List B)

def Delivery.isTruthy (delivery : Delivery B) : Bool := !(delivery.body.getD []).isEmpty

/-- What the iterator of `consume` does when it is asked: it waits for the next delivery, gives
three None after a while, ends or raises. -/
inductive Next
  | delivers
  | timesOut
  | ends
  | raises

/-- How the driver answers in one turn of the generator: which calls raise. `setUp` is any call
from `channel()` to `consume`. -/
structure Driver where
  connect : Bool := false
  setUp : Bool := false
  next : Next := .delivers
  basicAck : Bool := false
  cancel : Bool := false

/-- What the consumer does: `next`, or it stops, which raises at the `yield`. -/
inductive Event
  | next (driver : Driver)
  | close

inductive Place (B : Type*)
  | created
  | suspended (ack : ℤ) (delivery : Delivery B)
  | stopped

structure State (B : Type*) where
  place : Place B
  queue : List (Delivery B)

inductive Result (B : Type*)
  | yields (delivery : Delivery B)
  | ends
  | caught
  | nothing

/-- A call that was made; of one that raises it is not known what it has done. -/
inductive Action
  | basicAck (deliveryTag : ℤ)
  | cancel
  | close
  deriving DecidableEq

structure Turn (B : Type*) where
  actions : List Action
  result : Result B

def finish (driver : Driver) (ack : ℤ) : Turn B :=
  let acked := if ack ≥ 0 then [.basicAck ack] else []
  if ack ≥ 0 ∧ driver.basicAck then ⟨acked ++ [.close], .caught⟩
  else ⟨acked ++ [.cancel, .close], if driver.cancel then .caught else .ends⟩

/-- From the head of the loop on. Without a delivery to come the iterator ends. -/
def loop (driver : Driver) (ack : ℤ) (queue : List (Delivery B)) : Turn B × State B :=
  match driver.next, queue with
  | .raises, queue => (⟨[.close], .caught⟩, ⟨.stopped, queue⟩)
  | .delivers, delivery :: queue =>
    if delivery.isTruthy then (⟨[], .yields delivery⟩, ⟨.suspended ack delivery, queue⟩)
    else (finish driver ack, ⟨.stopped, queue⟩)
  | _, queue => (finish driver ack, ⟨.stopped, queue⟩)

def step (s : State B) : Event → Turn B × State B
  | .next driver =>
    match s.place with
    | .created =>
      if driver.connect then (⟨[], .caught⟩, ⟨.stopped, s.queue⟩)
      else if driver.setUp then (⟨[.close], .caught⟩, ⟨.stopped, s.queue⟩)
      else loop driver (-1) s.queue
    | .suspended ack delivery => loop driver (max ack delivery.deliveryTag) s.queue
    | .stopped => (⟨[], .nothing⟩, s)
  | .close =>
    match s.place with
    | .suspended _ _ => (⟨[.close], .caught⟩, ⟨.stopped, s.queue⟩)
    | _ => (⟨[], .nothing⟩, ⟨.stopped, s.queue⟩)

def start (deliveries : List (Delivery B)) : State B := ⟨.created, deliveries⟩

/-! ## What is acknowledged -/

variable (deliveries : List (Delivery B)) (events : List Event)

def turns : List (Turn B) := outputs step (start deliveries) events

/-- With `multiple`, all deliveries up to the tag are acknowledged, and for the tag 0 all there
are. -/
def Acknowledged (delivery : Delivery B) : Prop :=
  ∃ turn ∈ turns deliveries events, ∃ tag : ℤ, .basicAck tag ∈ turn.actions ∧
    (delivery.deliveryTag ≤ tag ∨ tag = 0)

def Yielded (delivery : Delivery B) : Prop :=
  ∃ turn ∈ turns deliveries events, turn.result = .yields delivery

def Taken (delivery : Delivery B) : Prop :=
  ∃ before driver driver' after, events = before ++ .next driver :: .next driver' :: after ∧
    (step (run step (start deliveries) before) (.next driver)).1.result = .yields delivery

def Ends : Prop := ∃ turn ∈ turns deliveries events, turn.result = .ends

structure Careful : Prop where
  taken : ∀ delivery ∈ deliveries, Acknowledged deliveries events delivery →
    Taken deliveries events delivery
  complete : Ends deliveries events → ∀ delivery, Yielded deliveries events delivery →
    Acknowledged deliveries events delivery

/-! ## One turn -/

variable {deliveries events} {delivery : Delivery B} {driver : Driver} {ack tag : ℤ}
  {queue consumed : List (Delivery B)} {event : Event}

theorem basicAck_mem_finish :
    .basicAck tag ∈ (finish driver ack : Turn B).actions ↔ 0 ≤ ack ∧ tag = ack := by
  unfold finish
  by_cases some : 0 ≤ ack
  · cases driver.basicAck <;> simp [some]
  · simp [some]

theorem finish_not_yields : (finish driver ack).result ≠ .yields delivery := by
  unfold finish
  dsimp only
  split_ifs <;> exact nofun

theorem loop_cases (driver : Driver) (ack : ℤ) (queue : List (Delivery B)) :
    loop driver ack queue = (⟨[.close], .caught⟩, ⟨.stopped, queue⟩) ∨
    (∃ delivery rest, queue = delivery :: rest ∧
      loop driver ack queue = (⟨[], .yields delivery⟩, ⟨.suspended ack delivery, rest⟩)) ∨
    ∃ rest, loop driver ack queue = (finish driver ack, ⟨.stopped, rest⟩) := by
  unfold loop
  cases driver.next with
  | raises => exact .inl rfl
  | timesOut => exact .inr (.inr ⟨queue, rfl⟩)
  | ends => exact .inr (.inr ⟨queue, rfl⟩)
  | delivers =>
    cases queue with
    | nil => exact .inr (.inr ⟨[], rfl⟩)
    | cons delivery rest =>
      dsimp only
      split_ifs
      · exact .inr (.inl ⟨delivery, rest, rfl, rfl⟩)
      · exact .inr (.inr ⟨rest, rfl⟩)

/-! ## One turn more -/

theorem turns_append_singleton (deliveries : List (Delivery B)) (events : List Event)
    (event : Event) : turns deliveries (events ++ [event]) =
      turns deliveries events ++ [(step (run step (start deliveries) events) event).1] := by
  rw [turns, outputs_append]
  rfl

def turn (deliveries : List (Delivery B)) (events : List Event) (event : Event) : Turn B :=
  (step (run step (start deliveries) events) event).1

theorem acknowledged_append : Acknowledged deliveries (events ++ [event]) delivery ↔
    Acknowledged deliveries events delivery ∨
      ∃ tag : ℤ, .basicAck tag ∈ (turn deliveries events event).actions ∧
        (delivery.deliveryTag ≤ tag ∨ tag = 0) := by
  simp only [Acknowledged, turns_append_singleton, List.mem_append, List.mem_singleton,
    or_and_right, exists_or, exists_eq_left, turn]

theorem yielded_append : Yielded deliveries (events ++ [event]) delivery ↔
    Yielded deliveries events delivery ∨
      (turn deliveries events event).result = .yields delivery := by
  simp only [Yielded, turns_append_singleton, List.mem_append, List.mem_singleton, or_and_right,
    exists_or, exists_eq_left, turn]

theorem ends_append : Ends deliveries (events ++ [event]) ↔
    Ends deliveries events ∨ (turn deliveries events event).result = .ends := by
  simp only [Ends, turns_append_singleton, List.mem_append, List.mem_singleton, or_and_right,
    exists_or, exists_eq_left, turn]

theorem Taken.append (h : Taken deliveries events delivery) (event : Event) :
    Taken deliveries (events ++ [event]) delivery := by
  obtain ⟨before, driver, driver', after, rfl, yields⟩ := h
  exact ⟨before, driver, driver', after ++ [event], by simp, yields⟩

/-! ## Every run -/

/-- At the head of the loop: these were consumed and taken, and `ack` is the last tag among
them. -/
structure Head (deliveries : List (Delivery B)) (events : List Event) (ack : ℤ)
    (consumed queue : List (Delivery B)) : Prop where
  split : deliveries = consumed ++ queue
  taken : ∀ d ∈ consumed, Taken deliveries events d
  last : ack = -1 ∨ ∃ d ∈ consumed, ack = d.deliveryTag
  bound : ∀ d ∈ consumed, (d.deliveryTag : ℤ) ≤ ack

structure Open (deliveries : List (Delivery B)) (events : List Event)
    (yielded : List (Delivery B)) : Prop where
  acknowledged : ∀ delivery, ¬Acknowledged deliveries events delivery
  ends : ¬Ends deliveries events
  yielded : ∀ delivery, Yielded deliveries events delivery → delivery ∈ yielded

theorem Open.careful (h : Open deliveries events consumed) : Careful deliveries events :=
  ⟨fun delivery _ acked => absurd acked (h.acknowledged delivery), fun ends => absurd ends h.ends⟩

def Invariant (deliveries : List (Delivery B)) (events : List Event) (s : State B) : Prop :=
  match s.place with
  | .created => events = [] ∧ s.queue = deliveries
  | .suspended ack delivery => ∃ consumed,
      Head deliveries events ack consumed (delivery :: s.queue) ∧
      Open deliveries events (consumed ++ [delivery]) ∧
      ∃ before driver, events = before ++ [.next driver] ∧
        (turn deliveries before (.next driver)).result = .yields delivery
  | .stopped => Careful deliveries events

structure Tagged (deliveries : List (Delivery B)) : Prop where
  increasing : deliveries.Pairwise fun d d' => d.deliveryTag < d'.deliveryTag
  positive : ∀ delivery ∈ deliveries, 0 < delivery.deliveryTag

theorem Head.mem_consumed (tagged : Tagged deliveries)
    (h : Head deliveries events ack consumed queue) (mem : delivery ∈ deliveries)
    (acked : delivery.deliveryTag ≤ ack ∨ ack = 0) :
    delivery ∈ consumed := by
  have increasing := tagged.increasing
  rw [h.split, List.pairwise_append] at increasing
  have split := mem
  rw [h.split, List.mem_append] at split
  refine split.resolve_right fun later => ?_
  rcases h.last with none | ⟨d, hd, last⟩
  · omega
  · have above := increasing.2.2 d hd delivery later
    have positive := tagged.positive d (h.split ▸ List.mem_append_left _ hd)
    omega

theorem Head.take (h : Head deliveries events ack consumed (delivery :: queue))
    (yields : ∃ before driver, events = before ++ [.next driver] ∧
      (turn deliveries before (.next driver)).result = .yields delivery) (driver : Driver) :
    Head deliveries (events ++ [.next driver]) (max ack delivery.deliveryTag)
      (consumed ++ [delivery]) queue where
  split := by rw [h.split, List.append_assoc, List.singleton_append]
  taken := by
    rw [List.forall_mem_append, List.forall_mem_singleton]
    refine ⟨fun d hd => (h.taken d hd).append _, ?_⟩
    obtain ⟨before, driver', rfl, yields⟩ := yields
    exact ⟨before, driver', driver, [], by simp, yields⟩
  last := by
    rcases max_choice ack (delivery.deliveryTag : ℤ) with same | same
    · rw [same]
      exact h.last.imp_right fun ⟨d, hd, last⟩ => ⟨d, List.mem_append_left _ hd, last⟩
    · rw [same]
      exact .inr ⟨delivery, by simp, rfl⟩
  bound := by
    rw [List.forall_mem_append, List.forall_mem_singleton]
    exact ⟨fun d hd => (h.bound d hd).trans (le_max_left _ _), le_max_right _ _⟩

theorem Open.append (h : Open deliveries events consumed)
    (acknowledged : ∀ tag, .basicAck tag ∉ (turn deliveries events event).actions)
    (ends : (turn deliveries events event).result ≠ .ends)
    (yields : ∀ delivery, (turn deliveries events event).result = .yields delivery →
      delivery ∈ consumed) : Open deliveries (events ++ [event]) consumed where
  acknowledged delivery acked := by
    rcases acknowledged_append.mp acked with before | ⟨tag, mem, -⟩
    · exact h.acknowledged delivery before
    · exact acknowledged tag mem
  ends reached := (ends_append.mp reached).elim h.ends ends
  yielded delivery yielded :=
    (yielded_append.mp yielded).elim (h.yielded delivery) (yields delivery)

theorem loop_invariant (tagged : Tagged deliveries)
    (head : Head deliveries (events ++ [.next driver]) ack consumed queue)
    (opened : Open deliveries events consumed)
    (goes_on : step (run step (start deliveries) events) (.next driver) = loop driver ack queue) :
    Invariant deliveries (events ++ [.next driver])
      (run step (start deliveries) (events ++ [.next driver])) := by
  have after : run step (start deliveries) (events ++ [.next driver]) =
      (loop driver ack queue).2 := by rw [run_append, run_cons, goes_on, run_nil]
  have here : turn deliveries events (.next driver) = (loop driver ack queue).1 := by
    rw [turn, goes_on]
  rw [after]
  rcases loop_cases driver ack queue with same | ⟨delivery, rest, rfl, same⟩ | ⟨rest, same⟩
  · rw [same] at here ⊢
    exact (opened.append (by simp [here]) (by simp [here]) (by simp [here])).careful
  · rw [same] at here ⊢
    have more : Open deliveries events (consumed ++ [delivery]) :=
      ⟨opened.acknowledged, opened.ends,
        fun d yielded => List.mem_append_left _ (opened.yielded d yielded)⟩
    refine ⟨consumed, head, more.append (by simp [here]) (by simp [here]) ?_, events, driver, rfl,
      ?_⟩
    · simp [here, eq_comm]
    · rw [here]
  · rw [same] at here ⊢
    refine ⟨fun d mem acked => ?_, fun _ d yielded => ?_⟩
    · rcases acknowledged_append.mp acked with before | ⟨tag, sent, covers⟩
      · exact absurd before (opened.acknowledged d)
      · rw [here, basicAck_mem_finish] at sent
        obtain ⟨-, rfl⟩ := sent
        exact head.taken d (head.mem_consumed tagged mem covers)
    · have mem : d ∈ consumed := by
        refine (yielded_append.mp yielded).elim (opened.yielded d) fun yields => ?_
        rw [here] at yields
        exact absurd yields finish_not_yields
      have covers := head.bound d mem
      refine acknowledged_append.mpr (.inr ⟨ack, ?_, .inl covers⟩)
      rw [here, basicAck_mem_finish]
      omega

theorem Careful.append (h : Careful deliveries events)
    (nothing : turn deliveries events event = ⟨[], .nothing⟩) :
    Careful deliveries (events ++ [event]) where
  taken delivery mem acked := by
    rw [acknowledged_append, nothing] at acked
    exact (h.taken delivery mem (acked.resolve_right (by simp))).append event
  complete ends delivery yielded := by
    rw [ends_append, nothing] at ends
    rw [yielded_append, nothing] at yielded
    exact acknowledged_append.mpr
      (.inl (h.complete (ends.resolve_right nofun) delivery (yielded.resolve_right nofun)))

theorem invariant_stopped {done : Turn B}
    (stops : step (run step (start deliveries) events) event = (done, ⟨.stopped, queue⟩))
    (careful : Careful deliveries (events ++ [event])) :
    Invariant deliveries (events ++ [event])
      (run step (start deliveries) (events ++ [event])) := by
  rw [run_append, run_cons, stops]
  exact careful

theorem invariant_caught {actions : List Action} (opened : Open deliveries events consumed)
    (stops : step (run step (start deliveries) events) event =
      (⟨actions, .caught⟩, ⟨.stopped, queue⟩))
    (quiet : ∀ tag, .basicAck tag ∉ actions) :
    Invariant deliveries (events ++ [event])
      (run step (start deliveries) (events ++ [event])) := by
  have still : Open deliveries (events ++ [event]) consumed := by
    refine opened.append ?_ ?_ ?_ <;> simp [turn, stops, quiet]
  exact invariant_stopped stops still.careful

theorem open_nil (deliveries : List (Delivery B)) : Open deliveries [] [] := by
  constructor <;> simp [Acknowledged, Ends, Yielded, turns, outputs]

theorem invariant_run (tagged : Tagged deliveries) (events : List Event) :
    Invariant deliveries events (run step (start deliveries) events) := by
  induction events using List.reverseRecOn with
  | nil => exact ⟨rfl, rfl⟩
  | append_singleton events event ih =>
    rcases hs : run step (start deliveries) events with ⟨place, queue⟩
    rw [hs] at ih
    cases place with
    | created =>
      obtain ⟨rfl, rfl⟩ : events = [] ∧ queue = deliveries := ih
      cases event with
      | close =>
        have nothing : turn queue [] .close = ⟨[], .nothing⟩ := by rw [turn, hs]; rfl
        exact invariant_stopped (by rw [hs]; rfl) ((open_nil queue).careful.append nothing)
      | next driver =>
        by_cases connected : driver.connect
        · have stops : step (run step (start queue) []) (.next driver) =
              (⟨[], .caught⟩, ⟨.stopped, queue⟩) := by simp [hs, step, connected]
          exact invariant_caught (open_nil queue) stops (by simp)
        by_cases setUp : driver.setUp
        · have stops : step (run step (start queue) []) (.next driver) =
              (⟨[.close], .caught⟩, ⟨.stopped, queue⟩) := by simp [hs, step, connected, setUp]
          exact invariant_caught (open_nil queue) stops (by simp)
        have head : Head queue ([] ++ [.next driver]) (-1) [] queue :=
          ⟨rfl, by simp, .inl rfl, by simp⟩
        exact loop_invariant tagged head (open_nil queue) (by simp [hs, step, connected, setUp])
    | suspended ack delivery =>
      obtain ⟨consumed, head, opened, yields⟩ := ih
      cases event with
      | close => exact invariant_caught opened (by rw [hs]; rfl) (by simp)
      | next driver =>
        exact loop_invariant tagged (head.take yields driver) opened (by rw [hs]; rfl)
    | stopped =>
      have nothing : turn deliveries events event = ⟨[], .nothing⟩ := by
        rw [turn, hs]
        cases event <;> rfl
      exact invariant_stopped (by rw [hs]; cases event <;> rfl) (Careful.append ih nothing)

/-- Over every queue, for every behaviour of the driver and of the consumer: a delivery is
acknowledged only if it was yielded and the consumer then asked for the next one, and when the
generator runs to its end all it has yielded is acknowledged. -/
theorem recv_careful (deliveries : List (Delivery B)) (tagged : Tagged deliveries)
    (events : List Event) : Careful deliveries events := by
  have invariant := invariant_run tagged events
  rcases hs : run step (start deliveries) events with ⟨place, queue⟩
  rw [hs] at invariant
  cases place with
  | created =>
    obtain ⟨rfl, -⟩ := invariant
    exact (open_nil deliveries).careful
  | suspended ack delivery =>
    obtain ⟨consumed, -, opened, -⟩ := invariant
    exact opened.careful
  | stopped => exact invariant

theorem recv_careful_two :
    let deliveries : List (Delivery Char) :=
      [⟨1, some ['a']⟩, ⟨2, some ['b']⟩, ⟨3, some []⟩]
    let events : List Event := [.next {}, .next {}, .next {}]
    Acknowledged deliveries events ⟨1, some ['a']⟩ := by
  intro deliveries events
  have tagged : Tagged deliveries := ⟨by decide, by decide⟩
  have all : turns deliveries events = [⟨[], .yields ⟨1, some ['a']⟩⟩,
      ⟨[], .yields ⟨2, some ['b']⟩⟩, ⟨[.basicAck 2, .cancel, .close], .ends⟩] := rfl
  have ends : Ends deliveries events := ⟨_, by rw [all]; exact .tail _ (.tail _ (.head _)), rfl⟩
  have yielded : Yielded deliveries events ⟨1, some ['a']⟩ := ⟨_, by rw [all]; exact .head _, rfl⟩
  exact (recv_careful deliveries tagged events).complete ends _ yielded

end KhCommon.MessageQueue
