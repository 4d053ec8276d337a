import KhCommon.Lib.Machine
import KhCommon.Lib.OffsetLog

/-! `Listener.recv`: the loop that asks `getUpdates` from the offset `mostrecent` and
puts what it gets on the queue. The queue has no bound, so putting a batch on it
never waits. The server is a log of updates that grows meanwhile and answers with
the first few that are pending at the offset; any request may fail instead. -/

namespace KhCommon.Telegram

open Machine OffsetLog

/-- `B` is the content of an update, which `recv` does not look at. -/
structure Update (B : Type*) where
  updateId : ℤ
  body : B

structure Updates (B : Type*) where
  ok : Bool
  description : Option String
  result : List (Update B)

variable {B : Type*}

/-- What one request to `getUpdates` comes to. -/
inductive Response (B : Type*)
  | failed -- the request or the reading of its body raises
  | unparsed -- `Updates.parse_raw` raises
  | parsed (updates : Updates B)

inductive Effect
  | error -- `failed to read updates from telegram.`, with the updates
  | exception -- `failed to read updates from telegram.`
  | sleep -- `loop_time`
  | logQueueSize
  deriving DecidableEq

/-- `mostrecent`, and everything that was put on the queue, first to last. -/
structure Recv (B : Type*) where
  mostrecent : ℤ
  put : List (Update B)

/-- The body of `while Terminated.alive`. -/
def Recv.turn (self : Recv B) : Response B → List Effect × Recv B
  | .failed => ([.exception], self)
  | .unparsed => ([.exception], self)
  | .parsed updates =>
    if ¬updates.ok then ([.error, .sleep, .logQueueSize], self) else
      match updates.result.getLast? with
      | some last => ([.logQueueSize], ⟨last.updateId + 1, self.put ++ updates.result⟩)
      | none => ([.sleep, .logQueueSize], self)

/-! ## With the server -/

structure System (B : Type*) where
  log : List (Update B)
  recv : Recv B

def start (log : List (Update B)) : System B := ⟨log, ⟨0, []⟩⟩

/-- One turn of the loop: what reaches the server before it answers, what the request comes to,
and what reaches the server before the next turn. -/
structure Turn (B : Type*) where
  arrived : List (Update B)
  response : Response B
  later : List (Update B)

def step (s : System B) (turn : Turn B) : List Effect × System B :=
  let (effects, recv) := s.recv.turn turn.response
  (effects, ⟨s.log ++ turn.arrived ++ turn.later, recv⟩)

structure Numbered (log : List (Update B)) : Prop where
  increasing : Increasing Update.updateId log
  positive : ∀ u ∈ log, 0 < u.updateId

/-- The server numbers what arrives, and answers with a prefix of what is pending. -/
structure Serves (s : System B) (turn : Turn B) (_ : List Effect) : Prop where
  numbered : Numbered (s.log ++ turn.arrived ++ turn.later)
  answer : ∀ updates, turn.response = .parsed updates → updates.ok →
    updates.result <+: pending Update.updateId s.recv.mostrecent (s.log ++ turn.arrived)

structure InOrder (s : System B) : Prop where
  numbered : Numbered s.log
  put : s.recv.put = below Update.updateId s.recv.mostrecent s.log
  offset : s.recv.mostrecent = 0 ∨ Reached Update.updateId s.recv.mostrecent s.log

theorem start_inOrder {log : List (Update B)} (numbered : Numbered log) : InOrder (start log) where
  numbered := numbered
  put := by
    have none : below Update.updateId 0 log = [] :=
      List.filter_eq_nil_iff.mpr fun u hu => by simpa using (numbered.positive u hu).le
    exact none.symm
  offset := .inl rfl

theorem InOrder.ahead {s : System B} (h : InOrder s) {new : List (Update B)}
    (numbered : Numbered (s.log ++ new)) : ∀ u ∈ new, s.recv.mostrecent ≤ u.updateId := by
  rcases h.offset with zero | reached
  · intro u hu
    rw [zero]
    exact (numbered.positive u (List.mem_append_right _ hu)).le
  · exact reached.ahead numbered.increasing

theorem Numbered.left {log new : List (Update B)} (h : Numbered (log ++ new)) : Numbered log :=
  ⟨(List.pairwise_append.mp h.increasing).1, fun u hu => h.positive u (List.mem_append_left _ hu)⟩

theorem turn_cases (self : Recv B) (response : Response B) :
    (self.turn response).2 = self ∨
    ∃ updates last, response = .parsed updates ∧ updates.ok ∧
      updates.result.getLast? = some last ∧
      (self.turn response).2 = ⟨last.updateId + 1, self.put ++ updates.result⟩ := by
  cases response with
  | failed => exact .inl rfl
  | unparsed => exact .inl rfl
  | parsed updates =>
    cases hok : updates.ok with
    | false => simp [Recv.turn, hok]
    | true =>
      cases hlast : updates.result.getLast? with
      | none => simp [Recv.turn, hok, hlast]
      | some last => exact .inr ⟨updates, last, rfl, hok, hlast, by simp [Recv.turn, hok, hlast]⟩

theorem InOrder.later {log new : List (Update B)} {recv : Recv B} (h : InOrder ⟨log, recv⟩)
    (numbered : Numbered (log ++ new)) : InOrder ⟨log ++ new, recv⟩ where
  numbered := numbered
  put := h.put.trans (below_append_new (h.ahead numbered)).symm
  offset := h.offset.imp_right fun ⟨u, hu, hoffset⟩ => ⟨u, List.mem_append_left _ hu, hoffset⟩

theorem InOrder.batch {log : List (Update B)} {recv : Recv B} (h : InOrder ⟨log, recv⟩)
    {batch : List (Update B)} {last : Update B} (hlast : batch.getLast? = some last)
    (answer : batch <+: pending Update.updateId recv.mostrecent log) :
    InOrder ⟨log, ⟨last.updateId + 1, recv.put ++ batch⟩⟩ where
  numbered := h.numbered
  put := by rw [h.put, below_batch h.numbered.increasing answer hlast]
  offset := by
    have inLog := answer.subset (List.mem_of_getLast? hlast)
    exact .inr ⟨last, List.mem_of_mem_filter inLog, le_rfl⟩

theorem step_inOrder {s : System B} {turn : Turn B} (h : InOrder s)
    (serves : Serves s turn (step s turn).1) :
    InOrder (step s turn).2 ∧ s.recv.mostrecent ≤ (step s turn).2.recv.mostrecent := by
  have before : InOrder ⟨s.log ++ turn.arrived, s.recv⟩ := h.later serves.numbered.left
  have split : (step s turn).2 =
      ⟨s.log ++ turn.arrived ++ turn.later, (s.recv.turn turn.response).2⟩ := rfl
  rw [split]
  rcases turn_cases s.recv turn.response with same | ⟨updates, last, hresponse, ok, hlast, after⟩
  · rw [same]
    exact ⟨before.later serves.numbered, le_rfl⟩
  · have answer := serves.answer updates hresponse ok
    rw [after]
    refine ⟨(before.batch hlast answer).later serves.numbered, ?_⟩
    -- the last update of the batch was pending
    have pending := List.of_mem_filter (answer.subset (List.mem_of_getLast? hlast))
    exact (of_decide_eq_true pending).trans (Int.le_add_one le_rfl)

theorem run_inOrder {s : System B} (h : InOrder s) {turns : List (Turn B)}
    (serves : Always step Serves s turns) :
    InOrder (run step s turns) ∧ s.recv.mostrecent ≤ (run step s turns).recv.mostrecent := by
  refine run_inv (I := fun s' => InOrder s' ∧ s.recv.mostrecent ≤ s'.recv.mostrecent)
    (fun s' turn before serves => ?_) ⟨h, le_rfl⟩ serves
  obtain ⟨inOrder, further⟩ := step_inOrder before.1 serves
  exact ⟨inOrder, before.2.trans further⟩

/-- At every loop head what was put on the queue is exactly what the server numbered below
`mostrecent`, in increasing order and each once; and `mostrecent` never decreases. -/
theorem recv_inOrder {log : List (Update B)} (numbered : Numbered log) (turns : List (Turn B))
    (serves : Always step Serves (start log) turns) :
    (∀ heads, heads <+: turns →
      let s := run step (start log) heads
      s.recv.put = s.log.filter (fun u => u.updateId < s.recv.mostrecent) ∧
        (s.recv.put.map Update.updateId).Pairwise (· < ·)) ∧
    ∀ heads heads', heads <+: heads' → heads' <+: turns →
      (run step (start log) heads).recv.mostrecent ≤
        (run step (start log) heads').recv.mostrecent := by
  refine ⟨fun heads inRun => ?_, fun heads heads' inHeads inRun => ?_⟩
  · obtain ⟨rest, rfl⟩ := inRun
    obtain ⟨inOrder, -⟩ := run_inOrder (start_inOrder numbered) (always_append.mp serves).1
    refine ⟨inOrder.put, ?_⟩
    rw [inOrder.put, List.pairwise_map]
    exact inOrder.numbered.increasing.sublist List.filter_sublist
  · obtain ⟨rest, rfl⟩ := inHeads
    obtain ⟨rest', rfl⟩ := inRun
    obtain ⟨first, second⟩ := always_append.mp (always_append.mp serves).1
    rw [run_append]
    exact (run_inOrder (run_inOrder (start_inOrder numbered) first).1 second).2

/-- Half of what is pending, a failed request, then the rest with an update that came meanwhile. -/
theorem recv_inOrder_partial :
    let turns : List (Turn String) :=
      [⟨[], .parsed ⟨true, none, [⟨3, "/help"⟩]⟩, []⟩, ⟨[], .failed, [⟨9, "hi"⟩]⟩,
        ⟨[], .parsed ⟨true, none, [⟨5, "/start"⟩, ⟨9, "hi"⟩]⟩, []⟩]
    let s := run step (start [⟨3, "/help"⟩, ⟨5, "/start"⟩]) turns
    s.recv.put = [⟨3, "/help"⟩, ⟨5, "/start"⟩, ⟨9, "hi"⟩] ∧
      s.recv.put = s.log.filter fun u => u.updateId < s.recv.mostrecent := by
  intro turns s
  refine ⟨rfl, ((recv_inOrder ⟨by simp [Increasing], by simp⟩ turns ?_).1 turns
    List.prefix_rfl).1⟩
  refine ⟨⟨⟨?_, ?_⟩, ?_⟩, ⟨⟨?_, ?_⟩, ?_⟩, ⟨⟨?_, ?_⟩, ?_⟩, trivial⟩
  case refine_3 =>
    rintro _ ⟨⟩ -
    exact ⟨[⟨5, "/start"⟩], rfl⟩
  case refine_6 => simp
  case refine_9 =>
    rintro _ ⟨⟩ -
    exact ⟨[], rfl⟩
  all_goals simp [start, step, Recv.turn, Increasing]

end KhCommon.Telegram
