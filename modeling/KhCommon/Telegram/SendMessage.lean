import KhCommon.Telegram.SplitMessage

/-! `Listener.sendMessage`: the pieces of a text are sent one after another, each with
up to five requests, and the first piece that does not get through ends it. A
request may have been carried out although its answer is lost, so that a piece can
appear in the chat several times; but the pieces appear in order, and none is left
out before one that appears. -/

namespace KhCommon.Telegram

open Python

/-- What is asked for besides the text; `markup` is what `markup.json` returns. -/
structure Options where
  parseMode : Str
  recipient : ℤ
  replyTo : Option ℤ
  markup : Option Str

structure Body where
  parseMode : Str
  chatId : ℤ
  text : Str
  replyToMessageId : Option ℤ
  replyMarkup : Option Str
  deriving DecidableEq

/-- The body of a request; `reply_to` and `reply_markup` are left out when they are falsy. -/
def body (options : Options) (message : Str) (replyMarkup : Option Str) : Body :=
  ⟨options.parseMode, options.recipient, message, options.replyTo.filter (· ≠ 0),
    replyMarkup.filter (· ≠ [])⟩

variable {I : Type*}

/-- What comes of one request: something is raised, perhaps after `info` was read, or `info['ok']`
is read. -/
inductive Reply (I : Type*)
  | raised (info : Option I)
  | answered (info : I) (ok : Bool)

/-- `accepted` says whether the message is in the chat now. -/
structure Exchange (I : Type*) where
  accepted : Bool
  reply : Reply I

structure Failure (I : Type*) where
  info : Option I
  index : ℕ
  total : ℕ
  body : Body

structure Outcome (I : Type*) where
  posted : List Body
  logged : List (Failure I)
  success : Bool

/-- `for _ in range(5)` with `left` rounds to go: what the chat gets, `info` and whether it was
left by `return True`. -/
def attempts (body : Body) (exchange : ℕ → Exchange I) :
    (left i : ℕ) → (info : Option I) → List Body × Option I × Bool
  | 0, _, info => ([], info, false)
  | left + 1, i, info =>
    let posted := if (exchange i).accepted then [body] else []
    match (exchange i).reply with
    | .answered info ok => (posted, some info, ok)
    | .raised read =>
      let (later, info, success) := attempts body exchange left (i + 1) (read.or info)
      (posted ++ later, info, success)

def sendSingleMessage (options : Options) (exchange : ℕ → Exchange I) (message : Str)
    (replyMarkup : Option Str) (index total : ℕ) : Outcome I :=
  let body := body options message replyMarkup
  let (posted, info, success) := attempts body exchange 5 0 none
  ⟨posted, if success then [] else [⟨info, index, total, body⟩], success⟩

/-- `for i, m in enumerate(messages)`. -/
def sendFrom (options : Options) (exchange : ℕ → ℕ → Exchange I) (total : ℕ) :
    (i : ℕ) → (success : Bool) → List Str → Outcome I
  | _, success, [] => ⟨[], [], success⟩
  | i, _, message :: messages =>
    let replyMarkup := if i = total - 1 then options.markup else none
    let first := sendSingleMessage options (exchange i) message replyMarkup i total
    if first.success then
      let rest := sendFrom options exchange total (i + 1) true messages
      ⟨first.posted ++ rest.posted, first.logged ++ rest.logged, rest.success⟩
    else first

/-- `sendMessage`, for a `splitMessage` of at most `fuel` rounds. -/
def Listener.sendMessage (self : Listener) (options : Options) (exchange : ℕ → ℕ → Exchange I)
    (fuel : ℕ) (message : Str) : Option (Outcome I) :=
  (self.splitMessage fuel message).map fun messages =>
    sendFrom options exchange messages.length 0 false messages

/-! ## What the chat should get -/

def Honest (exchange : ℕ → Exchange I) : Prop :=
  ∀ i info, (exchange i).reply = .answered info true → (exchange i).accepted

/-- One of `left` requests from `i` on is answered with `ok`, and those before it were lost. -/
def GetsThrough (exchange : ℕ → Exchange I) (left i : ℕ) : Prop :=
  ∃ j < left, (∃ info, (exchange (i + j)).reply = .answered info true) ∧
    ∀ k < j, ∃ info, (exchange (i + k)).reply = .raised info

def bodies (options : Options) : List Str → List Body
  | [] => []
  | message :: messages =>
    body options message (if messages = [] then options.markup else none) ::
      bodies options messages

/-- Each body once or several times, in order; if one failed, up to that one. -/
inductive Posted : List Body → List Body → (success : Bool) → Prop
  | all : Posted [] [] true
  | stopped {body : Body} {bodies : List Body} {n : ℕ} (most : n ≤ 5) :
    Posted (body :: bodies) (List.replicate n body) false
  | next {body : Body} {bodies posted : List Body} {success : Bool} {n : ℕ} (once : 1 ≤ n)
    (most : n ≤ 5) (later : Posted bodies posted success) :
    Posted (body :: bodies) (List.replicate n body ++ posted) success

/-! ## One piece -/

variable {exchange : ℕ → Exchange I} {body : Body} {left i : ℕ} {info : Option I}

theorem getsThrough_of_raised {read : Option I} (lost : (exchange i).reply = .raised read) :
    GetsThrough exchange (left + 1) i ↔ GetsThrough exchange left (i + 1) := by
  constructor
  · rintro ⟨j, inside, ⟨info, ok⟩, before⟩
    cases j with
    | zero => simp [lost] at ok
    | succ j =>
      refine ⟨j, by omega, ⟨info, by rwa [Nat.add_right_comm]⟩, fun k below => ?_⟩
      rw [Nat.add_right_comm]
      exact before (k + 1) (by omega)
  · rintro ⟨j, inside, ⟨info, ok⟩, before⟩
    refine ⟨j + 1, by omega, ⟨info, by rwa [Nat.add_right_comm] at ok⟩, fun k below => ?_⟩
    cases k with
    | zero => exact ⟨read, lost⟩
    | succ k =>
      rw [← Nat.add_assoc, Nat.add_right_comm]
      exact before k (by omega)

theorem getsThrough_of_answered {read : I} {ok : Bool}
    (answer : (exchange i).reply = .answered read ok) :
    GetsThrough exchange (left + 1) i ↔ ok := by
  constructor
  · rintro ⟨j, -, ⟨info, hok⟩, before⟩
    cases j with
    | zero =>
      rw [Nat.add_zero, answer, Reply.answered.injEq] at hok
      exact hok.2
    | succ j =>
      obtain ⟨info, lost⟩ := before 0 (by omega)
      simp [answer] at lost
  · rintro rfl
    exact ⟨0, by omega, ⟨read, answer⟩, by simp⟩

theorem attempts_posted (body : Body) (honest : Honest exchange) (left i : ℕ)
    (info : Option I) :
    (∃ n ≤ left, (attempts body exchange left i info).1 = List.replicate n body ∧
      ((attempts body exchange left i info).2.2 → 1 ≤ n)) ∧
    ((attempts body exchange left i info).2.2 ↔ GetsThrough exchange left i) := by
  induction left generalizing i info with
  | zero =>
    refine ⟨⟨0, Nat.le_refl 0, rfl, by simp [attempts]⟩, by simp [attempts, GetsThrough]⟩
  | succ left ih =>
    rw [attempts]
    cases answer : (exchange i).reply with
    | answered read ok =>
      refine ⟨⟨if (exchange i).accepted then 1 else 0, ?_, ?_, ?_⟩,
        (getsThrough_of_answered answer).symm⟩
      · split <;> omega
      · dsimp only
        split <;> rfl
      · rintro rfl
        simp [honest i read answer]
    | raised read =>
      obtain ⟨⟨n, most, posted, once⟩, through⟩ := ih (i + 1) (read.or info)
      refine ⟨⟨if (exchange i).accepted then n + 1 else n, ?_, ?_, ?_⟩, ?_⟩
      · split <;> omega
      · dsimp only
        rw [posted]
        split <;> simp [List.replicate_succ]
      · intro success
        have := once success
        split <;> omega
      · rw [getsThrough_of_raised answer]
        exact through

structure Single (body : Body) (index : ℕ) (through : Prop) (outcome : Outcome I) : Prop where
  posted : ∃ n ≤ 5, outcome.posted = List.replicate n body ∧ (outcome.success → 1 ≤ n)
  success : outcome.success ↔ through
  quiet : outcome.success → outcome.logged = []
  logged : ¬outcome.success → ∃ failure, outcome.logged = [failure] ∧ failure.index = index ∧
    failure.body = body

theorem sendSingleMessage_single (options : Options) (honest : Honest exchange) (message : Str)
    (replyMarkup : Option Str) (index total : ℕ) :
    Single (Telegram.body options message replyMarkup) index (GetsThrough exchange 5 0)
      (sendSingleMessage options exchange message replyMarkup index total) := by
  obtain ⟨posted, through⟩ :=
    attempts_posted (Telegram.body options message replyMarkup) honest 5 0 none
  refine ⟨posted, through, fun success => if_pos success, fun failed => ?_⟩
  exact ⟨_, if_neg failed, rfl, rfl⟩

/-! ## All pieces -/

/-- What is logged is about the first piece that does not get through, and no piece behind it is
posted. -/
structure Logs (exchange : ℕ → ℕ → Exchange I) (bodies : List Body) (i : ℕ)
    (outcome : Outcome I) : Prop where
  iff : outcome.success ↔ outcome.logged = []
  once : outcome.logged.length ≤ 1
  names : ∀ failure ∈ outcome.logged, ∃ k, failure.index = i + k ∧
    bodies[k]? = some failure.body ∧ ¬GetsThrough (exchange (i + k)) 5 0 ∧
    (∀ j < k, GetsThrough (exchange (i + j)) 5 0) ∧
    ∀ posted ∈ outcome.posted, posted ∈ bodies.take (k + 1)

theorem Logs.next {exchange : ℕ → ℕ → Exchange I} {bodies : List Body} {n : ℕ}
    {logged : List (Failure I)} {rest : Outcome I} (quiet : logged = [])
    (through : GetsThrough (exchange i) 5 0) (h : Logs exchange bodies (i + 1) rest) :
    Logs exchange (body :: bodies) i
      ⟨List.replicate n body ++ rest.posted, logged ++ rest.logged, rest.success⟩ where
  iff := by simpa [quiet] using h.iff
  once := by simpa [quiet] using h.once
  names failure mem := by
    rw [quiet, List.nil_append] at mem
    obtain ⟨k, index, named, refused, before, ended⟩ := h.names failure mem
    rw [Nat.add_right_comm i 1 k] at index refused
    refine ⟨k + 1, index, by simpa using named, refused, fun j below => ?_, fun posted given => ?_⟩
    · cases j with
      | zero => exact through
      | succ j =>
        rw [← Nat.add_assoc, Nat.add_right_comm]
        exact before j (by omega)
    · rw [List.take_succ_cons, List.mem_cons]
      rcases List.mem_append.mp given with first | later
      · exact .inl (List.eq_of_mem_replicate first)
      · exact .inr (ended posted later)

theorem Logs.stop {exchange : ℕ → ℕ → Exchange I} {bodies : List Body} {outcome : Outcome I}
    {n : ℕ} {failure : Failure I} (failed : ¬outcome.success)
    (posted : outcome.posted = List.replicate n body) (logged : outcome.logged = [failure])
    (index : failure.index = i) (named : failure.body = body)
    (refused : ¬GetsThrough (exchange i) 5 0) : Logs exchange (body :: bodies) i outcome where
  iff := iff_of_false failed (by simp [logged])
  once := by simp [logged]
  names other mem := by
    obtain rfl : other = failure := by simpa [logged] using mem
    refine ⟨0, index, by simp [named], refused, by simp, fun sent given => ?_⟩
    rw [posted] at given
    simp [List.eq_of_mem_replicate given]

theorem forall_getsThrough {exchange : ℕ → ℕ → Exchange I} {n i : ℕ} :
    (∀ k < n + 1, GetsThrough (exchange (i + k)) 5 0) ↔
      GetsThrough (exchange i) 5 0 ∧ ∀ k < n, GetsThrough (exchange (i + 1 + k)) 5 0 := by
  rw [Nat.forall_lt_succ_left, Nat.add_zero]
  simp only [Nat.add_assoc, Nat.add_comm 1]

theorem sendFrom_posted (options : Options) {exchange : ℕ → ℕ → Exchange I}
    (honest : ∀ i, Honest (exchange i)) {total i : ℕ} (success : Bool) {messages : List Str}
    (some_message : success = true ∨ messages ≠ []) (last : i + messages.length = total) :
    let outcome := sendFrom options exchange total i success messages
    Posted (bodies options messages) outcome.posted outcome.success ∧
    (outcome.success ↔ ∀ k < messages.length, GetsThrough (exchange (i + k)) 5 0) ∧
    Logs exchange (bodies options messages) i outcome := by
  induction messages generalizing i success with
  | nil =>
    obtain rfl : success = true := some_message.resolve_right (by simp)
    exact ⟨.all, by simp [sendFrom], by simp [sendFrom], by simp [sendFrom], by simp [sendFrom]⟩
  | cons message messages ih =>
    have markup : (if i = total - 1 then options.markup else none) =
        if messages = [] then options.markup else none := by
      refine if_congr ?_ rfl rfl
      rw [List.length_cons] at last
      rw [← List.length_eq_zero_iff]
      omega
    have single := sendSingleMessage_single options (honest i) message
      (if messages = [] then options.markup else none) i total
    rw [sendFrom, markup, bodies]
    generalize sendSingleMessage options (exchange i) message
      (if messages = [] then options.markup else none) i total = first at single
    obtain ⟨n, most, posted, once⟩ := single.posted
    by_cases sent : first.success
    · have last' : i + 1 + messages.length = total := by
        rw [List.length_cons] at last
        omega
      obtain ⟨later, through, logs⟩ := ih true (.inl rfl) last'
      rw [if_pos sent, posted]
      refine ⟨.next (once sent) most later, ?_,
        .next (single.quiet sent) (single.success.mp sent) logs⟩
      rw [List.length_cons, forall_getsThrough]
      exact through.trans (and_iff_right (single.success.mp sent)).symm
    · obtain ⟨failure, logged, index, named⟩ := single.logged sent
      rw [if_neg sent]
      have refused := fun through => sent (single.success.mpr through)
      refine ⟨?_, ?_, .stop sent posted logged index named refused⟩
      · rw [posted, eq_false_of_ne_true sent]
        exact .stopped most
      · rw [List.length_cons, forall_getsThrough]
        exact iff_of_false sent fun all => refused all.1

theorem Posted.sublist {bodies posted : List Body} {success : Bool}
    (h : Posted bodies posted success) (all : success) : bodies.Sublist posted := by
  induction h with
  | all => exact .slnil
  | stopped most => simp at all
  | @next body bodies posted success n once most later ih =>
    obtain ⟨m, rfl⟩ := Nat.exists_eq_add_of_le' once
    rw [List.replicate_succ, List.cons_append]
    exact ((ih all).trans (List.sublist_append_right _ _)).cons_cons body

end KhCommon.Telegram
