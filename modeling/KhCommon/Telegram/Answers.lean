import KhCommon.Telegram.Delivery
import KhCommon.Telegram.ParseMessage

/-! What becomes of the updates that the workers take. A worker parses a message in the
same step in which it takes the update, up to the await of what it is to run, and whatever
that raises is caught. `self.commands` is a `defaultdict`, so that each command that is
not known is a command from then on; it stays with the handler for unknown commands, and
no later message is answered otherwise for it. -/

namespace KhCommon.Telegram.ParseMessage.Answers

open Python Machine

variable {F : Type}

inductive Reaction (F : Type)
  | warned -- `parseUpdateWithoutMessage`
  | runs (action : Action F)
  | logged (error : Exc) -- `failed to parse message.`

variable (lower : Str → Str) (self : Listener F)

/-- `dispatch`, with the entry that looking up the handler leaves in `self.commands`. -/
def dispatch (user : ℤ) (message : Message) (command text : Str) :
    Except Exc (Action F) × Listener F :=
  match self.addressed lower (user ≠ message.chat) command with
  | none => (.ok .ignored, self)
  | some command =>
    match self.responses.get? command with
    | some response => (.ok (.respond command message.chat response), self)
    | none =>
      let (func, commands) := self.commands.getDefault self.handleUnknownCommand command
      ((func.kwargs (Listener.commandArgs user message text command)).map
        (.handle command func.func), { self with commands := commands })

def parseMessage (message : Message) : Except Exc (Action F) × Listener F :=
  match message.fromUser with
  | none => (.error .attributeError, self)
  | some user =>
    if user ≠ message.chat ∧ !self.allowChats then (.ok .ignored, self) else
      match message.entities with
      | none => (.error .typeError, self)
      | some entities =>
        match entities.find? (·.type = .bot_command) with
        | none => ((self.handleNonCommand.kwargs (Listener.messageArgs user message)).map
            (.nonCommand self.handleNonCommand.func), self)
        | some entity =>
          match message.text with
          | none => (.error .typeError, self)
          | some text =>
            let (command, text) := Listener.cut text entity
            dispatch lower self user message command text

/-- The body of the loop in `processQueue`; `update` is `update.message`. -/
def react (update : Option Message) : Reaction F × Listener F :=
  match update with
  | none => (.warned, self)
  | some message =>
    match parseMessage lower self message with
    | (.ok action, self) => (.runs action, self)
    | (.error e, self) => (.logged e, self)

def Reaction.of : Except Exc (Action F) → Reaction F
  | .ok action => .runs action
  | .error e => .logged e

def Reaction.handled? : Reaction F → Option Str
  | .runs (.handle key _ _) => some key
  | _ => none

/-! ## One update -/

theorem dispatch_fst (lower : Str → Str) (self : Listener F) (user : ℤ) (message : Message)
    (command text : Str) : (dispatch lower self user message command text).1 =
      self.dispatch lower user message command text := by
  unfold dispatch Listener.dispatch
  cases self.addressed lower (user ≠ message.chat) command with
  | none => rfl
  | some command =>
    dsimp only
    cases self.responses.get? command with
    | some response => rfl
    | none =>
      dsimp only
      rw [OrderedDict.getDefault_fst]
      rfl

theorem parseMessage_fst (lower : Str → Str) (self : Listener F) (message : Message) :
    (parseMessage lower self message).1 = self.parseMessage lower message := by
  unfold parseMessage Listener.parseMessage
  cases message.fromUser with
  | none => rfl
  | some user =>
    dsimp only
    split_ifs
    · rfl
    cases message.entities with
    | none => rfl
    | some entities =>
      dsimp only
      cases entities.find? (·.type = .bot_command) with
      | none => rfl
      | some entity =>
        dsimp only
        cases message.text with
        | none => rfl
        | some text => exact dispatch_fst ..

variable {lower self} {first : Listener F} {seen : List Str}

def remember (self : Listener F) (key : Option Str) : Listener F :=
  match key with
  | some key =>
    { self with commands := (self.commands.getDefault self.handleUnknownCommand key).2 }
  | none => self

def handledBy : Except Exc (Action F) → Option Str
  | .ok (.handle key _ _) => some key
  | _ => none

theorem handledBy_nonCommand (func : F) (kwargs : Except Exc Args) :
    handledBy (kwargs.map (Action.nonCommand func)) = none := by
  cases kwargs <;> rfl

theorem dispatch_snd (lower : Str → Str) (self : Listener F) (user : ℤ) (message : Message)
    (command text : Str) :
    (dispatch lower self user message command text).2 =
      remember self (handledBy (dispatch lower self user message command text).1) := by
  unfold dispatch
  cases self.addressed lower (user ≠ message.chat) command with
  | none => rfl
  | some command =>
    dsimp only
    cases self.responses.get? command with
    | some response => rfl
    | none =>
      obtain ⟨kwargs, runs, -⟩ := (self.commands.getDefault self.handleUnknownCommand
        command).1.kwargs_ok fun k hk => mem_commandArgs user message text command hk
      simp only [runs]
      rfl

theorem parseMessage_snd (lower : Str → Str) (self : Listener F) (message : Message) :
    (parseMessage lower self message).2 =
      remember self (handledBy (parseMessage lower self message).1) := by
  unfold parseMessage
  cases message.fromUser with
  | none => rfl
  | some user =>
    dsimp only
    split_ifs
    · rfl
    cases message.entities with
    | none => rfl
    | some entities =>
      dsimp only
      cases entities.find? (·.type = .bot_command) with
      | none =>
        dsimp only
        rw [handledBy_nonCommand]
        rfl
      | some entity =>
        dsimp only
        cases message.text with
        | none => rfl
        | some text => exact dispatch_snd ..

theorem react_snd (lower : Str → Str) (self : Listener F) (update : Option Message) :
    (react lower self update).2 = remember self (react lower self update).1.handled? := by
  cases update with
  | none => rfl
  | some message =>
    have parsed := parseMessage_snd lower self message
    unfold react
    dsimp only
    generalize parseMessage lower self message = answer at parsed ⊢
    obtain ⟨e | action, after⟩ := answer
    · exact parsed
    · cases action <;> exact parsed

/-- The commands that were not known and have been seen are handled as unknown ones. -/
def Remembers (first : Listener F) (seen : List Str) (self : Listener F) : Prop :=
  ∃ commands, self = { first with commands := commands } ∧ ∀ command, commands.get? command =
    (first.commands.get? command).or
      (if seen.contains command then some first.handleUnknownCommand else none)

theorem remembers_first (first : Listener F) : Remembers first [] first :=
  ⟨first.commands, rfl, fun command => by simp⟩

theorem react_fst (self : Listener F) (message : Message) :
    (react lower self (some message)).1 = Reaction.of (parseMessage lower self message).1 := by
  simp only [react]
  rcases parseMessage lower self message with ⟨e | action, after⟩ <;> rfl

theorem Remembers.fst (h : Remembers first seen self) (update : Option Message) :
    (react lower self update).1 = (react lower first update).1 := by
  obtain ⟨commands, rfl, held⟩ := h
  have handlers (command : Str) : Listener.handlerOf { first with commands := commands } command =
      first.handlerOf command := by
    simp only [Listener.handlerOf, held]
    cases first.commands.get? command with
    | some handler => rfl
    | none => split_ifs <;> rfl
  have parsed (message : Message) : (parseMessage lower { first with commands := commands }
      message).1 = (parseMessage lower first message).1 := by
    simp only [parseMessage_fst, Listener.parseMessage, Listener.dispatch, handlers]
    rfl
  cases update with
  | none => rfl
  | some message => rw [react_fst, react_fst, parsed]

theorem Remembers.snd (h : Remembers first seen self) (update : Option Message) :
    Remembers first (seen ++ (react lower self update).1.handled?.toList)
      (react lower self update).2 := by
  rw [react_snd]
  cases (react lower self update).1.handled? with
  | none =>
    rw [Option.toList_none, List.append_nil]
    exact h
  | some key =>
    obtain ⟨commands, rfl, held⟩ := h
    refine ⟨_, rfl, fun command => ?_⟩
    rw [OrderedDict.get?_getDefault, held, Option.or_assoc]
    congr 1
    simp only [List.contains_iff_mem]
    by_cases old : command ∈ seen
    · rw [if_pos old, if_pos (List.mem_append_left _ old)]
      rfl
    · rw [if_neg old, Option.none_or]
      exact if_congr (by simp [old]) rfl rfl

/-! ## Every update -/

theorem react_run (lower : Str → Str) (first : Listener F) (updates : List (Option Message)) :
    outputs (react lower) first updates = updates.map (fun m => (react lower first m).1) ∧
      Remembers first (updates.filterMap fun m => (react lower first m).1.handled?)
        (run (react lower) first updates) := by
  have from_seen (seen : List Str) (self : Listener F) (h : Remembers first seen self) :
      outputs (react lower) self updates = updates.map (fun m => (react lower first m).1) ∧
        Remembers first (seen ++ updates.filterMap fun m => (react lower first m).1.handled?)
          (run (react lower) self updates) := by
    induction updates generalizing seen self with
    | nil => exact ⟨rfl, by simpa using h⟩
    | cons update updates ih =>
      obtain ⟨answers, remembers⟩ := ih _ _ (h.snd update)
      rw [outputs, List.map_cons, h.fst update, answers]
      refine ⟨rfl, ?_⟩
      rw [run_cons, List.filterMap_cons]
      rw [h.fst update] at remembers
      cases handled : (react lower first update).1.handled? with
      | none => simpa [handled] using remembers
      | some key => simpa [handled, List.append_assoc] using remembers
  simpa using from_seen [] first (remembers_first first)

def taken {n : ℕ} (actions : List (Telegram.Action n (Option Message))) : List (Option Message) :=
  actions.filterMap fun action => action.taken.map fun t => t.2.body

/-- However `recv` and the workers take turns, and whatever reaches the server meanwhile: what the
workers do about the updates they take, and then what they would do about those that wait, is what a
listener that has seen nothing else does about the updates that the server numbered below
`mostrecent`, in order and once each. The commands it then has are those of the beginning and the
unknown ones that were sent to it. -/
theorem updates_answered {n : ℕ} {log : List (Update (Option Message))} (numbered : Numbered log)
    (happenings : List (Delivery.Happening n (Option Message)))
    (serves : Always Delivery.step Delivery.Serves (Delivery.start log) happenings)
    (lower : Str → Str) (self : Listener F) :
    let w := run Delivery.step (Delivery.start log) happenings
    let messages := taken (outputs Delivery.step (Delivery.start log) happenings).flatten
    let reactions := outputs (react lower) self messages
    reactions ++ w.threads.queue.items.map (fun u => (react lower self u.body).1) =
        (w.log.filter fun u => u.updateId < w.threads.mostrecent).map
          (fun u => (react lower self u.body).1) ∧
      ∀ command, (run (react lower) self messages).commands.get? command =
        (self.commands.get? command).or
          (if command ∈ reactions.filterMap Reaction.handled? then some self.handleUnknownCommand
          else none) := by
  intro w messages reactions
  have delivered := (Delivery.run_delivered numbered serves).order
  obtain ⟨answers, commands, same, held⟩ := react_run lower self messages
  have bodies : messages =
      (((outputs Delivery.step (Delivery.start log) happenings).flatten.filterMap
        Telegram.Action.taken).map Prod.snd).map Update.body := by
    simp only [messages, taken, List.map_filterMap]
    congr 1
    funext action
    cases action.taken <;> rfl
  constructor
  · rw [← delivered, List.map_append]
    refine congrArg (· ++ _) ?_
    rw [show reactions = _ from answers, bodies, List.map_map]
    rfl
  · intro command
    have handled : messages.filterMap (fun m => (react lower self m).1.handled?) =
        reactions.filterMap Reaction.handled? := by
      rw [show reactions = _ from answers, List.filterMap_map]
      rfl
    rw [same, ← handled]
    simpa only [List.contains_iff_mem] using held command

theorem updates_answered_start :
    let update : Update (Option Message) := ⟨3, some (commandMessage 1 1 (literal "/start"))⟩
    let happenings : List (Delivery.Happening 2 (Option Message)) :=
      [.next .request, .next (.answer (.parsed ⟨true, none, [update]⟩)), .next (.look 1)]
    let messages := taken (outputs Delivery.step (Delivery.start [update]) happenings).flatten
    ((run (react asciiLower) helpBot messages).commands.get? (literal "/start")).map Handler.func =
      some "handleUnknownCommand" := by
  intro update happenings messages
  have numbered : Numbered [update] := ⟨by simp [OffsetLog.Increasing], by simp [update]⟩
  have answered := (updates_answered numbered happenings
    ⟨trivial, fun _ _ => ⟨[], rfl⟩, trivial, trivial⟩ asciiLower helpBot).2 (literal "/start")
  rw [answered]
  decide

end KhCommon.Telegram.ParseMessage.Answers
