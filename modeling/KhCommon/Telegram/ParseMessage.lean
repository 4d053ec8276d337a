import KhCommon.Lib.Authority
import KhCommon.Lib.OrderedDict
import KhCommon.Lib.Python

/-! `Listener.parseMessage`: which command a message is taken for, and who handles it.
The text is cut at the offset and the length of the entity, which count UTF-16 code
units, while the string is indexed by characters. Only in a chat is the name of a
bot taken off the command. The handlers' parameters are read with `getfullargspec`. -/

namespace KhCommon.Telegram.ParseMessage

open Python Authority Split

/-! ## Messages -/

inductive MessageEntityType
  | mention | hashtag | cashtag | bot_command | url | email | phone_number | bold | italic
  | underline | strikethrough | spoiler | code | pre | text_link | text_mention | custom_emoji
  deriving DecidableEq

/-- Offset and length count UTF-16 code units. -/
structure MessageEntity where
  type : MessageEntityType
  offset : ℤ
  length : ℤ

/-- What `parseMessage` reads of a message; `from_user` is there by its id. -/
structure Message where
  fromUser : Option ℤ
  chat : ℤ
  text : Option Str
  entities : Option (List MessageEntity)

/-! ## Handlers -/

inductive Value
  | int (value : ℤ)
  | bool (value : Bool)
  | message (value : Message)
  | str (value : Str)

abbrev Args := OrderedDict String Value

/-- The parameters that the docstring of `Listener` allows. -/
def messageParams : List String := ["user", "chat", "is_chat", "message"]

def commandParams : List String := messageParams ++ ["text", "command"]

/-- A bound method, by its `getfullargspec`. It has no parameters but those of the list. -/
structure Handler (F : Type) (params : List String) where
  func : F
  args : List String
  kwonlyargs : List String
  varkw : Bool
  documented : ∀ k ∈ args.tail ++ kwonlyargs, k ∈ params

variable {F : Type}

inductive Exc
  | attributeError -- no sender
  | typeError -- no text, or no list of entities
  | keyError (name : String)

/-- How a call ends: nothing is done, a handler of non-commands or of commands runs, or the
response is sent. The key is the one that was looked up. -/
inductive Action (F : Type)
  | ignored
  | nonCommand (func : F) (kwargs : Args)
  | respond (key : Str) (chat : ℤ) (response : Str)
  | handle (key : Str) (func : F) (kwargs : Args)

/-- `{ k: args[k] for k in keys }`. -/
def pick (args : Args) (keys : List String) : Except Exc Args :=
  match keys.find? (· ∉ args) with
  | some k => .error (.keyError k)
  | none => .ok (args.select keys)

def Handler.kwargs {params : List String} (handler : Handler F params) (args : Args) :
    Except Exc Args :=
  if handler.varkw then .ok args else pick args (handler.args.tail ++ handler.kwonlyargs)

/-! ## The listener -/

structure Listener (F : Type) where
  allowChats : Bool
  botName : Option Str
  responses : OrderedDict Str Str
  commands : OrderedDict Str (Handler F commandParams)
  handleNonCommand : Handler F messageParams
  handleUnknownCommand : Handler F commandParams

namespace Listener

/-- `__init__`, as far as it matters here; `lower` is `str.lower`. -/
def init (lower : Str → Str) (allowChats : Bool) (botName : Option Str)
    (responses : OrderedDict Str Str) (commands : OrderedDict Str (Handler F commandParams))
    (handleNonCommand : Handler F messageParams) (handleUnknownCommand : Handler F commandParams) :
    Listener F where
  allowChats := allowChats
  botName :=
    match botName with
    | none => none
    | some name => if name = [] then none else some (lower name)
  responses := responses
  commands := commands
  handleNonCommand := handleNonCommand
  handleUnknownCommand := handleUnknownCommand

variable (lower : Str → Str) (self : Listener F)

def messageArgs (user : ℤ) (message : Message) : Args :=
  (∅ : Args).update [("user", .int user), ("chat", .int message.chat),
    ("is_chat", .bool (user ≠ message.chat)), ("message", .message message)]

def commandArgs (user : ℤ) (message : Message) (text command : Str) : Args :=
  (messageArgs user message).update [("text", .str text), ("command", .str command)]

def cut (text : Str) (entity : MessageEntity) : Str × Str :=
  let «end» := entity.offset + entity.length
  (slice text entity.offset «end», stripSpace (sliceFrom text «end»))

/-- The command without the name of this bot; none when it is not for this bot. -/
def addressed (isChat : Bool) (command : Str) : Option Str :=
  if isChat then
    match command.splitOn atSign with
    | name :: bot :: _ => if some (lower bot) ≠ self.botName then none else some name
    | _ => none
  else some command

/-- `self.commands[command]` of a `defaultdict`. -/
def handlerOf (command : Str) : Handler F commandParams :=
  (self.commands.get? command).getD self.handleUnknownCommand

def dispatch (user : ℤ) (message : Message) (command text : Str) : Except Exc (Action F) :=
  match self.addressed lower (user ≠ message.chat) command with
  | none => .ok .ignored
  | some command =>
    match self.responses.get? command with
    | some response => .ok (.respond command message.chat response)
    | none =>
      let func := self.handlerOf command
      (func.kwargs (commandArgs user message text command)).map (.handle command func.func)

def parseMessage (message : Message) : Except Exc (Action F) :=
  match message.fromUser with
  | none => .error .attributeError
  | some user =>
    if user ≠ message.chat ∧ !self.allowChats then .ok .ignored else
      match message.entities with
      | none => .error .typeError
      | some entities =>
        match entities.find? (·.type = .bot_command) with
        | none => (self.handleNonCommand.kwargs (messageArgs user message)).map
            (.nonCommand self.handleNonCommand.func)
        | some entity =>
          match message.text with
          | none => .error .typeError
          | some text =>
            let (command, text) := cut text entity
            self.dispatch lower user message command text

end Listener

/-! ## Keyword arguments -/

def Action.key? : Action F → Option Str
  | .respond key _ _ => some key
  | .handle key _ _ => some key
  | _ => none

theorem pick_of_mem {args : Args} {keys : List String} (h : ∀ k ∈ keys, k ∈ args) :
    pick args keys = .ok (args.select keys) := by
  have none : keys.find? (· ∉ args) = none :=
    List.find?_eq_none.mpr fun k hk => by simpa using h k hk
  simp only [pick, none]

theorem Handler.kwargs_ok {params : List String} (handler : Handler F params) {args : Args}
    (h : ∀ k ∈ params, k ∈ args) : ∃ kwargs, handler.kwargs args = .ok kwargs ∧
      ∀ k value, kwargs.get? k = some value → args.get? k = some value := by
  unfold Handler.kwargs
  split_ifs
  · exact ⟨args, rfl, fun k value hk => hk⟩
  · refine ⟨_, pick_of_mem fun k hk => h k (handler.documented k hk), fun k value hk => ?_⟩
    rw [OrderedDict.get?_select] at hk
    split_ifs at hk
    exact hk

theorem get?_messageArgs (user : ℤ) (message : Message) (k : String) :
    (Listener.messageArgs user message).get? k =
      List.lookup k [("user", .int user), ("chat", .int message.chat),
        ("is_chat", .bool (user ≠ message.chat)), ("message", .message message)] := by
  rw [Listener.messageArgs, OrderedDict.get?_update (by simp), OrderedDict.get?_empty,
    Option.or_none]

theorem get?_commandArgs (user : ℤ) (message : Message) (text command : Str) (k : String) :
    (Listener.commandArgs user message text command).get? k =
      (List.lookup k [("text", .str text), ("command", .str command)]).or
        ((Listener.messageArgs user message).get? k) := by
  rw [Listener.commandArgs, OrderedDict.get?_update (by simp)]

theorem mem_commandArgs (user : ℤ) (message : Message) (text command : Str) {k : String}
    (h : k ∈ commandParams) : k ∈ Listener.commandArgs user message text command := by
  rw [OrderedDict.mem_iff_get?, get?_commandArgs, get?_messageArgs]
  simp only [commandParams, messageParams, List.cons_append, List.nil_append, List.mem_cons,
    List.not_mem_nil, or_false] at h
  rcases h with rfl | rfl | rfl | rfl | rfl | rfl <;> exact ⟨_, rfl⟩

/-! ## Where the text is cut -/

/-- The first `bot_command` entity is this one, and it covers the command in the text. -/
structure Covers (message : Message) (entity : MessageEntity) (before command after : Str) :
    Prop where
  text : message.text = some (before ++ command ++ after)
  first : ∃ entities, message.entities = some entities ∧
    entities.find? (·.type = .bot_command) = some entity
  offset : entity.offset = (utf16 before).length
  length : entity.length = (utf16 command).length

variable {lower : Str → Str} {self : Listener F} {message : Message} {user : ℤ}
  {entity : MessageEntity} {before command after : Str}

theorem Covers.cut_eq (h : Covers message entity before command after) :
    Listener.cut (before ++ command ++ after) entity =
      (((command ++ after).drop (before.countP astral)).take
          (command.length + command.countP astral),
        stripSpace (after.drop (before.countP astral + command.countP astral))) := by
  have start : position (before ++ command ++ after) entity.offset =
      before.length + before.countP astral := by
    rw [position, if_neg (by rw [h.offset]; omega), h.offset, length_utf16, Int.toNat_natCast]
  have stop : position (before ++ command ++ after) (entity.offset + entity.length) =
      before.length + (command.length + (before.countP astral + command.countP astral)) := by
    rw [position, if_neg (by rw [h.offset, h.length]; omega), h.offset, h.length, length_utf16,
      length_utf16]
    omega
  have regroup : before.length + (command.length + (before.countP astral + command.countP astral)) =
      (before.length + before.countP astral) + (command.length + command.countP astral) := by
    omega
  simp only [Listener.cut, slice, sliceFrom, start, stop]
  congr 1
  · rw [regroup, List.drop_take, Nat.add_sub_cancel_left, List.append_assoc,
      List.drop_length_add_append]
  · rw [List.append_assoc, List.drop_length_add_append, List.drop_length_add_append]

theorem parseMessage_of_covers (sender : message.fromUser = some user)
    (heard : user = message.chat ∨ self.allowChats = true)
    (h : Covers message entity before command after) :
    self.parseMessage lower message = self.dispatch lower user message
      (Listener.cut (before ++ command ++ after) entity).1
      (Listener.cut (before ++ command ++ after) entity).2 := by
  obtain ⟨entities, given, first⟩ := h.first
  have goes_on : ¬(user ≠ message.chat ∧ !self.allowChats) := by
    rcases heard with same | allowed
    · exact fun out => out.1 same
    · simp [allowed]
  simp only [Listener.parseMessage, sender, if_neg goes_on, given, first, h.text]

/-! ## What runs -/

theorem addressed_direct (lower : Str → Str) (self : Listener F) (same : user = message.chat)
    (command : Str) : self.addressed lower (user ≠ message.chat) command = some command := by
  simp [Listener.addressed, same]

theorem dispatch_runs (text : Str) {key : Str}
    (h : self.addressed lower (user ≠ message.chat) command = some key) :
    ∃ action, self.dispatch lower user message command text = .ok action ∧
      action.key? = some key ∧ ∀ func kwargs value, action = .handle key func kwargs →
        kwargs.get? "command" = some value → value = .str key := by
  simp only [Listener.dispatch, h]
  cases self.responses.get? key with
  | some response =>
    refine ⟨_, rfl, rfl, ?_⟩
    rintro func kwargs value ⟨⟩
  | none =>
    obtain ⟨kwargs, hrun, values⟩ := (self.handlerOf key).kwargs_ok
      (fun k hk => mem_commandArgs user message text key hk)
    refine ⟨.handle key (self.handlerOf key).func kwargs, by simp only [hrun, Except.map], rfl, ?_⟩
    rintro func _ value ⟨⟩ given
    have told := values "command" value given
    rw [get?_commandArgs] at told
    exact (Option.some.inj told).symm

/-! ## The cut against the entity -/

theorem solid_of_blank (h : ∀ x ∈ command, isSpace x) : command.countP astral = 0 :=
  List.countP_eq_zero.mpr fun x hx => by simp [astral_of_isSpace (h x hx)]

def CutRight (entity : MessageEntity) (before command after : Str) : Prop :=
  Listener.cut (before ++ command ++ after) entity = (command, stripSpace after)

/-- Nothing outside the basic plane stands before the command, nor in it unless it ends the
text. -/
def Plain (before command after : Str) : Prop :=
  (∀ c ∈ before, ¬astral c) ∧ ((∀ c ∈ command, ¬astral c) ∨ after = [])

/-- The command is found again among blanks that follow, which it then consists of itself. -/
def AmongBlanks (before command after : Str) : Prop :=
  (∀ c ∈ (command ++ after).take (command.length + before.countP astral), isSpace c) ∧
    ((command ++ after).drop (before.countP astral)).take command.length = command

theorem cutRight_iff (h : Covers message entity before command after) :
    CutRight entity before command after ↔
      Plain before command after ∨ AmongBlanks before command after := by
  rw [CutRight, h.cut_eq, Prod.mk.injEq, stripSpace, stripSpace,
    Trim.shifted_iff solid_of_blank, List.countP_eq_zero, List.countP_eq_zero]
  rfl

/-- In a message that is heard, the command and the text that are dispatched are those the entity
marks exactly if all is plain, unless the command is blank. -/
theorem parseMessage_cutRight_iff (lower : Str → Str) (self : Listener F)
    (sender : message.fromUser = some user)
    (heard : user = message.chat ∨ self.allowChats = true)
    (h : Covers message entity before command after) :
    (self.parseMessage lower message = self.dispatch lower user message
        (Listener.cut (before ++ command ++ after) entity).1
        (Listener.cut (before ++ command ++ after) entity).2) ∧
      (CutRight entity before command after ↔
        Plain before command after ∨ AmongBlanks before command after) ∧
      ((∃ c ∈ command, ¬isSpace c) →
        (CutRight entity before command after ↔ Plain before command after)) := by
  refine ⟨parseMessage_of_covers sender heard h, cutRight_iff h, ?_⟩
  rintro ⟨c, mem, solid⟩
  rw [cutRight_iff h]
  refine or_iff_left fun blanks => solid (blanks.1 c ?_)
  rw [List.take_length_add_append]
  exact List.mem_append_left _ mem

def takesAll (func : String) {params : List String} : Handler String params :=
  ⟨func, ["self"], [], true, nofun⟩

def asciiLower (s : Str) : Str :=
  s.map fun c => if h : 65 ≤ c.val ∧ c.val ≤ 90 then ⟨c.val + 32, by omega⟩ else c

def helpResponses : OrderedDict Str Str :=
  (∅ : OrderedDict Str Str).assign (literal "/help") (literal "ask me")

def helpBot : Listener String :=
  .init asciiLower true (some (literal "test")) helpResponses ∅ (takesAll "handleNonCommand")
    (takesAll "handleUnknownCommand")

theorem parseMessage_cutRight_iff_help :
    CutRight ⟨.bot_command, 0, 5⟩ [] (literal "/help") (literal " me") := by
  let message : Message := ⟨some 1, 1, some (literal "/help me"), some [⟨.bot_command, 0, 5⟩]⟩
  have covers : Covers message ⟨.bot_command, 0, 5⟩ [] (literal "/help") (literal " me") :=
    ⟨by decide, ⟨_, rfl, rfl⟩, rfl, by decide⟩
  have cut := (parseMessage_cutRight_iff asciiLower helpBot rfl (.inl rfl) covers).2.2
    ⟨_, List.mem_cons_self, by decide⟩
  exact cut.mpr ⟨nofun, .inl (List.countP_eq_zero.mp (by decide))⟩

/-- Behind an emoji, `/help` is looked up as `help`. -/
theorem parseMessage_not_cutRight :
    ¬ ∀ (self : Listener String) (message : Message) (user : ℤ) (entity : MessageEntity)
      (before command after : Str), message.fromUser = some user → user = message.chat →
      Covers message entity before command after →
        self.parseMessage asciiLower message =
          self.dispatch asciiLower user message command (stripSpace after) := by
  intro all
  let entity : MessageEntity := ⟨.bot_command, 2, 5⟩
  let emoji : Str := [.ofChar (Char.ofNat 0x1F600)]
  let message : Message := ⟨some 1, 1, some (emoji ++ literal "/help" ++ []), some [entity]⟩
  have covers : Covers message entity emoji (literal "/help") [] :=
    ⟨rfl, ⟨_, rfl, rfl⟩, by decide, by decide⟩
  have same := all helpBot message 1 entity emoji (literal "/help") [] rfl rfl covers
  rw [parseMessage_of_covers rfl (.inl rfl) covers] at same
  obtain ⟨action, parsed, key, -⟩ := dispatch_runs
    (Listener.cut (emoji ++ literal "/help" ++ []) entity).2 (addressed_direct asciiLower helpBot
      (show 1 = message.chat from rfl) (Listener.cut (emoji ++ literal "/help" ++ []) entity).1)
  obtain ⟨action', meant, key', -⟩ := dispatch_runs (stripSpace [])
    (addressed_direct asciiLower helpBot (show 1 = message.chat from rfl) (literal "/help"))
  rw [parsed, meant] at same
  cases same
  rw [key] at key'
  exact absurd key' (by decide)

/-! ## Whom a command is for -/

def written (name : Str) : (bot : Option Str) → Str
  | none => name
  | some bot => name ++ atSign :: bot

def Names (lower : Str → Str) (bot botName : Option Str) : Prop :=
  ∃ n b, bot = some n ∧ botName = some b ∧ lower n = lower b

/-- In a chat something runs only for this bot and if chats are allowed, in a direct message it
does without a bot as well, and what runs is looked up and told by the bare command. -/
structure Routed (lower : Str → Str) (allowChats : Bool) (botName : Option Str) (isChat : Bool)
    (name : Str) (bot : Option Str) (answer : Except Exc (Action F)) : Prop where
  chat : isChat = true → ∀ action key, answer = .ok action → action.key? = some key →
    allowChats = true ∧ Names lower bot botName
  direct : isChat = false → bot = none ∨ Names lower bot botName →
    ∃ action key, answer = .ok action ∧ action.key? = some key
  bare : ∀ action key, answer = .ok action → action.key? = some key → key = name ∧
    ∀ func kwargs value, action = .handle key func kwargs → kwargs.get? "command" = some value →
      value = .str name

variable {allowChats : Bool} {botName bot : Option Str} {name : Str} {isChat : Bool}

theorem addressed_chat {key : Str} (hname : atSign ∉ name) (hbot : ∀ n ∈ bot, atSign ∉ n)
    (h : self.addressed lower true (written name bot) = some key) :
    key = name ∧ ∃ n, bot = some n ∧ self.botName = some (lower n) := by
  cases bot with
  | none =>
    simp [Listener.addressed, written, splitOn_of_not_mem hname] at h
  | some n =>
    have pieces : (name ++ atSign :: n).splitOn atSign = [name, n] := by
      rw [splitOn_append_cons hname, splitOn_of_not_mem (hbot n rfl)]
    simp only [Listener.addressed, written, pieces, if_true] at h
    split_ifs at h with other
    rw [not_not] at other
    cases h
    exact ⟨rfl, n, rfl, other.symm⟩

theorem names_of_botName {responses : OrderedDict Str Str}
    {commands : OrderedDict Str (Handler F commandParams)} {nonCommand : Handler F messageParams}
    {unknown : Handler F commandParams} {n : Str} (h : (Listener.init lower allowChats botName
      responses commands nonCommand unknown).botName = some (lower n)) :
    Names lower (some n) botName := by
  cases botName with
  | none => cases h
  | some b =>
    simp only [Listener.init] at h
    split_ifs at h
    exact ⟨n, b, rfl, rfl, (Option.some.inj h).symm⟩

theorem routed_ignored : Routed lower allowChats botName true name bot
    (.ok .ignored : Except Exc (Action F)) where
  chat := by
    rintro - _ key ⟨⟩ none
    cases none
  direct := nofun
  bare := by
    rintro _ key ⟨⟩ none
    cases none

theorem routed_of_runs {answer : Except Exc (Action F)} {action : Action F}
    (runs : answer = .ok action) (key : action.key? = some name)
    (told : ∀ func kwargs value, action = .handle name func kwargs →
      kwargs.get? "command" = some value → value = .str name)
    (chat : isChat = true → allowChats = true ∧ Names lower bot botName) :
    Routed lower allowChats botName isChat name bot answer := by
  subst runs
  refine ⟨fun inChat _ _ _ _ => chat inChat, fun _ _ => ⟨action, name, rfl, key⟩, ?_⟩
  rintro _ key' ⟨⟩ hkey
  rw [key] at hkey
  cases hkey
  exact ⟨rfl, told⟩

theorem written_eq_iff : written name bot = name ↔ bot = none := by
  cases bot with
  | none => simp [written]
  | some n => simp [written]

theorem parseMessage_of_ascii (lower : Str → Str) (self : Listener F)
    (sender : message.fromUser = some user)
    (heard : user = message.chat ∨ self.allowChats = true)
    (h : Covers message entity before command after)
    (ascii : ∀ c ∈ before ++ command ++ after, c.val < 128) :
    self.parseMessage lower message =
      self.dispatch lower user message command (stripSpace after) := by
  have plain : Plain before command after := by
    have basic (c) (hc : c ∈ before ++ command ++ after) : ¬astral c := by
      have := ascii c hc
      simp only [astral, decide_eq_true_eq]
      omega
    exact ⟨fun c hc => basic c (by simp [hc]), .inl fun c hc => basic c (by simp [hc])⟩
  rw [parseMessage_of_covers sender heard h, (cutRight_iff h).mpr (.inl plain)]

/-- An ASCII message with a command is routed as it should be, exactly if it is not a direct
message whose command names a bot: in that case the name is taken for a part of the command. -/
theorem parseMessage_routed_iff (lower : Str → Str) (allowChats : Bool) (botName : Option Str)
    (responses : OrderedDict Str Str) (commands : OrderedDict Str (Handler F commandParams))
    (nonCommand : Handler F messageParams) (unknown : Handler F commandParams)
    (sender : message.fromUser = some user)
    (covers : Covers message entity before (written name bot) after)
    (ascii : ∀ c ∈ before ++ written name bot ++ after, c.val < 128)
    (bare : atSign ∉ name) (bareBot : ∀ n ∈ bot, atSign ∉ n) :
    Routed lower allowChats botName (user ≠ message.chat) name bot
        ((Listener.init lower allowChats botName responses commands nonCommand
          unknown).parseMessage lower message) ↔
      user ≠ message.chat ∨ bot = none := by
  set self := Listener.init lower allowChats botName responses commands nonCommand unknown
  by_cases direct : user = message.chat
  · rw [parseMessage_of_ascii lower self sender (.inl direct) covers ascii]
    obtain ⟨action, runs, key, told⟩ := dispatch_runs (stripSpace after)
      (addressed_direct lower self direct (written name bot))
    constructor
    · intro routed
      exact .inr (written_eq_iff.mp (routed.bare action _ runs key).1)
    · rintro (other | none)
      · exact absurd direct other
      · rw [written_eq_iff.mpr none] at key told
        exact routed_of_runs runs key told fun inChat => by simp [direct] at inChat
  · refine iff_of_true ?_ (.inl direct)
    have inChat : decide (user ≠ message.chat) = true := decide_eq_true direct
    by_cases allowed : allowChats
    · rw [parseMessage_of_ascii lower self sender (.inr allowed) covers ascii]
      cases addressed : self.addressed lower (user ≠ message.chat) (written name bot) with
      | none =>
        simp only [Listener.dispatch, addressed]
        rw [inChat]
        exact routed_ignored
      | some key =>
        obtain ⟨action, runs, hkey, told⟩ := dispatch_runs (stripSpace after) addressed
        rw [inChat] at addressed
        obtain ⟨rfl, n, rfl, named⟩ := addressed_chat bare bareBot addressed
        exact routed_of_runs runs hkey told fun _ => ⟨allowed, names_of_botName named⟩
    · have ignored : self.parseMessage lower message = .ok .ignored := by
        simp [Listener.parseMessage, sender, direct, self, Listener.init, allowed]
      rw [ignored, inChat]
      exact routed_ignored

def commandMessage (user chat : ℤ) (command : Str) : Message :=
  ⟨some user, chat, some command, some [⟨.bot_command, 0, (utf16 command).length⟩]⟩

theorem covers_all (user chat : ℤ) (command : Str) : Covers (commandMessage user chat command)
    ⟨.bot_command, 0, (utf16 command).length⟩ [] command [] :=
  ⟨by simp [commandMessage], ⟨_, rfl, rfl⟩, rfl, rfl⟩

theorem ascii_of_all {command : Str} (h : command.all fun c => c.val < 128) :
    ∀ c ∈ [] ++ command ++ [], c.val < 128 := by
  simpa using h

theorem parseMessage_routed_iff_chat :
    let name := literal "/help"
    let bot := some (literal "TEST")
    Routed asciiLower true (some (literal "test")) true name bot
      (helpBot.parseMessage asciiLower (commandMessage 1 2 (written name bot))) := by
  intro name bot
  have covers := covers_all 1 2 (written name bot)
  have routed := parseMessage_routed_iff asciiLower true (some (literal "test")) helpResponses ∅
    (takesAll "handleNonCommand") (takesAll "handleUnknownCommand") rfl covers
    (ascii_of_all (by decide)) (by decide) (by decide)
  exact routed.mpr (.inl (by decide))

/-- In a direct message `/help@test` is looked up as it stands. -/
theorem parseMessage_not_routed :
    ¬ ∀ (allowChats : Bool) (botName : Option Str) (responses : OrderedDict Str Str)
      (commands : OrderedDict Str (Handler String commandParams))
      (nonCommand : Handler String messageParams) (unknown : Handler String commandParams)
      (message : Message) (user : ℤ) (entity : MessageEntity) (before name after : Str)
      (bot : Option Str), message.fromUser = some user →
      Covers message entity before (written name bot) after →
      (∀ c ∈ before ++ written name bot ++ after, c.val < 128) →
      atSign ∉ name → (∀ n ∈ bot, atSign ∉ n) →
        Routed asciiLower allowChats botName (user ≠ message.chat) name bot
          ((Listener.init asciiLower allowChats botName responses commands nonCommand
            unknown).parseMessage asciiLower message) := by
  intro all
  let name := literal "/help"
  let bot := some (literal "test")
  have covers := covers_all 1 1 (written name bot)
  have ascii : ∀ c ∈ [] ++ written name bot ++ [], c.val < 128 :=
    ascii_of_all (by decide)
  have routed := all true (some (literal "test")) helpResponses ∅ (takesAll "handleNonCommand")
    (takesAll "handleUnknownCommand") _ 1 _ [] name [] bot rfl covers ascii (by decide)
    (by decide)
  obtain ⟨action, runs, key, -⟩ := dispatch_runs (stripSpace [])
    (addressed_direct asciiLower helpBot
      (show 1 = (commandMessage 1 1 (written name bot)).chat from rfl) (written name bot))
  have whole := parseMessage_of_ascii asciiLower helpBot rfl (.inl rfl) covers ascii
  have bare := (routed.bare action _ (whole.trans runs) key).1
  exact absurd bare (by decide)

end KhCommon.Telegram.ParseMessage
