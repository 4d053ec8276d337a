import KhCommon.Exceptions.HttpError

/-! Wrapped functions that call one another, and `jsonErrorHandler` at the end: whatever is
raised, the logging agent is handed at most one entry, and the reference in the answer is
the one of that entry, unless the words of the answer were chosen by somebody. Neither
the text of an exception that is no `BaseError` nor an excluded argument has any
influence on the answer. -/

namespace KhCommon.Exceptions

open Python JsonStream Outcome

variable (py : Interpreter)

abbrev Layer := HttpErrorHandler × Call

def through : List Layer → Raised → Handled
  | [], e => (e, [])
  | (handler, call) :: outer, e =>
    let (e, logged) := handler.handle py call e
    let (e, later) := through outer e
    (e, logged ++ later)

/-- The handler is one for `Exception`: what is none is not answered. -/
def answer (layers : List Layer) (fresh : Uuid) (e : Raised) :
    Option (Except Exc Response) × List Entry :=
  let (e, logged) := through py layers e
  if e.cls.isSubclass exceptionClass then
    let (response, later) := jsonErrorHandler py fresh e
    (some response, logged ++ later)
  else (none, logged)

/-- `f'{cls.__name__}: {message}'`. -/
def worded (cls : Class) (message : Str) : Str := literal cls.name.name ++ literal ": " ++ message

/-- The program chose these words: they were raised as a `BaseError`, or a wrapper has them. -/
def Chosen (layers : List Layer) (e : Raised) (cls : Class) (message : Str) : Prop :=
  (e.cls.isSubclass baseErrorClass ∧ cls = e.cls ∧ message = e.text) ∨
    ∃ layer ∈ layers, ∃ name, layer.1.handlers.get? name = some (cls, message)

def Refers (entry : Entry) (refid : Str) : Prop := entry.get? refidKey = some (.str refid)

/-- The agent was given an entry with this reference, and this is what it wrote. -/
def LoggedAs (refid : Str) (logged : List Entry) : Prop :=
  ∃ entry, Refers entry refid ∧ logged = if py.logStruct entry then [entry] else []

/-! ## One wrapper -/

variable {py} {e : Raised} {call : Call} {entry : Entry}

theorem streamValues_cons {key : Str} {value : Item} {entries out : List (Str × Item)} :
    streamValues py ((key, value) :: entries) = .ok out ↔ ∃ shown, stream py value = .ok shown ∧
      ∃ rest, streamValues py entries = .ok rest ∧ (key, shown) :: rest = out := by
  rw [streamValues, returns_bind]
  refine exists_congr fun shown => and_congr_right fun _ => ?_
  rw [returns_bind]
  exact exists_congr fun rest => and_congr_right fun _ => ⟨Except.ok.inj, congrArg Except.ok⟩

theorem streamValues_keys {entries out : List (Str × Item)}
    (h : streamValues py entries = .ok out) : out.map Prod.fst = entries.map Prod.fst := by
  induction entries generalizing out with
  | nil =>
    obtain rfl : [] = out := Except.ok.inj h
    rfl
  | cons first entries ih =>
    obtain ⟨value, -, rest, later, rfl⟩ := streamValues_cons.mp h
    rw [List.map_cons, List.map_cons, ih later]

theorem streamValues_str {entries out : List (Str × Item)} {key s : Str}
    (h : streamValues py entries = .ok out) (named : (key, Item.str s) ∈ entries) :
    (key, Item.str s) ∈ out := by
  induction entries generalizing out with
  | nil => simp at named
  | cons first entries ih =>
    obtain ⟨value, here, rest, later, rfl⟩ := streamValues_cons.mp h
    rcases List.mem_cons.mp named with rfl | named
    · obtain rfl : Item.str s = value := Except.ok.inj here
      exact List.mem_cons_self
    · exact List.mem_cons_of_mem _ (ih later named)

theorem errorinfo_refers {msg : List (Str × Item)} {refid : Str}
    (made : errorinfo py msg e = .ok entry) (distinct : (msg.map Prod.fst).Nodup)
    (named : (refidKey, Item.str refid) ∈ msg) : Refers entry refid := by
  obtain ⟨_, _, afterRefid⟩ := returns_bind.mp made
  obtain ⟨_, _, afterLogdata⟩ := returns_bind.mp afterRefid
  obtain ⟨shown, streamed, returned⟩ := returns_bind.mp afterLogdata
  rw [← streamValues_keys streamed] at distinct
  have found := (OrderedDict.lookup_eq_some_iff distinct).mpr (streamValues_str streamed named)
  rw [← Except.ok.inj returned, Refers, OrderedDict.get?_update distinct, found]
  rfl

theorem emit_loggedAs {msg : List (Str × Item)} {refid : Str} {logged : List Entry}
    (emitted : emit py msg e = .ok logged) (distinct : (msg.map Prod.fst).Nodup)
    (named : (refidKey, Item.str refid) ∈ msg) : LoggedAs py refid logged := by
  unfold emit at emitted
  cases made : errorinfo py msg e with
  | error exc =>
    rw [made] at emitted
    cases emitted
  | ok entry =>
    rw [made] at emitted
    exact ⟨entry, errorinfo_refers made distinct named, (Except.ok.inj emitted).symm⟩

theorem LoggedAs.length_le {refid : Str} {logged : List Entry} (h : LoggedAs py refid logged) :
    logged.length ≤ 1 := by
  obtain ⟨entry, -, rfl⟩ := h
  split <;> simp

theorem init_hex (u fresh : Uuid) (logdata : LogData) :
    (init (.str u.hex) logdata [] fresh).1 = .ok (.uuid u, logdata.erase refidKey) := by
  have some_digits : u.hex ≠ [] := by
    intro none
    have length := u.length
    simp [none] at length
  simp [init, choose, Given.isTruthy, some_digits, normalise, u.length, Uuid.ofHex?_hex,
    OrderedDict.update]

variable (py) in
/-- What an exception is on its way out: one of nobody's or of chosen words and nothing logged, or
one that carries the reference of the only entry. -/
inductive Traced (chosen : Class → Str → Prop) : Handled → Prop
  | silent {e : Raised} (words : e.cls.isSubclass baseErrorClass → chosen e.cls e.text) :
    Traced chosen (e, [])
  | logged {e : Raised} {entries : List Entry} {u : Uuid} {logdata : LogData}
    (http : e.cls.isSubclass httpErrorClass) (carries : e.base = some (.uuid u, logdata))
    (refers : LoggedAs py u.hex entries) : Traced chosen (e, entries)

theorem raised_silent {chosen : Class → Str → Prop} (exc : Exc) :
    Traced py chosen (py.raised exc, []) :=
  .silent fun isBase => by simp [Interpreter.raised, exc.not_baseError] at isBase

theorem raiseLogged_traced {chosen : Class → Str → Prop} (handler : HttpErrorHandler)
    {cls : Class} (message : Str) (isBase : cls.isSubclass baseErrorClass)
    (http : cls.isSubclass httpErrorClass) {logged : List Entry}
    (refers : LoggedAs py call.uuid.hex logged) :
    Traced py chosen (handler.raiseLogged py cls message call isBase, logged) := by
  have carried : (handler.raiseLogged py cls message call isBase).base =
      some (.uuid call.uuid, (handler.params call).erase refidKey) := by
    simp only [HttpErrorHandler.raiseLogged, init_hex]
  have same : (handler.raiseLogged py cls message call isBase).cls = cls := by
    simp only [HttpErrorHandler.raiseLogged, init_hex]
  exact .logged (by rw [same]; exact http) carried refers

theorem handle_traced {chosen : Class → Str → Prop} (handler : HttpErrorHandler) (call : Call)
    (words : e.cls.isSubclass baseErrorClass → chosen e.cls e.text)
    (custom : ∀ name cls message, handler.handlers.get? name = some (cls, message) →
      chosen cls message) : Traced py chosen (handler.handle py call e) := by
  unfold HttpErrorHandler.handle
  split
  · exact .silent words
  split
  · exact .silent words
  split
  · case h_1 cls message found =>
    obtain ⟨name, -, mapped⟩ := List.exists_of_findSome?_eq_some found
    exact .silent fun _ => custom name cls message mapped
  · dsimp only
    split
    · exact raised_silent _
    · case h_2 logged emitted =>
      have refers : LoggedAs py call.uuid.hex logged := by
        refine emit_loggedAs emitted ?_ (by simp)
        change [literal "params", refidKey].Nodup
        decide
      split
      · exact raiseLogged_traced handler _ _ (by decide) refers
      · exact raiseLogged_traced handler _ _ (by decide) refers

theorem handle_of_http (handler : HttpErrorHandler) (call : Call)
    (http : e.cls.isSubclass httpErrorClass) : handler.handle py call e = (e, []) := if_pos http

theorem through_of_http (layers : List Layer) (http : e.cls.isSubclass httpErrorClass) :
    through py layers e = (e, []) := by
  induction layers with
  | nil => rfl
  | cons layer layers ih =>
    rw [through, handle_of_http layer.1 layer.2 http]
    dsimp only
    rw [ih]
    rfl

theorem through_traced {chosen : Class → Str → Prop} {layers : List Layer}
    (words : e.cls.isSubclass baseErrorClass → chosen e.cls e.text)
    (custom : ∀ layer ∈ layers, ∀ name cls message,
      layer.1.handlers.get? name = some (cls, message) → chosen cls message) :
    Traced py chosen (through py layers e) := by
  induction layers generalizing e with
  | nil => exact .silent words
  | cons layer layers ih =>
    rw [List.forall_mem_cons] at custom
    have here : Traced py chosen (layer.1.handle py layer.2 e) :=
      handle_traced layer.1 layer.2 words custom.1
    rw [through]
    generalize layer.1.handle py layer.2 e = handled at here
    cases here with
    | silent words => simpa using ih words custom.2
    | logged http carries refers =>
      dsimp only
      rw [through_of_http layers http, List.append_nil]
      exact .logged http carries refers

theorem jsonErrorHandler_traced (py : Interpreter) {chosen : Class → Str → Prop}
    {entries : List Entry} (h : Traced py chosen (e, entries)) (fresh : Uuid) :
    (entries ++ (jsonErrorHandler py fresh e).2).length ≤ 1 ∧
    ∀ response, (jsonErrorHandler py fresh e).1 = .ok response →
      LoggedAs py response.refid (entries ++ (jsonErrorHandler py fresh e).2) ∨
      (entries ++ (jsonErrorHandler py fresh e).2 = [] ∧ ∃ cls message, chosen cls message ∧
        response.error = worded cls message) := by
  cases h with
  | logged http carries refers =>
    rename_i u logdata
    have told : jsonErrorHandler py fresh e =
        (.ok ⟨e.status.getD 500, u.hex, worded e.cls e.text⟩, []) := by
      simp only [jsonErrorHandler, carries]
      rfl
    rw [told, List.append_nil]
    refine ⟨refers.length_le, fun response same => .inl ?_⟩
    rw [← Except.ok.inj same]
    exact refers
  | silent words =>
    have known := e.known
    rw [List.nil_append]
    unfold jsonErrorHandler
    split
    · exact ⟨Nat.zero_le 1, by simp⟩
    · case h_2 u logdata carried =>
      refine ⟨Nat.zero_le 1, fun response same => .inr ⟨rfl, e.cls, e.text, ?_, ?_⟩⟩
      · rw [carried] at known
        exact words known.symm
      · rw [← Except.ok.inj same]
        rfl
    · dsimp only
      split
      · split
        · exact ⟨Nat.zero_le 1, by simp⟩
        · case h_2 logged emitted =>
          have refers : LoggedAs py fresh.hex logged := by
            refine emit_loggedAs emitted ?_ (by simp)
            change [literal "status", refidKey, literal "error"].Nodup
            decide
          refine ⟨refers.length_le, fun response same => .inl ?_⟩
          rw [← Except.ok.inj same]
          exact refers
      · split
        · exact ⟨Nat.zero_le 1, by simp⟩
        · case h_2 logged emitted =>
          have refers : LoggedAs py fresh.hex logged := by
            refine emit_loggedAs emitted ?_ (by simp)
            change [literal "status", refidKey].Nodup
            decide
          refine ⟨refers.length_le, fun response same => .inl ?_⟩
          rw [← Except.ok.inj same]
          exact refers

/-! ## What the agent is handed -/

variable (py) in
/-- The same with an agent that writes whatever it is handed. -/
def Interpreter.writing : Interpreter := { py with logStruct := fun _ => true }

variable (py) in
/-- What the agent is handed: an agent that writes everything would write it. -/
def handed (layers : List Layer) (fresh : Uuid) (e : Raised) : List Entry :=
  (answer py.writing layers fresh e).2

variable (py) in
/-- The agent writes only some of what it is handed; nothing else depends on it. -/
def written {α : Type} (out : α × List Entry) : α × List Entry :=
  (out.1, out.2.filter py.logStruct)

theorem streamValues_writing (entries : List (Str × Item)) :
    streamValues py.writing entries = streamValues py entries := by
  induction entries with
  | nil => rfl
  | cons first entries ih =>
    have same : stream py.writing first.2 = stream py first.2 := rfl
    rw [streamValues, streamValues, same, ih]

theorem emit_writing (msg : List (Str × Item)) (e : Raised) :
    emit py msg e = (emit py.writing msg e).map (List.filter py.logStruct) := by
  have same : errorinfo py.writing msg e = errorinfo py msg e := by
    simp only [errorinfo, streamValues_writing]
  unfold emit
  rw [same]
  cases errorinfo py msg e with
  | error exc => rfl
  | ok entry => cases h : py.logStruct entry <;> simp [Except.map, Interpreter.writing, h]

theorem handle_writing (handler : HttpErrorHandler) (call : Call) (e : Raised) :
    handler.handle py call e = written py (handler.handle py.writing call e) := by
  unfold HttpErrorHandler.handle
  split
  · rfl
  split
  · rfl
  split
  · rfl
  · dsimp only
    rw [emit_writing]
    cases emit py.writing _ e with
    | error exc => rfl
    | ok logged =>
      simp only [Except.map]
      split <;> rfl

theorem through_writing (layers : List Layer) (e : Raised) :
    through py layers e = written py (through py.writing layers e) := by
  induction layers generalizing e with
  | nil => rfl
  | cons layer layers ih =>
    rw [through, through, handle_writing]
    dsimp only [written]
    rw [ih]
    simp [written]

theorem jsonErrorHandler_writing (fresh : Uuid) (e : Raised) :
    jsonErrorHandler py fresh e = written py (jsonErrorHandler py.writing fresh e) := by
  unfold jsonErrorHandler
  dsimp only
  split
  · rfl
  · rfl
  split
  all_goals
    rw [emit_writing]
    cases emit py.writing _ e <;> rfl

theorem answer_writing (layers : List Layer) (fresh : Uuid) (e : Raised) :
    answer py layers fresh e = written py (answer py.writing layers fresh e) := by
  unfold answer
  rw [through_writing]
  dsimp only [written]
  split
  · rw [jsonErrorHandler_writing]
    simp [written]
  · rfl

/-- Whatever is raised and however many wrappers there are, the agent is handed at most one entry,
and what it writes of it is the log. The entry has the reference that the client is given; or there
is none, and the words of the answer were chosen by the program. -/
theorem answer_traced (layers : List Layer) (fresh : Uuid) (e : Raised) :
    (answer py layers fresh e).2 = (handed py layers fresh e).filter py.logStruct ∧
    (handed py layers fresh e).length ≤ 1 ∧
    ∀ response, (answer py layers fresh e).1 = some (.ok response) →
      (∃ entry, handed py layers fresh e = [entry] ∧ Refers entry response.refid) ∨
      (handed py layers fresh e = [] ∧
        ∃ cls message, Chosen layers e cls message ∧ response.error = worded cls message) := by
  have traced : Traced py.writing (Chosen layers e) (through py.writing layers e) :=
    through_traced (fun isBase => .inl ⟨isBase, rfl, rfl⟩)
      fun layer mem name cls message mapped => .inr ⟨layer, mem, name, mapped⟩
  rw [answer_writing]
  refine ⟨rfl, ?_⟩
  unfold written handed answer
  generalize through py.writing layers e = out at traced ⊢
  obtain ⟨raised, entries⟩ := out
  dsimp only
  split
  · obtain ⟨one, told⟩ := jsonErrorHandler_traced py.writing traced fresh
    refine ⟨one, fun response same => ?_⟩
    rcases told response (Option.some.inj same) with ⟨entry, refers, logged⟩ | silent
    · exact .inl ⟨entry, logged, refers⟩
    · exact .inr silent
  · refine ⟨?_, by simp⟩
    cases traced with
    | silent => exact Nat.zero_le 1
    | logged http carries refers => exact refers.length_le

end KhCommon.Exceptions
