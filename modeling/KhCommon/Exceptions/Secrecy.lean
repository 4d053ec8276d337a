import KhCommon.Exceptions.Chain

/-! What must not get out: the arguments that a wrapper excludes have no influence on what
is logged or answered, and the text and the stack trace of an exception that is no
`BaseError` have none on the answer. -/

namespace KhCommon.Exceptions

open Python JsonStream Outcome

variable {py : Interpreter}

abbrev Agree (excluded : List Str) : List (Str × Item) → List (Str × Item) → Prop :=
  List.Forall₂ fun x y => x.1 = y.1 ∧ (x.1 ∉ excluded → x.2 = y.2)

structure SameOutside (handler : HttpErrorHandler) (call call' : Call) : Prop where
  uuid : call.uuid = call'.uuid
  kwargs : Agree handler.exclusions call.kwargs.items call'.kwargs.items
  args : Agree handler.exclusions (handler.args.zip call.args) (handler.args.zip call'.args)

structure SameKind (e e' : Raised) : Prop where
  cls : e.cls = e'.cls
  status : e.status = e'.status
  base : e.base = none
  base' : e'.base = none

/-! ## Excluded arguments -/

variable {excluded : List Str} {xs ys : List (Str × Item)}

theorem Agree.keys (h : Agree excluded xs ys) : xs.map Prod.fst = ys.map Prod.fst := by
  induction h with
  | nil => rfl
  | cons here _ ih => rw [List.map_cons, List.map_cons, here.1, ih]

theorem Agree.filter (h : Agree excluded xs ys) :
    xs.filter (fun x => !excluded.contains x.1) = ys.filter fun y => !excluded.contains y.1 := by
  induction h with
  | nil => rfl
  | @cons x y xs ys here _ ih =>
    obtain ⟨key, value⟩ := here
    by_cases out : x.1 ∈ excluded
    · rw [List.filter_cons_of_neg (by simpa using out),
        List.filter_cons_of_neg (by simpa [← key] using out), ih]
    · have same : x = y := Prod.ext key (value out)
      rw [← same, List.filter_cons_of_pos (by simpa using out),
        List.filter_cons_of_pos (by simpa using out), ih]

theorem Agree.assign {d d' : OrderedDict Str Item} (h : Agree excluded d.items d'.items) {k : Str}
    {v v' : Item} (same : k ∉ excluded → v = v') :
    Agree excluded (d.assign k v).items (d'.assign k v').items := by
  by_cases held : k ∈ d
  · have held' : k ∈ d' := by rwa [OrderedDict.mem_def, ← h.keys]
    rw [OrderedDict.assign_items_of_mem held, OrderedDict.assign_items_of_mem held']
    refine List.forall₂_map_left_iff.mpr (List.forall₂_map_right_iff.mpr (h.imp ?_))
    rintro x y ⟨key, value⟩
    by_cases here : x.1 = k
    · have here' : y.1 = k := key ▸ here
      simpa [here, here'] using same
    · have there : y.1 ≠ k := key ▸ here
      simpa [here, there] using ⟨key, value⟩
  · have held' : k ∉ d' := by rwa [OrderedDict.mem_def, ← h.keys]
    rw [OrderedDict.assign_items_of_not_mem held, OrderedDict.assign_items_of_not_mem held']
    exact List.rel_append h (.cons ⟨rfl, same⟩ .nil)

theorem Agree.update {d d' : OrderedDict Str Item} (h : Agree excluded d.items d'.items)
    (items : Agree excluded xs ys) :
    Agree excluded (d.update xs).items (d'.update ys).items := by
  induction items generalizing d d' with
  | nil => exact h
  | @cons x y xs ys here _ ih =>
    have assigned : Agree excluded (d.assign x.1 x.2).items (d'.assign y.1 y.2).items := by
      rw [← here.1]
      exact h.assign here.2
    exact ih assigned

variable {handler : HttpErrorHandler} {call call' : Call}

theorem SameOutside.params (h : SameOutside handler call call') :
    handler.params call = handler.params call' :=
  OrderedDict.ext (h.kwargs.update h.args).filter

theorem SameOutside.handle (h : SameOutside handler call call') (e : Raised) :
    handler.handle py call e = handler.handle py call' e := by
  obtain ⟨args, kwargs, uuid⟩ := call
  obtain ⟨args', kwargs', uuid'⟩ := call'
  obtain rfl : uuid = uuid' := h.uuid
  have raised (cls message isBase) :
      handler.raiseLogged py cls message ⟨args, kwargs, uuid⟩ isBase =
        handler.raiseLogged py cls message ⟨args', kwargs', uuid⟩ isBase := by
    simp only [HttpErrorHandler.raiseLogged, h.params]
  simp only [HttpErrorHandler.handle, h.params, raised]

/-- Layer by layer the same wrapper, called alike but for what it excludes. -/
abbrev SameLayers : List Layer → List Layer → Prop :=
  List.Forall₂ fun layer layer' => layer.1 = layer'.1 ∧ SameOutside layer.1 layer.2 layer'.2

variable {layers layers' : List Layer}

theorem SameLayers.through (h : SameLayers layers layers') (e : Raised) :
    through py layers e = through py layers' e := by
  induction h generalizing e with
  | nil => rfl
  | @cons layer layer' layers layers' here _ ih =>
    obtain ⟨handler, call⟩ := layer
    obtain ⟨handler', call'⟩ := layer'
    obtain ⟨rfl, same⟩ : handler = handler' ∧ SameOutside handler call call' := here
    simp only [Exceptions.through, same.handle, ih]

/-! ## Texts -/

variable {e e' : Raised}

theorem emit_of_not_base (py : Interpreter) (msg : List (Str × Item)) (h : e.base = none) :
    ∃ logged : List (Str × Item) → List Entry,
      emit py msg e = (streamValues py msg).map logged := by
  set info : Entry := ((∅ : Entry).update
    [(literal "error", .str (getFullyQualifiedClassName e.cls ++ literal ": " ++ e.text)),
      (literal "stacktrace", .list (e.stacktrace.map .str)), (refidKey, .none)]).update []
  have made : errorinfo py msg e = (streamValues py msg).map info.update := by
    simp only [errorinfo, Raised.refidItem, h, Option.map_none, Option.getD_none]
    cases streamValues py msg <;> rfl
  refine ⟨fun shown => if py.logStruct (info.update shown) then [info.update shown] else [], ?_⟩
  rw [emit, made]
  cases streamValues py msg <;> rfl

theorem SameKind.handle (py : Interpreter) (h : SameKind e e') (handler : HttpErrorHandler)
    (call : Call) :
    SameKind (handler.handle py call e).1 (handler.handle py call e').1 ∨
      (handler.handle py call e).1 = (handler.handle py call e').1 := by
  unfold HttpErrorHandler.handle
  rw [← h.cls]
  split
  · exact .inl h
  split
  · exact .inl h
  split
  · exact .inr rfl
  · dsimp only
    generalize [(literal "params", Item.dict _), (refidKey, Item.str _)] = msg
    obtain ⟨logged, logs⟩ := emit_of_not_base py msg h.base
    obtain ⟨logged', logs'⟩ := emit_of_not_base py msg h.base'
    rw [logs, logs']
    right
    cases streamValues py msg with
    | error exc => rfl
    | ok shown =>
      dsimp only [Except.map]
      split <;> rfl

theorem SameKind.through (py : Interpreter) (h : SameKind e e') (layers : List Layer) :
    SameKind (Exceptions.through py layers e).1 (Exceptions.through py layers e').1 ∨
      (Exceptions.through py layers e).1 = (Exceptions.through py layers e').1 := by
  induction layers generalizing e e' with
  | nil => exact .inl h
  | cons layer layers ih =>
    rcases h.handle py layer.1 layer.2 with kind | same
    · exact ih kind
    · exact .inr (by simp only [Exceptions.through, same])

theorem SameKind.jsonErrorHandler (h : SameKind e e') (fresh : Uuid) :
    (Exceptions.jsonErrorHandler py fresh e).1 = (Exceptions.jsonErrorHandler py fresh e').1 := by
  unfold Exceptions.jsonErrorHandler
  rw [h.base, h.base', ← h.cls, ← h.status]
  dsimp only
  split
  · generalize [(literal "status", Item.int _), (refidKey, Item.str _), _] = msg
    obtain ⟨logged, logs⟩ := emit_of_not_base py msg h.base
    obtain ⟨logged', logs'⟩ := emit_of_not_base py msg h.base'
    rw [logs, logs']
    cases streamValues py msg <;> rfl
  · generalize [(literal "status", Item.int _), (refidKey, Item.str _)] = msg
    obtain ⟨logged, logs⟩ := emit_of_not_base py msg h.base
    obtain ⟨logged', logs'⟩ := emit_of_not_base py msg h.base'
    rw [logs, logs']
    cases streamValues py msg <;> rfl

/-- However many wrappers there are: changing what they exclude changes neither the answer nor the
log, and changing what an exception says that is no `BaseError` does not change the answer. -/
theorem answer_secret (same : SameLayers layers layers') (fresh : Uuid) (e : Raised) :
    answer py layers fresh e = answer py layers' fresh e ∧
    ∀ e', SameKind e e' → (answer py layers fresh e).1 = (answer py layers' fresh e').1 := by
  have arguments (e : Raised) : answer py layers fresh e = answer py layers' fresh e := by
    simp only [answer, same.through]
  refine ⟨arguments e, fun e' kind => ?_⟩
  rw [arguments e]
  unfold answer
  rcases kind.through py layers' with kind | same
  · generalize through py layers' e = out at kind ⊢
    generalize through py layers' e' = out' at kind ⊢
    dsimp only
    rw [← kind.cls]
    split
    · exact congrArg some (kind.jsonErrorHandler fresh)
    · rfl
  · generalize through py layers' e = out at same ⊢
    generalize through py layers' e' = out' at same ⊢
    dsimp only
    rw [same]
    split <;> rfl

def login : HttpErrorHandler where
  message := literal "logging in"
  exclusions := [literal "self", literal "password"]
  handlers := ∅
  args := [literal "self", literal "email", literal "password"]

def zero : Uuid where
  hex := List.replicate 32 (.ofChar '0')
  length := List.length_replicate
  digits c mem := by
    obtain rfl := List.eq_of_mem_replicate mem
    decide

theorem answer_secret_login :
    let py : Interpreter :=
      ⟨fun _ => [], fun _ => .nan, fun _ => literal "not a float", fun _ => true⟩
    let call (password : String) : Call :=
      ⟨[.none, .str (literal "a@b.c"), .str (literal password)], ∅, zero⟩
    let raised (text : String) : Raised := ⟨Exc.valueError.cls, literal text, none, [], none, rfl⟩
    (answer py [(login, call "hunter2")] zero (raised "hunter2 is too short")).1 =
      (answer py [(login, call "swordfish")] zero (raised "swordfish is too short")).1 := by
  intro py call raised
  have args : Agree login.exclusions (login.args.zip (call "hunter2").args)
      (login.args.zip (call "swordfish").args) :=
    .cons ⟨rfl, fun _ => rfl⟩ (.cons ⟨rfl, fun _ => rfl⟩
      (.cons ⟨rfl, fun shown => absurd (by decide) shown⟩ .nil))
  have same : SameLayers [(login, call "hunter2")] [(login, call "swordfish")] :=
    .cons ⟨rfl, rfl, .nil, args⟩ .nil
  exact (answer_secret same zero (raised "hunter2 is too short")).2 _ ⟨rfl, rfl, rfl, rfl⟩

end KhCommon.Exceptions
