import KhCommon.Exceptions.BaseError
import KhCommon.Lib.Outcome

/-! `HttpErrorHandler` around a function, `LogHandler.emit` and `jsonErrorHandler`: what a
client is told of an exception, and what is logged of it. Wrapped functions call
one another, so that an exception passes through several wrappers, the innermost
first. What the client sees of an error that nobody chose the words of is a
reference that is in the logs, unless the agent gave up writing the entry. -/

namespace KhCommon.Exceptions

open Python JsonStream

/-! ## Classes -/

def httpErrorClass : Class where
  name := httpErrorName
  bases := baseErrorClass.mro
  status := some 500

def httpError (name : String) (status : ℕ) : Class where
  name := ⟨"kh_common.exceptions.http_error", name⟩
  bases := httpErrorClass.mro
  status := some status
  base _ := List.mem_cons_of_mem _ (by decide)
  http _ := List.mem_cons_of_mem _ (by decide)

def badGateway : Class := httpError "BadGateway" 502

def internalServerError : Class := httpError "InternalServerError" 500

def clientErrorClass : Class where
  name := ⟨"aiohttp.client_exceptions", "ClientError"⟩
  bases := exceptionClass.mro
  status := none

def Exc.name : Exc → String
  | .attributeError => "AttributeError"
  | .valueError => "ValueError"
  | .typeError => "TypeError"
  | .assertionError => "AssertionError"

def Exc.cls (exc : Exc) : Class where
  name := builtin exc.name
  bases := exceptionClass.mro
  status := none
  base _ := List.mem_cons_of_mem _ (by decide)
  http := by cases exc <;> decide

def ofStream : JsonStream.Exc → Exc
  | .attributeError => .attributeError
  | .valueError => .valueError

theorem Exc.not_baseError (exc : Exc) : exc.cls.isSubclass baseErrorClass = false := by
  cases exc <;> decide

abbrev Entry := OrderedDict Str Item

/-- What is asked for outside: `str` of a value, the nearest float, how the interpreter words the
exceptions that it raises itself, and whether the agent's `log_struct` writes the entry or raises
`RetryError`. -/
structure Interpreter where
  text : Item → Str
  round : ℚ → Floating
  words : Exc → Str
  logStruct : Entry → Bool

variable (py : Interpreter)

def Interpreter.raised (exc : Exc) : Raised :=
  ⟨exc.cls, py.words exc, none, [], none, by rw [exc.not_baseError]; rfl⟩

def construct (cls : Class) (message : Str) (fresh : Uuid) : Raised where
  cls := cls
  text := message
  status := cls.status
  stacktrace := []
  base := if cls.isSubclass baseErrorClass then some (.uuid fresh, ∅) else none
  known := by cases cls.isSubclass baseErrorClass <;> rfl

/-! ## The log -/

def getFullyQualifiedClassName (cls : Class) : Str :=
  if cls.name.module ≠ "builtins" then literal (cls.name.module ++ "." ++ cls.name.name)
  else literal cls.name.name

def stream (item : Item) : Except Exc Item :=
  match jsonStream py.text py.round item with
  | .ok out => .ok out
  | .error exc => .error (ofStream exc)

def streamValues : List (Str × Item) → Except Exc (List (Str × Item))
  | [] => .ok []
  | (key, value) :: entries => do
    let out ← stream py value
    return (key, out) :: (← streamValues entries)

/-- `refid.hex if refid else None`. -/
def Raised.refidItem (e : Raised) : Except Exc Item :=
  match e.base with
  | none => .ok .none
  | some (.uuid u, _) => .ok (.str u.hex)
  | some (.other, _) => .error .attributeError

/-- The entry that `LogHandler.emit` makes of a dict and an exception. -/
def errorinfo (msg : List (Str × Item)) (e : Raised) : Except Exc Entry := do
  let refid ← e.refidItem
  let logdata ← streamValues py ((e.base.map fun b => b.2.items).getD [])
  let errorinfo : Entry := (∅ : Entry).update
    [(literal "error", .str (getFullyQualifiedClassName e.cls ++ literal ": " ++ e.text)),
      (literal "stacktrace", .list (e.stacktrace.map .str)), (refidKey, refid)]
  return (errorinfo.update logdata).update (← streamValues py msg)

/-- `LogHandler.emit`, with what is logged; a `RetryError` is swallowed. -/
def emit (msg : List (Str × Item)) (e : Raised) : Except Exc (List Entry) :=
  (errorinfo py msg e).map fun entry => if py.logStruct entry then [entry] else []

/-! ## The wrapper -/

/-- The arguments of the decorator, and what `getfullargspec` finds of the function. -/
structure HttpErrorHandler where
  message : Str
  exclusions : List Str
  handlers : OrderedDict ClassName (Class × Str)
  args : List Str

structure Call where
  args : List Item
  kwargs : OrderedDict Str Item
  uuid : Uuid

abbrev Handled := Raised × List Entry

namespace HttpErrorHandler

variable (self : HttpErrorHandler)

/-- `logdata`, in the order of `kwargs`. -/
def params (call : Call) : LogData :=
  let kwargs := call.kwargs.update (self.args.zip call.args)
  kwargs.restrict (kwargs.items.filter fun entry => !self.exclusions.contains entry.1)
    List.filter_sublist

/-- `raise cls(message, refid = refid, logdata = logdata)`. -/
def raiseLogged (cls : Class) (message : Str) (call : Call)
    (isBase : cls.isSubclass baseErrorClass) : Raised :=
  match (init (.str call.uuid.hex) (self.params call) [] call.uuid).1 with
  | .error exc => py.raised exc
  | .ok base => ⟨cls, message, cls.status, [], some base, by simp [isBase]⟩

/-- The `except` clauses, of the sync and the async wrapper. -/
def handle (call : Call) (e : Raised) : Handled :=
  if e.cls.isSubclass httpErrorClass then (e, [])
  else if !e.cls.isSubclass exceptionClass then (e, [])
  else match e.cls.mro.findSome? self.handlers.get? with
  | some (Error, customMessage) => (construct Error customMessage call.uuid, [])
  | none =>
    let msg := [(literal "params", Item.dict ((self.params call).items.map fun entry =>
      (.str entry.1, entry.2))), (refidKey, .str call.uuid.hex)]
    match emit py msg e with
    | .error exc => (py.raised exc, [])
    | .ok logged =>
      if e.cls.isSubclass clientErrorClass then
        (self.raiseLogged py badGateway
          (literal "BadGateway: received an invalid response from an upstream server while " ++
            self.message ++ literal ".") call (by decide), logged)
      else
        (self.raiseLogged py internalServerError
          (literal "an unexpected error occurred while " ++ self.message ++ literal ".") call
            (by decide), logged)

end HttpErrorHandler

/-! ## The answer -/

structure Response where
  status : ℕ
  refid : Str
  error : Str
  deriving DecidableEq

/-- `jsonErrorHandler`, where `fresh` is what `uuid4` returns. -/
def jsonErrorHandler (fresh : Uuid) (e : Raised) : Except Exc Response × List Entry :=
  let status := e.status.getD 500
  match e.base with
  | some (.other, _) => (.error .attributeError, [])
  | some (.uuid u, _) =>
    (.ok ⟨status, u.hex, literal e.cls.name.name ++ literal ": " ++ e.text⟩, [])
  | none =>
    if e.cls.isSubclass clientErrorClass then
      let error := literal "BadGateway: received an invalid response from an upstream server."
      match emit py [(literal "status", .int 502), (refidKey, .str fresh.hex),
          (literal "error", .str error)] e with
      | .error exc => (.error exc, [])
      | .ok logged => (.ok ⟨502, fresh.hex, error⟩, logged)
    else
      match emit py [(literal "status", .int status), (refidKey, .str fresh.hex)] e with
      | .error exc => (.error exc, [])
      | .ok logged => (.ok ⟨status, fresh.hex, literal "Internal Server Error"⟩, logged)

end KhCommon.Exceptions
