import KhCommon.JsonStream

/-! `kh_common.exceptions.base_error`: every error has a `refid`, under which it can be
found in the logs. A UUID is its 32 hexadecimal digits. Classes are known by module
and name; an exception is what is read of it when it is handled. -/

namespace KhCommon.Exceptions

open Python JsonStream

/-! ## UUIDs -/

def hexDigits : Str := literal "0123456789abcdef"

structure Uuid where
  hex : Str
  length : hex.length = 32
  digits : ∀ c ∈ hex, c ∈ hexDigits

@[ext] theorem Uuid.ext {u v : Uuid} (h : u.hex = v.hex) : u = v := by
  cases u
  cases v
  cases h
  rfl

def lowerDigit (c : CodePoint) : CodePoint :=
  (((literal "ABCDEF").zip (literal "abcdef")).lookup c).getD c

/-- `UUID(hex=s)` of 32 characters; it raises ValueError when they are not hexadecimal digits. -/
def Uuid.ofHex? (s : Str) : Option Uuid :=
  let hex := s.map lowerDigit
  if h : hex.length = 32 ∧ hex.all hexDigits.contains then
    some ⟨hex, h.1, fun c mem => List.contains_iff_mem.mp (List.all_eq_true.mp h.2 c mem)⟩
  else none

def byteDigits (b : UInt8) : Str := hexDigits.getD (b.toNat / 16) (.ofChar '0') ::
  [hexDigits.getD (b.toNat % 16) (.ofChar '0')]

def Uuid.ofBytes? (bytes : List UInt8) : Option Uuid := Uuid.ofHex? (bytes.flatMap byteDigits)

theorem lowerDigit_of_mem {c : CodePoint} (h : c ∈ hexDigits) : lowerDigit c = c := by
  have all : hexDigits.all fun c => lowerDigit c = c := by decide
  exact of_decide_eq_true (List.all_eq_true.mp all c h)

theorem Uuid.ofHex?_hex (u : Uuid) : Uuid.ofHex? u.hex = some u := by
  have lower : u.hex.map lowerDigit = u.hex :=
    (List.map_congr_left fun c mem => lowerDigit_of_mem (u.digits c mem)).trans (List.map_id _)
  have digits : u.hex.all hexDigits.contains :=
    List.all_eq_true.mpr fun c mem => List.contains_iff_mem.mpr (u.digits c mem)
  unfold ofHex?
  simp only [lower]
  rw [dif_pos ⟨u.length, digits⟩]

/-! ## Exceptions -/

structure ClassName where
  module : String
  name : String
  deriving DecidableEq

def builtin (name : String) : ClassName := ⟨"builtins", name⟩

def exceptionName : ClassName := builtin "Exception"

def baseErrorName : ClassName := ⟨"kh_common.exceptions.base_error", "BaseError"⟩

def httpErrorName : ClassName := ⟨"kh_common.exceptions.http_error", "HttpError"⟩

/-- A class: its name, the rest of its `__mro__` and its attribute `status`. -/
structure Class where
  name : ClassName
  bases : List ClassName
  status : Option ℕ
  base : baseErrorName ∈ name :: bases → exceptionName ∈ name :: bases := by decide
  http : httpErrorName ∈ name :: bases → baseErrorName ∈ name :: bases := by decide

def Class.mro (cls : Class) : List ClassName := cls.name :: cls.bases

def exceptionClass : Class where
  name := exceptionName
  bases := [builtin "BaseException", builtin "object"]
  status := none

def baseErrorClass : Class where
  name := baseErrorName
  bases := exceptionClass.mro
  status := none

/-- `isinstance(e, cls)`, of an `e` of this class. -/
def Class.isSubclass (self cls : Class) : Bool := cls.name ∈ self.mro

/-- A `refid` as it is given: one of another type than these is kept as it is. -/
inductive Given
  | none
  | uuid (u : Uuid)
  | str (s : Str)
  | bytes (bytes : List UInt8)
  | other

inductive Refid
  | uuid (u : Uuid)
  | other

def ofItem (item : Item) : Given :=
  match JsonStream.base item with
  | .str s => .str s
  | .uuid hex => ((Uuid.ofHex? hex).map Given.uuid).getD .other
  | _ => if truthy item then .other else .none

def Given.isTruthy : Given → Bool
  | .none => false
  | .str s => s ≠ []
  | .bytes b => b ≠ []
  | _ => true

abbrev LogData := OrderedDict Str Item

/-- An exception; one that is a `BaseError` has a `refid` and `logdata`. -/
structure Raised where
  cls : Class
  text : Str
  status : Option ℕ
  stacktrace : List Str
  base : Option (Refid × LogData)
  known : base.isSome = cls.isSubclass baseErrorClass

inductive Exc
  | attributeError | valueError | typeError | assertionError
  deriving DecidableEq

def refidKey : Str := literal "refid"

def normalise : Given → Except Exc Refid
  | .uuid u => .ok (.uuid u)
  | .str s =>
    if s.length = 32 then
      match Uuid.ofHex? s with
      | some u => .ok (.uuid u)
      | none => .error .valueError
    else if s.length = 16 then .error .assertionError -- `bytes` is not bytes
    else .error .valueError
  | .bytes bytes =>
    if bytes.length = 32 then .error .typeError -- `hex.replace` wants bytes
    else if bytes.length = 16 then
      match Uuid.ofBytes? bytes with
      | some u => .ok (.uuid u)
      | none => .error .valueError
    else .error .valueError
  | _ => .ok .other

/-- `refid or logdata.get('refid') or uuid4()`. -/
def choose (refid : Given) (logdata : LogData) (fresh : Uuid) : Given :=
  if refid.isTruthy then refid
  else
    let logged := ((logdata.get? refidKey).map ofItem).getD .none
    if logged.isTruthy then logged else .uuid fresh

/-- `BaseError.__init__`: the attributes of the error, and what is left of the caller's dict. -/
def init (refid : Given) (logdata : LogData) (kwargs : List (Str × Item)) (fresh : Uuid) :
    Except Exc (Refid × LogData) × LogData :=
  match normalise (choose refid logdata fresh) with
  | .error e => (.error e, logdata)
  | .ok refid =>
    let logdata := logdata.erase refidKey
    (.ok (refid, logdata.update kwargs), logdata)

end KhCommon.Exceptions
