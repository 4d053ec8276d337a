import KhCommon.Lib.OrderedDict
import KhCommon.Lib.Python
import Mathlib.Data.Rat.Defs

/-! `kh_common.utilities.json.json_stream`: what a value is turned into is decided by the
first class in its method resolution order that the table of conversions has. Most
conversions go on into the parts of the value; the one of a zip reads keys that a zip
does not have, and the one of a user passes the data of the token on as they are. -/

namespace KhCommon.JsonStream

open Python

/-! ## Values -/

inductive Floating
  | finite (value : ℚ)
  | infinity (negative : Bool)
  | nan

inductive Decimal
  | finite (value : ℚ)
  | infinity (negative : Bool)
  | nan (signaling : Bool)

/-- A value. `mixed` is a member of an enumeration with a second base, of which the member is a
value as well; a tuple may be a named one; `model` is one whose `dict()` returns, with the entries
of it; the first user has no token, the second one has. -/
inductive Item
  | str (value : Str)
  | int (value : ℤ)
  | float (value : Floating)
  | bool (value : Bool)
  | none
  | decimal (value : Decimal)
  | datetime (microseconds : ℤ)
  | uuid (hex : Str)
  | enum (name : Str)
  | mixed (name : Str) (value : Item)
  | tuple (items : List Item)
  | list (items : List Item)
  | set (items : List Item)
  | filter (items : List Item)
  | dict (entries : List (Item × Item))
  | zip (pairs : List (Item × Item))
  | model (entries : List (Item × Item))
  | khUser (userId : Option ℤ) (scope : List Item)
  | khUserToken (userId : Option ℤ) (scope : List Item) (expires : ℤ) (guid : Str)
      (data : List (Item × Item))

/-- `AttributeError` of a zip, and `ValueError` of a signaling NaN. -/
inductive Exc
  | attributeError
  | valueError
  deriving DecidableEq

def isStr : Item → Bool
  | .str _ => true
  | .mixed _ value => isStr value
  | _ => false

def truthy : Item → Bool
  | .str value => value ≠ []
  | .int value => value ≠ 0
  | .float (.finite value) => value ≠ 0
  | .bool value => value
  | .none => false
  | .decimal (.finite value) => value ≠ 0
  | .mixed _ value => truthy value
  | .tuple items => !items.isEmpty
  | .list items => !items.isEmpty
  | .set items => !items.isEmpty
  | .dict entries => !entries.isEmpty
  | _ => true

def nameOf : Item → Str
  | .enum name => name
  | .mixed name _ => name
  | _ => []

def ofUserId : Option ℤ → Item
  | some userId => .int userId
  | none => .none

/-- `dict(entries)` with string keys: of equal ones the last counts. -/
def ofEntries (entries : List (Str × Item)) : Item :=
  .dict (((∅ : OrderedDict Str Item).update entries).items.map fun e => (.str e.1, e.2))

/-! ## The stream -/

section Stream

variable (text : Item → Str) (round : ℚ → Floating)

def toFloat : Decimal → Except Exc Item
  | .finite value => .ok (.float (round value))
  | .infinity negative => .ok (.float (.infinity negative))
  | .nan signaling => if signaling then .error .valueError else .ok (.float .nan)

/-- A user with a token, of which the data are left as they are. -/
def ofUser (userId : Option ℤ) (scope : List Item) (expires : ℤ) (guid : Str)
    (data : List (Item × Item)) : Item :=
  .dict [(.str (literal "user_id"), ofUserId userId), (.str (literal "scope"), .list scope),
    (.str (literal "token"), .dict [(.str (literal "expires"), .str (text (.datetime expires))),
      (.str (literal "guid"), .str guid), (.str (literal "data"), .dict data)])]

def ofUserWithoutToken (userId : Option ℤ) (scope : List Item) : Item :=
  .dict [(.str (literal "user_id"), ofUserId userId), (.str (literal "scope"), .list scope),
    (.str (literal "token"), .none)]

mutual

/-- What the table makes of `item` as a value of the class of the second argument; none when it has
no class of that. The other base of an enumeration comes before `Enum`. -/
def convertAs (item : Item) : Item → Option (Except Exc Item)
  | .decimal value => some (toFloat round value)
  | .datetime _ => some (.ok (.str (text item)))
  | .uuid hex => some (.ok (.str hex))
  | .enum _ => some (.ok (.str (nameOf item)))
  | .mixed _ value => (convertAs item value).or (some (.ok (.str (nameOf item))))
  | .tuple items => some ((streamItems items).map .list)
  | .list items => some ((streamItems items).map .list)
  | .set items => some ((streamItems items).map .list)
  | .filter items => some ((streamItems items).map .list)
  | .dict entries => some ((streamEntries entries).map ofEntries)
  | .zip _ => some (.error .attributeError)
  | .model entries => some ((streamEntries entries).map ofEntries)
  | .khUser userId scope => some ((streamItems scope).map (ofUserWithoutToken userId))
  | .khUserToken userId scope expires guid data =>
    some ((streamItems scope).map fun scope => ofUser text userId scope expires guid data)
  | _ => none

/-- `list(map(json_stream, filter(None, items)))`. -/
def streamItems : List Item → Except Exc (List Item)
  | [] => .ok []
  | item :: items =>
    if truthy item then
      (if isStr item then .ok item else (convertAs item item).getD (.ok item)).bind fun out =>
        (streamItems items).map (out :: ·)
    else streamItems items

/-- `zip(map(str, keys), map(json_stream, values))`. -/
def streamEntries : List (Item × Item) → Except Exc (List (Str × Item))
  | [] => .ok []
  | (key, value) :: entries =>
    (if isStr value then .ok value else (convertAs value value).getD (.ok value)).bind fun out =>
      (streamEntries entries).map ((text key, out) :: ·)

end

def jsonStream (item : Item) : Except Exc Item :=
  if isStr item then .ok item else (convertAs text round item item).getD (.ok item)

end Stream

/-! ## Dispatch -/

inductive Cls
  | object | own | str | int | float | bool | noneType | decimal | date | datetime | uuid | enum
  | tuple | list | set | filter | dict | zip | baseModel | khUser
  deriving DecidableEq

def mro : Item → List Cls
  | .str _ => [.str, .object]
  | .int _ => [.int, .object]
  | .float _ => [.float, .object]
  | .bool _ => [.bool, .int, .object]
  | .none => [.noneType, .object]
  | .decimal _ => [.decimal, .object]
  | .datetime _ => [.datetime, .date, .object]
  | .uuid _ => [.uuid, .object]
  | .enum _ => [.own, .enum, .object]
  | .mixed _ value => .own :: (mro value).filter (· ≠ .object) ++ [.enum, .object]
  | .tuple _ => [.tuple, .object]
  | .list _ => [.list, .object]
  | .set _ => [.set, .object]
  | .filter _ => [.filter, .object]
  | .dict _ => [.dict, .object]
  | .zip _ => [.zip, .object]
  | .model _ => [.own, .baseModel, .object]
  | .khUser _ _ => [.khUser, .tuple, .object]
  | .khUserToken _ _ _ _ _ => [.khUser, .tuple, .object]

def conversions : List Cls :=
  [.datetime, .decimal, .tuple, .filter, .set, .list, .dict, .zip, .enum, .uuid, .khUser,
    .baseModel]

def base : Item → Item
  | .mixed _ value => base value
  | item => item

section Dispatch

variable (text : Item → Str) (round : ℚ → Floating)

def convert (cls : Cls) (item : Item) : Except Exc Item :=
  let streams (items : List Item) := (items.filter truthy).mapM (jsonStream text round)
  let streamed (entries : List (Item × Item)) := entries.mapM fun e =>
    (jsonStream text round e.2).map fun out => (text e.1, out)
  match cls, base item with
  | .datetime, _ => .ok (.str (text item))
  | .decimal, .decimal value => toFloat round value
  | .tuple, .tuple items => (streams items).map .list
  | .filter, .filter items => (streams items).map .list
  | .set, .set items => (streams items).map .list
  | .list, .list items => (streams items).map .list
  | .dict, .dict entries => (streamed entries).map ofEntries
  | .enum, _ => .ok (.str (nameOf item))
  | .uuid, .uuid hex => .ok (.str hex)
  | .khUser, .khUser userId scope => (streams scope).map (ofUserWithoutToken userId)
  | .khUser, .khUserToken userId scope expires guid data =>
    (streams scope).map fun scope => ofUser text userId scope expires guid data
  | .baseModel, .model entries => jsonStream text round (.dict entries)
  -- a zip has no `keys`
  | _, _ => .error .attributeError

variable {text round}

theorem streamItems_cons (item : Item) (items : List Item) :
    streamItems text round (item :: items) =
      if truthy item then
        (jsonStream text round item).bind fun out =>
          (streamItems text round items).map (out :: ·)
      else streamItems text round items := rfl

theorem streamEntries_cons (key value : Item) (entries : List (Item × Item)) :
    streamEntries text round ((key, value) :: entries) =
      (jsonStream text round value).bind fun out =>
        (streamEntries text round entries).map ((text key, out) :: ·) := rfl

theorem streamItems_eq (items : List Item) :
    streamItems text round items = (items.filter truthy).mapM (jsonStream text round) := by
  induction items with
  | nil => rfl
  | cons item items ih =>
    rw [streamItems_cons]
    by_cases there : truthy item
    · rw [if_pos there, List.filter_cons_of_pos there, List.mapM_cons, ih]
      rfl
    · rw [if_neg there, List.filter_cons_of_neg there, ih]

theorem streamEntries_eq (entries : List (Item × Item)) :
    streamEntries text round entries = entries.mapM fun e =>
      (jsonStream text round e.2).map fun out => (text e.1, out) := by
  induction entries with
  | nil => rfl
  | cons e entries ih =>
    obtain ⟨key, value⟩ := e
    rw [streamEntries_cons, List.mapM_cons, ih]
    cases jsonStream text round value <;> rfl

theorem convertAs_eq (item value : Item) (same : base item = base value) :
    convertAs text round item value =
      ((mro value).find? (· ∈ conversions)).map (convert text round · item) := by
  cases value with
  | mixed name value =>
    have first := convertAs_eq item value same
    have others : ((mro value).filter (· ≠ .object)).find? (· ∈ conversions) =
        (mro value).find? (· ∈ conversions) := by
      rw [List.find?_filter]
      congr 1
      funext cls
      cases cls <;> rfl
    rw [convertAs, first, mro, List.cons_append, List.find?_cons_of_neg (by decide),
      List.find?_append, others]
    cases (mro value).find? (· ∈ conversions) <;> rfl
  | model entries =>
    simp [convertAs, mro, conversions, convert, base, same, jsonStream, isStr, streamEntries_eq]
  | _ => simp [convertAs, mro, conversions, convert, base, same, streamItems_eq, streamEntries_eq]

theorem jsonStream_eq (item : Item) : jsonStream text round item =
    if isStr item then .ok item else
      match (mro item).find? (· ∈ conversions) with
      | some cls => convert text round cls item
      | none => .ok item := by
  rw [jsonStream, convertAs_eq item item rfl]
  cases (mro item).find? (· ∈ conversions) <;> rfl

end Dispatch

/-! ## Plain values -/

mutual

/-- Strings, numbers, booleans, None, and lists and dicts of such, with strings for keys; a member
of an enumeration is what it is as a value of its other base. -/
def Plain : Item → Prop
  | .str _ => True
  | .int _ => True
  | .float _ => True
  | .bool _ => True
  | .none => True
  | .mixed _ value => Plain value
  | .list items => PlainItems items
  | .dict entries => PlainEntries entries
  | _ => False
termination_by structural item => item

def PlainItems : List Item → Prop
  | [] => True
  | item :: items => Plain item ∧ PlainItems items
termination_by structural items => items

def PlainEntries : List (Item × Item) → Prop
  | [] => True
  | (key, value) :: entries => (isStr key ∧ Plain value) ∧ PlainEntries entries
termination_by structural entries => entries

end

mutual

/-- No zip and no signaling NaN is reached; what is falsy in a list is not, nor are the data of a
token. -/
def Returns : Item → Prop
  | .decimal (.nan true) => False
  | .zip _ => False
  | .mixed _ value => Returns value
  | .tuple items => ReturnsItems items
  | .list items => ReturnsItems items
  | .set items => ReturnsItems items
  | .filter items => ReturnsItems items
  | .dict entries => ReturnsEntries entries
  | .model entries => ReturnsEntries entries
  | .khUser _ scope => ReturnsItems scope
  | .khUserToken _ scope _ _ _ => ReturnsItems scope
  | _ => True
termination_by structural item => item

def ReturnsItems : List Item → Prop
  | [] => True
  | item :: items => (truthy item → Returns item) ∧ ReturnsItems items
termination_by structural items => items

def ReturnsEntries : List (Item × Item) → Prop
  | [] => True
  | (_, value) :: entries => Returns value ∧ ReturnsEntries entries
termination_by structural entries => entries

end

section Clean

variable (text : Item → Str)

mutual

/-- The data of every token that is reached are plain as they are, but for a user in a dict under a
key whose text a later key has as well. -/
def Clean : Item → Prop
  | .mixed _ value => Clean value
  | .tuple items => CleanItems items
  | .list items => CleanItems items
  | .set items => CleanItems items
  | .filter items => CleanItems items
  | .dict entries => CleanEntries entries
  | .model entries => CleanEntries entries
  | .khUser _ scope => CleanItems scope
  | .khUserToken _ scope _ _ data => CleanItems scope ∧ PlainEntries data
  | _ => True
termination_by structural item => item

def CleanItems : List Item → Prop
  | [] => True
  | item :: items => (truthy item → Clean item) ∧ CleanItems items
termination_by structural items => items

def CleanEntries : List (Item × Item) → Prop
  | [] => True
  | (key, value) :: entries =>
    (Clean value ∨ text key ∈ entries.map fun e => text e.1) ∧ CleanEntries entries
termination_by structural entries => entries

end

end Clean

section Results

variable {text : Item → Str} {round : ℚ → Floating}

theorem returns_of_isStr {item : Item} (h : isStr item) : Returns item := by
  cases item with
  | mixed name value =>
    have inner : Returns value := returns_of_isStr h
    exact inner
  | str value => trivial
  | _ => cases h

theorem plain_of_isStr {item : Item} (h : isStr item) : Plain item := by
  cases item with
  | mixed name value =>
    have inner : Plain value := plain_of_isStr h
    exact inner
  | str value => trivial
  | _ => cases h

theorem clean_of_isStr {item : Item} (h : isStr item) : Clean text item := by
  cases item with
  | mixed name value =>
    have inner : Clean text value := clean_of_isStr h
    exact inner
  | str value => trivial
  | _ => cases h

/-! ## When something is returned -/

theorem exists_map_eq_ok {α β : Type} {x : Except Exc α} {f : α → β} :
    (∃ out, x.map f = .ok out) ↔ ∃ a, x = .ok a := by
  cases x <;> simp [Except.map]

theorem exists_bind_eq_ok {α β γ : Type} {x : Except Exc α} {y : Except Exc β} {f : α → β → γ} :
    (∃ out, (x.bind fun a => y.map (f a)) = .ok out) ↔ (∃ a, x = .ok a) ∧ ∃ b, y = .ok b := by
  cases x <;> cases y <;> simp [Except.bind, Except.map]

theorem jsonStream_returns_of {item : Item} {P : Prop} (str : isStr item → P)
    (h : (∃ out, (convertAs text round item item).getD (.ok item) = .ok out) ↔ P) :
    (∃ out, jsonStream text round item = .ok out) ↔ P := by
  rw [jsonStream]
  split_ifs with isStr
  · exact iff_of_true ⟨item, rfl⟩ (str isStr)
  · exact h

mutual

theorem convertAs_returns (item value : Item) :
    (∃ out, (convertAs text round item value).getD (.ok item) = .ok out) ↔ Returns value := by
  cases value with
  | mixed name value =>
    rw [convertAs, Returns, ← convertAs_returns item value]
    cases convertAs text round item value <;> simp
  | decimal value =>
    cases value with
    | nan signaling => cases signaling <;> simp [convertAs, Returns, toFloat]
    | _ => simp [convertAs, Returns, toFloat]
  | tuple items | list items | set items | filter items =>
    exact exists_map_eq_ok.trans (streamItems_returns items)
  | dict entries | model entries => exact exists_map_eq_ok.trans (streamEntries_returns entries)
  | khUser userId scope => exact exists_map_eq_ok.trans (streamItems_returns scope)
  | khUserToken userId scope expires guid data =>
    exact exists_map_eq_ok.trans (streamItems_returns scope)
  | _ => simp [convertAs, Returns]
termination_by structural value

theorem streamItems_returns (items : List Item) :
    (∃ outs, streamItems text round items = .ok outs) ↔ ReturnsItems items := by
  cases items with
  | nil => exact iff_of_true ⟨[], rfl⟩ trivial
  | cons item items =>
    rw [streamItems_cons, ReturnsItems, ← streamItems_returns items]
    by_cases there : truthy item
    · rw [if_pos there, exists_bind_eq_ok,
        jsonStream_returns_of returns_of_isStr (convertAs_returns item item)]
      exact and_congr_left' (imp_iff_right there).symm
    · rw [if_neg there]
      exact (and_iff_right (absurd · there)).symm
termination_by structural items

theorem streamEntries_returns (entries : List (Item × Item)) :
    (∃ outs, streamEntries text round entries = .ok outs) ↔ ReturnsEntries entries := by
  cases entries with
  | nil => exact iff_of_true ⟨[], rfl⟩ trivial
  | cons e entries =>
    obtain ⟨key, value⟩ := e
    rw [streamEntries_cons, ReturnsEntries, ← streamEntries_returns entries, exists_bind_eq_ok,
      jsonStream_returns_of returns_of_isStr (convertAs_returns value value)]
termination_by structural entries

end

/-! ## When it is plain -/

theorem plainEntries_iff {entries : List (Item × Item)} :
    PlainEntries entries ↔ ∀ e ∈ entries, isStr e.1 ∧ Plain e.2 := by
  induction entries with
  | nil => simp [PlainEntries]
  | cons e entries ih => rw [List.forall_mem_cons, ← ih, PlainEntries]

theorem plain_ofEntries {entries : List (Str × Item)} :
    Plain (ofEntries entries) ↔ OrderedDict.LastValues Plain entries := by
  have values : (∀ e ∈ ((∅ : OrderedDict Str Item).update entries).items, Plain e.2) ↔ _ :=
    OrderedDict.forall_update_iff
  rw [ofEntries, Plain, plainEntries_iff, List.forall_mem_map]
  simpa [isStr] using values

theorem plain_ofUserId (userId : Option ℤ) : Plain (ofUserId userId) := by
  cases userId <;> trivial

theorem plain_of_convertAs_none {item value : Item}
    (h : convertAs text round item value = none) : Plain value ∧ Clean text value := by
  cases value with
  | mixed name value =>
    rw [convertAs, Option.or_eq_none_iff] at h
    cases h.2
  | _ => first | exact ⟨trivial, trivial⟩ | cases h

theorem jsonStream_clean_of {item out : Item} (returned : jsonStream text round item = .ok out)
    (h : convertAs text round item item = some (.ok out) → (Plain out ↔ Clean text item)) :
    Plain out ↔ Clean text item := by
  rw [jsonStream] at returned
  split_ifs at returned with str
  · cases returned
    exact iff_of_true (plain_of_isStr str) (clean_of_isStr str)
  · cases converted : convertAs text round item item with
    | none =>
      rw [converted] at returned
      cases returned
      have plain := plain_of_convertAs_none converted
      exact iff_of_true plain.1 plain.2
    | some result =>
      rw [converted] at returned
      cases returned
      exact h converted

theorem exists_of_map_eq_ok {α β : Type} {x : Except Exc α} {f : α → β} {out : β}
    (h : some (x.map f) = some (.ok out)) : ∃ a, x = .ok a ∧ f a = out := by
  cases x with
  | error e => cases h
  | ok a =>
    cases h
    exact ⟨a, rfl, rfl⟩

theorem exists_of_bind_eq_ok {α β γ : Type} {x : Except Exc α} {y : Except Exc β}
    {f : α → β → γ} {out : γ} (h : (x.bind fun a => y.map (f a)) = .ok out) :
    ∃ a, x = .ok a ∧ ∃ b, y = .ok b ∧ f a b = out := by
  cases x with
  | error e => cases h
  | ok a =>
    cases y with
    | error e => cases h
    | ok b =>
      cases h
      exact ⟨a, rfl, b, rfl, rfl⟩

mutual

theorem convertAs_clean (item value out : Item)
    (h : convertAs text round item value = some (.ok out)) : Plain out ↔ Clean text value := by
  cases value with
  | mixed name value =>
    rw [convertAs] at h
    cases converted : convertAs text round item value with
    | none =>
      rw [converted] at h
      cases h
      exact iff_of_true trivial (plain_of_convertAs_none converted).2
    | some result =>
      rw [converted] at h
      cases h
      exact convertAs_clean item value out converted
  | tuple items | list items | set items | filter items =>
    obtain ⟨outs, streamed, rfl⟩ := exists_of_map_eq_ok h
    exact streamItems_clean items outs streamed
  | dict entries | model entries =>
    obtain ⟨outs, streamed, rfl⟩ := exists_of_map_eq_ok h
    exact plain_ofEntries.trans (streamEntries_clean entries outs streamed).2
  | khUser userId scope =>
    obtain ⟨outs, streamed, rfl⟩ := exists_of_map_eq_ok h
    rw [Clean, ← streamItems_clean scope outs streamed]
    simp [ofUserWithoutToken, Plain, PlainEntries, isStr, plain_ofUserId]
  | khUserToken userId scope expires guid data =>
    obtain ⟨outs, streamed, rfl⟩ := exists_of_map_eq_ok h
    rw [Clean, ← streamItems_clean scope outs streamed]
    simp [ofUser, Plain, PlainEntries, isStr, plain_ofUserId]
  | decimal value =>
    cases value with
    | nan signaling =>
      cases signaling <;> cases h
      exact iff_of_true trivial trivial
    | _ =>
      cases h
      exact iff_of_true trivial trivial
  | _ => cases h <;> exact iff_of_true trivial trivial
termination_by structural value

theorem streamItems_clean (items outs : List Item)
    (h : streamItems text round items = .ok outs) : PlainItems outs ↔ CleanItems text items := by
  cases items with
  | nil =>
    cases h
    rfl
  | cons item items =>
    rw [streamItems_cons] at h
    rw [CleanItems]
    by_cases there : truthy item
    · rw [if_pos there] at h
      obtain ⟨out, streamed, outs, rest, rfl⟩ := exists_of_bind_eq_ok h
      rw [PlainItems, streamItems_clean items outs rest,
        jsonStream_clean_of streamed (convertAs_clean item item out)]
      exact and_congr_left' (imp_iff_right there).symm
    · rw [if_neg there] at h
      rw [streamItems_clean items outs h]
      exact (and_iff_right (absurd · there)).symm
termination_by structural items

theorem streamEntries_clean (entries : List (Item × Item)) (outs : List (Str × Item))
    (h : streamEntries text round entries = .ok outs) :
    (outs.map Prod.fst = entries.map fun e => text e.1) ∧
      (OrderedDict.LastValues Plain outs ↔ CleanEntries text entries) := by
  cases entries with
  | nil =>
    cases h
    exact ⟨rfl, Iff.rfl⟩
  | cons e entries =>
    obtain ⟨key, value⟩ := e
    rw [streamEntries_cons] at h
    obtain ⟨out, streamed, outs, rest, rfl⟩ := exists_of_bind_eq_ok h
    obtain ⟨keys, values⟩ := streamEntries_clean entries outs rest
    refine ⟨by rw [List.map_cons, List.map_cons, keys], ?_⟩
    rw [OrderedDict.LastValues, CleanEntries, keys, values,
      jsonStream_clean_of streamed (convertAs_clean value value out)]
termination_by structural entries

end

/-- `json_stream` returns a plain value exactly if no zip and no signaling NaN is reached, and the
data of every token that is reached are plain already. -/
theorem jsonStream_plain_iff (text : Item → Str) (round : ℚ → Floating) (item : Item) :
    (∃ out, jsonStream text round item = .ok out ∧ Plain out) ↔
      Returns item ∧ Clean text item := by
  have returns : (∃ out, jsonStream text round item = .ok out) ↔ Returns item :=
    jsonStream_returns_of returns_of_isStr (convertAs_returns item item)
  constructor
  · rintro ⟨out, streamed, plain⟩
    exact ⟨returns.mp ⟨out, streamed⟩,
      (jsonStream_clean_of streamed (convertAs_clean item item out)).mp plain⟩
  · rintro ⟨there, clean⟩
    obtain ⟨out, streamed⟩ := returns.mpr there
    exact ⟨out, streamed,
      (jsonStream_clean_of streamed (convertAs_clean item item out)).mpr clean⟩

/-- A zip has no keys, and a datetime in the data of a token stays one. -/
theorem jsonStream_not_plain :
    let text (_ : Item) : Str := literal "1970-01-01 00:00:00"
    (¬∃ out, jsonStream text .finite (.zip [(.str (literal "a"), .int 1)]) = .ok out ∧ Plain out) ∧
    ¬∃ out, jsonStream text .finite (.khUserToken (some 1) [] 0 (literal "0")
      [(.str (literal "issued"), .datetime 0)]) = .ok out ∧ Plain out := by
  constructor
  · rintro ⟨out, streamed, -⟩
    cases streamed
  · rintro ⟨out, streamed, plain⟩
    cases streamed
    simp [ofUser, Plain, PlainEntries] at plain

end Results

end KhCommon.JsonStream
