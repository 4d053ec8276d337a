import KhCommon.Lib.OrderedDict
import Mathlib.Data.List.Sort
import Mathlib.Data.String.Basic

/-! The keys of `ArgsCache` and `KwargsCache`. `ArgsCache` takes the tuple of
positional arguments as it is. `KwargsCache` merges defaults, positional and
keyword arguments by name and flattens every container into tuples with
`_cache_stream` and `_convert_item`; the result is hashable by its type. -/

namespace KhCommon

variable {A : Type*}

/-- Argument values: the types the flattening distinguishes. `A` holds the hashable values that
are not iterable, numbers among them, up to `==`. A `dict` lists its items in insertion order. -/
inductive PyVal (A : Type*)
  | atom (value : A)
  | str (value : String)
  | bytes (value : List UInt8)
  | list (items : List (PyVal A))
  | tuple (items : List (PyVal A))
  | dict (items : List (String × PyVal A))

inductive CacheKey (A : Type*)
  | atom (value : A)
  | str (value : String)
  | tuple (items : List (CacheKey A))

namespace CacheKey

variable [DecidableEq A]

mutual

def decEq : (a b : CacheKey A) → Decidable (a = b)
  | atom m, atom n => decidable_of_iff (m = n) (by simp)
  | str m, str n => decidable_of_iff (m = n) (by simp)
  | tuple xs, tuple ys =>
    match decEqItems xs ys with
    | isTrue h => isTrue (by rw [h])
    | isFalse h => isFalse fun e => h (CacheKey.tuple.inj e)
  | atom _, str _ => isFalse nofun
  | atom _, tuple _ => isFalse nofun
  | str _, atom _ => isFalse nofun
  | str _, tuple _ => isFalse nofun
  | tuple _, atom _ => isFalse nofun
  | tuple _, str _ => isFalse nofun

def decEqItems : (xs ys : List (CacheKey A)) → Decidable (xs = ys)
  | [], [] => isTrue rfl
  | [], _ :: _ => isFalse nofun
  | _ :: _, [] => isFalse nofun
  | x :: xs, y :: ys =>
    match decEq x y, decEqItems xs ys with
    | isTrue hx, isTrue hxs => isTrue (by rw [hx, hxs])
    | isFalse hx, _ => isFalse fun e => hx (List.cons.inj e).1
    | _, isFalse hxs => isFalse fun e => hxs (List.cons.inj e).2

end

instance : DecidableEq (CacheKey A) := decEq

end CacheKey

/-- `sorted(stream.keys())`, each key with what is stored under it. -/
def sortedItems {α : Type*} (items : List (String × α)) : List (String × α) :=
  items.insertionSort fun a b => a.1 ≤ b.1

def pairKey (item : String × CacheKey A) : CacheKey A := .tuple [.str item.1, item.2]

variable [NatCast A]

mutual

/-- `_convert_item`. Every container is `Iterable`, so it goes to `_cache_stream` before the
`_conversions` table is consulted. -/
def convertItem : PyVal A → CacheKey A
  | .atom value => .atom value
  | .str value => .str value
  | .bytes value => .tuple (value.map fun b => .atom b.toNat)
  | .list items => .tuple (convertItems items)
  | .tuple items => .tuple (convertItems items)
  | .dict items => .tuple ((sortedItems (convertEntries items)).map pairKey)

def convertItems : List (PyVal A) → List (CacheKey A)
  | [] => []
  | item :: items => convertItem item :: convertItems items

def convertEntries : List (String × PyVal A) → List (String × CacheKey A)
  | [] => []
  | (key, item) :: items => (key, convertItem item) :: convertEntries items

end

def cacheStream (stream : OrderedDict String (PyVal A)) : CacheKey A :=
  convertItem (.dict stream.items)

structure Args (A : Type*) where
  args : List A
  kwargs : List (String × A)

/-- What `getfullargspec` gives of a function: its named parameters and the defaults of the
last ones. -/
structure ArgSpec (A : Type*) where
  args : List String
  defaults : List (PyVal A)

/-- `dict(zip(arg_spec.args[-len(arg_spec.defaults):], arg_spec.defaults))`. -/
def ArgSpec.kw (spec : ArgSpec A) : List (String × PyVal A) :=
  (spec.args.drop (spec.args.length - spec.defaults.length)).zip spec.defaults

/-- `{ **kw, **dict(zip(arg_spec, args)), **kwargs }`. -/
def ArgSpec.merge (spec : ArgSpec A) (call : Args (PyVal A)) : OrderedDict String (PyVal A) :=
  (spec.kw ++ spec.args.zip call.args ++ call.kwargs).foldl (fun d e => d.assign e.1 e.2) ∅

def ArgSpec.key (spec : ArgSpec A) (call : Args (PyVal A)) : CacheKey A :=
  cacheStream (spec.merge call)

/-- Keyword and positional spelling of one call give one key, with the default filled in. -/
example : ArgSpec.key ⟨["a", "b"], [.atom (2 : ℤ)]⟩ ⟨[], [("a", .atom 1)]⟩ =
    ArgSpec.key ⟨["a", "b"], [.atom 2]⟩ ⟨[.atom 1, .atom 2], []⟩ := by decide

end KhCommon
