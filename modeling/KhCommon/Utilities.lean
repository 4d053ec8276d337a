import KhCommon.Lib.ExpiringDict
import Mathlib.Data.Nat.Size
import Mathlib.Data.Rat.Init
import Mathlib.Algebra.Order.Ring.Rat
import Mathlib.Tactic.NormNum

/-! `kh_common.utilities`: the eviction loop shared by every local cache, and the
integer codec of the token fields. Clock readings are rational seconds; the
rounding of a float sum is outside the model. Byte strings are lists of bytes. -/

namespace KhCommon

abbrev Bytes := List UInt8

section ClearCache

variable {K V : Type*} [DecidableEq K]

/-- The cache structure of `kh_common.caching`: key to (expiration time, cached data). -/
abbrev Cache (K V : Type*) := OrderedDict K (ℚ × V)

/-- The `while True` of `__clear_cache__`, at most `fuel` turns of it. -/
def clearLoop (now : ℚ) : (fuel : ℕ) → Cache K V → Cache K V
  | 0, cache => cache
  | fuel + 1, cache =>
    match cache.items with
    | [] => cache -- `next` raises StopIteration
    | (cacheKey, expire, _) :: _ =>
      if expire ≥ now then cache else clearLoop now fuel (cache.erase cacheKey)

/-- `__clear_cache__`, with `now` the reading of `t`. Each turn that goes on
deletes an entry, so a turn for each entry is enough. -/
def clearCache (now : ℚ) (cache : Cache K V) : Cache K V :=
  clearLoop now cache.items.length cache

theorem clearLoop_eq_purge (now : ℚ) (fuel : ℕ) (cache : Cache K V)
    (enough : cache.items.length ≤ fuel) :
    clearLoop now fuel cache = ExpiringDict.purge now cache := by
  induction fuel generalizing cache with
  | zero =>
    have none : cache.items = [] := List.length_eq_zero_iff.mp (Nat.le_zero.mp enough)
    apply OrderedDict.ext
    simp [clearLoop, ExpiringDict.purge, OrderedDict.restrict, none]
  | succ fuel ih =>
    cases hitems : cache.items with
    | nil =>
      apply OrderedDict.ext
      simp [clearLoop, ExpiringDict.purge, OrderedDict.restrict, hitems]
    | cons e es =>
      obtain ⟨cacheKey, expire, data⟩ := e
      have rest := OrderedDict.erase_head hitems
      simp only [clearLoop, hitems]
      split_ifs with fresh
      · apply OrderedDict.ext
        simp [ExpiringDict.purge, OrderedDict.restrict, hitems, not_lt.mpr fresh]
      · rw [ih _ (by rw [rest]; simpa [hitems] using enough)]
        apply OrderedDict.ext
        simp [ExpiringDict.purge, OrderedDict.restrict, hitems, rest, not_le.mp fresh]

theorem clearCache_eq_purge (now : ℚ) (cache : Cache K V) :
    clearCache now cache = ExpiringDict.purge now cache :=
  clearLoop_eq_purge now _ cache le_rfl

/-- A turn of the `while True`, with what `cache[cache_key]` raises when there is no such key. None
leaves the loop, by `break` or by the StopIteration of `next`. -/
def clearTurn (now : ℚ) (cache : Cache K V) : Except K (Option (Cache K V)) :=
  match cache.items.head? with
  | none => .ok none
  | some (cacheKey, _) =>
    match cache.get? cacheKey with
    | none => .error cacheKey
    | some (expire, _) => .ok (if expire ≥ now then none else some (cache.erase cacheKey))

/-- The `while True` itself; none when it is still running after so many turns. -/
def clearWhile (now : ℚ) : (turns : ℕ) → Cache K V → Option (Except K (Cache K V))
  | 0, _ => none
  | turns + 1, cache =>
    match clearTurn now cache with
    | .error cacheKey => some (.error cacheKey)
    | .ok none => some (.ok cache)
    | .ok (some cache) => clearWhile now turns cache

theorem clearTurn_nil (now : ℚ) {cache : Cache K V} (empty : cache.items = []) :
    clearTurn now cache = .ok none := by
  simp [clearTurn, empty]

theorem clearTurn_cons (now : ℚ) {cache : Cache K V} {e : K × (ℚ × V)} {es : List (K × (ℚ × V))}
    (first : cache.items = e :: es) :
    clearTurn now cache = .ok (if e.2.1 ≥ now then none else some (cache.erase e.1)) := by
  have held : cache.get? e.1 = some e.2 := by
    rw [OrderedDict.get?_eq_some_iff, first]
    exact List.mem_cons_self
  simp [clearTurn, first, held]

theorem clearWhile_eq (now : ℚ) {turns : ℕ} {cache : Cache K V}
    (enough : cache.items.length < turns) :
    clearWhile now turns cache = some (.ok (clearCache now cache)) := by
  induction turns generalizing cache with
  | zero => exact absurd enough (Nat.not_lt_zero _)
  | succ turns ih =>
    rw [clearWhile]
    cases hitems : cache.items with
    | nil => rw [clearTurn_nil now hitems, clearCache, hitems, List.length_nil, clearLoop]
    | cons e es =>
      have rest := OrderedDict.erase_head hitems
      rw [clearTurn_cons now hitems, clearCache, hitems, List.length_cons, clearLoop, hitems]
      by_cases fresh : e.2.1 ≥ now
      · simp [fresh]
      · have shorter : (cache.erase e.1).items.length < turns := by
          rw [rest]
          rw [hitems] at enough
          exact Nat.lt_of_succ_lt_succ enough
        simp only [if_neg fresh, ih shorter, clearCache, rest]

/-- `__clear_cache__` ends without an error and leaves a final part of the cache. What it removes
has expired and so has all in front of it, and if the expiries are in order it removes all that has
expired. -/
theorem clearCache_evicts (now : ℚ) (cache : Cache K V) :
    (∀ turns, cache.items.length < turns →
      clearWhile now turns cache = some (.ok (clearCache now cache))) ∧
    (clearCache now cache).items <:+ cache.items ∧
    (∀ front e back, cache.items = front ++ e :: back → e ∉ (clearCache now cache).items →
      e.2.1 < now ∧ ∀ a ∈ front, a.2.1 < now) ∧
    (ExpiringDict.InOrder cache →
      (clearCache now cache).items = cache.items.filter fun e => e.2.1 ≥ now) := by
  refine ⟨fun turns enough => clearWhile_eq now enough, ?_⟩
  rw [clearCache_eq_purge]
  refine ⟨List.dropWhile_suffix _, fun front e back split gone => ?_, fun ordered => ?_⟩
  · exact ExpiringDict.lt_of_not_mem_purge split gone
  · exact ExpiringDict.items_purge_of_inOrder ordered now

end ClearCache

/-! ## Integers as big-endian bytes -/

/-- `integer.to_bytes(length, 'big')`; the low bytes when `integer` does not fit. -/
def toBytes : (length : ℕ) → ℕ → Bytes
  | 0, _ => []
  | length + 1, integer => toBytes length (integer / 256) ++ [UInt8.ofNat integer]

def intToBytes (integer : ℕ) : Bytes := toBytes ((integer.size + 7) / 8) integer

def intFromBytes (bytestring : Bytes) : ℕ := bytestring.foldl (fun n b => n * 256 + b.toNat) 0

theorem intFromBytes_append (bs : Bytes) (b : UInt8) :
    intFromBytes (bs ++ [b]) = intFromBytes bs * 256 + b.toNat := by
  simp [intFromBytes]

theorem intFromBytes_toBytes (length integer : ℕ) (fits : integer < 256 ^ length) :
    intFromBytes (toBytes length integer) = integer := by
  induction length generalizing integer with
  | zero =>
    have : integer = 0 := by simpa using fits
    rw [this]
    rfl
  | succ length ih =>
    have quotient : integer / 256 < 256 ^ length := by
      rw [pow_succ] at fits
      omega
    rw [toBytes, intFromBytes_append, ih _ quotient, UInt8.toNat_ofNat']
    omega

theorem intToBytes_fits (integer : ℕ) : integer < 256 ^ ((integer.size + 7) / 8) := by
  calc integer < 2 ^ integer.size := Nat.lt_size_self integer
    _ ≤ 2 ^ (8 * ((integer.size + 7) / 8)) := Nat.pow_le_pow_right (by norm_num) (by omega)
    _ = 256 ^ ((integer.size + 7) / 8) := by rw [pow_mul]; norm_num

theorem intFromBytes_intToBytes (integer : ℕ) : intFromBytes (intToBytes integer) = integer :=
  intFromBytes_toBytes _ integer (intToBytes_fits integer)

end KhCommon
