import KhCommon.Lib.Python
import Mathlib.Tactic.IntervalCases

/-! Percent-encoding of strings, as `urllib.parse` has it. Encoding is strict UTF-8;
decoding replaces what is no UTF-8, each longest beginning of a character by one
replacement character, and leaves alone what is not ASCII. -/

namespace Percent

open Python

/-! ## Decoding UTF-8 with replacement -/

/-- The beginning of a character: the bits so far, how many bytes are wanted, and the range of the
next one. -/
structure Begun where
  bits : ℕ
  wanted : ℕ
  low : ℕ := 0x80
  high : ℕ := 0xBF

def replacement : CodePoint := .ofChar '\uFFFD'

def codePoint (n : ℕ) : CodePoint := ⟨n % 0x110000, Nat.mod_lt n (by decide)⟩

def start (b : ℕ) : Str × Option Begun :=
  if b < 0x80 then ([codePoint b], none)
  else if b < 0xC2 then ([replacement], none)
  else if b < 0xE0 then ([], some { bits := b - 0xC0, wanted := 1 })
  else if b = 0xE0 then ([], some { bits := 0, wanted := 2, low := 0xA0 })
  else if b = 0xED then ([], some { bits := 0xD, wanted := 2, high := 0x9F })
  else if b < 0xF0 then ([], some { bits := b - 0xE0, wanted := 2 })
  else if b = 0xF0 then ([], some { bits := 0, wanted := 3, low := 0x90 })
  else if b < 0xF4 then ([], some { bits := b - 0xF0, wanted := 3 })
  else if b = 0xF4 then ([], some { bits := 4, wanted := 3, high := 0x8F })
  else ([replacement], none)

def next (begun : Begun) (b : ℕ) : Str × Option Begun :=
  if begun.low ≤ b ∧ b ≤ begun.high then
    let bits := begun.bits * 64 + (b - 0x80)
    if begun.wanted ≤ 1 then ([codePoint bits], none)
    else ([], some { bits := bits, wanted := begun.wanted - 1 })
  else
    let (s, begun) := start b
    (replacement :: s, begun)

def decodeFrom : Option Begun → List UInt8 → Str
  | none, [] => []
  | some _, [] => [replacement]
  | begun, b :: bytes =>
    let (s, begun) := (begun.map fun begun => next begun b.toNat).getD (start b.toNat)
    s ++ decodeFrom begun bytes

/-- `bytes.decode('utf-8', 'replace')`. -/
def decodeReplace (bytes : List UInt8) : Str := decodeFrom none bytes

/-! ## What is encoded is decoded -/

theorem toNat_ofNat {n : ℕ} (small : n < 256) : (UInt8.ofNat n).toNat = n := by
  rw [UInt8.toNat_ofNat', Nat.mod_eq_of_lt small]

theorem decodeFrom_start {n : ℕ} (small : n < 256) {s : Str} {begun : Option Begun}
    (h : start n = (s, begun)) (rest : List UInt8) :
    decodeFrom none (.ofNat n :: rest) = s ++ decodeFrom begun rest := by
  simp only [decodeFrom, Option.map_none, Option.getD_none, toNat_ofNat small, h]

theorem decodeFrom_next {begun : Begun} {y : ℕ} (six : y < 64) (low : begun.low ≤ y + 0x80)
    (high : y + 0x80 ≤ begun.high) (rest : List UInt8) :
    decodeFrom (some begun) (.ofNat (y + 0x80) :: rest) =
      if begun.wanted ≤ 1 then codePoint (begun.bits * 64 + y) :: decodeFrom none rest
      else decodeFrom (some { bits := begun.bits * 64 + y, wanted := begun.wanted - 1 }) rest := by
  simp only [decodeFrom, Option.map_some, Option.getD_some,
    toNat_ofNat (show y + 0x80 < 256 by omega), next, if_pos (And.intro low high),
    Nat.add_sub_cancel]
  split_ifs <;> rfl

section Bytes

variable {x y z w : ℕ} (rest : List UInt8)

theorem decodeFrom_two (low : 2 ≤ x) (five : x < 32) (hy : y < 64) :
    decodeFrom none (.ofNat (x + 0xC0) :: .ofNat (y + 0x80) :: rest) =
      codePoint (x * 64 + y) :: decodeFrom none rest := by
  have first : start (x + 0xC0) = ([], some { bits := x, wanted := 1 }) := by
    rw [start, if_neg (by omega), if_neg (by omega), if_pos (by omega), Nat.add_sub_cancel]
  rw [decodeFrom_start (by omega) first, List.nil_append,
    decodeFrom_next hy (Nat.le_add_left ..) (by dsimp only; omega), if_pos le_rfl]

theorem decodeFrom_three (four : x < 16) (hy : y < 64) (hz : z < 64) (low : x = 0 → 32 ≤ y)
    (high : x = 13 → y < 32) :
    decodeFrom none (.ofNat (x + 0xE0) :: .ofNat (y + 0x80) :: .ofNat (z + 0x80) :: rest) =
      codePoint ((x * 64 + y) * 64 + z) :: decodeFrom none rest := by
  have first : start (x + 0xE0) = ([], some
      { bits := x, wanted := 2, low := if x = 0 then 0xA0 else 0x80,
        high := if x = 13 then 0x9F else 0xBF }) := by
    clear hy hz low high
    interval_cases x <;> rfl
  rw [decodeFrom_start (by omega) first, List.nil_append,
    decodeFrom_next hy (by dsimp only; split_ifs <;> omega) (by dsimp only; split_ifs <;> omega),
    if_neg (by simp), decodeFrom_next hz (Nat.le_add_left ..) (by dsimp only; omega),
    if_pos (by simp)]

theorem decodeFrom_four (three : x ≤ 4) (hy : y < 64) (hz : z < 64) (hw : w < 64)
    (low : x = 0 → 16 ≤ y) (high : x = 4 → y < 16) :
    decodeFrom none (.ofNat (x + 0xF0) :: .ofNat (y + 0x80) :: .ofNat (z + 0x80) ::
        .ofNat (w + 0x80) :: rest) =
      codePoint (((x * 64 + y) * 64 + z) * 64 + w) :: decodeFrom none rest := by
  have first : start (x + 0xF0) = ([], some
      { bits := x, wanted := 3, low := if x = 0 then 0x90 else 0x80,
        high := if x = 4 then 0x8F else 0xBF }) := by
    clear hy hz hw low high
    interval_cases x <;> rfl
  rw [decodeFrom_start (by omega) first, List.nil_append,
    decodeFrom_next hy (by dsimp only; split_ifs <;> omega) (by dsimp only; split_ifs <;> omega),
    if_neg (by simp), decodeFrom_next hz (Nat.le_add_left ..) (by dsimp only; omega),
    if_neg (by simp), decodeFrom_next hw (Nat.le_add_left ..) (by dsimp only; omega),
    if_pos (by simp)]

theorem decodeFrom_utf8EncodeChar (c : Char) :
    decodeFrom none (String.utf8EncodeChar c ++ rest) = .ofChar c :: decodeFrom none rest := by
  have valid := c.valid
  rw [UInt32.isValidChar, Nat.isValidChar] at valid
  have same {n : ℕ} (h : n = c.val.toNat) : codePoint n = .ofChar c := by
    subst h
    exact Fin.ext (Nat.mod_eq_of_lt (by omega))
  unfold String.utf8EncodeChar
  dsimp only
  split_ifs with one two three
  · have first : start c.val.toNat = ([.ofChar c], none) := by
      rw [start, if_pos (by omega), same rfl]
    rw [List.singleton_append, decodeFrom_start (by omega) first, List.singleton_append]
  · rw [List.cons_append, List.singleton_append,
      decodeFrom_two _ (by omega) (by omega) (by omega), same (by omega)]
  · rw [List.cons_append, List.cons_append, List.singleton_append,
      decodeFrom_three _ (by omega) (by omega) (by omega) (by omega) (by omega), same (by omega)]
  · rw [List.cons_append, List.cons_append, List.cons_append, List.singleton_append,
      decodeFrom_four _ (by omega) (by omega) (by omega) (by omega) (by omega) (by omega),
      same (by omega)]

end Bytes

theorem decodeReplace_encode {s : Str} {bytes : List UInt8} (h : encode s = some bytes) :
    decodeReplace bytes = s := by
  obtain ⟨cs, rfl, rfl⟩ := chars_of_encode h
  clear h
  induction cs with
  | nil => rfl
  | cons c cs ih =>
    rw [decodeReplace] at ih
    rw [List.flatMap_cons, decodeReplace, decodeFrom_utf8EncodeChar, ih, List.map_cons]

/-! ## Quoting -/

/-- What `quote` leaves alone: letters, digits, `_.-~` and the slash. -/
def safe (b : UInt8) : Bool :=
  (48 ≤ b ∧ b ≤ 57) ∨ (65 ≤ b ∧ b ≤ 90) ∨ (97 ≤ b ∧ b ≤ 122) ∨ b ∈ [95, 46, 45, 126, 47]

def hexDigit (n : UInt8) : UInt8 := if n < 10 then 48 + n else 55 + n

def quoteByte (b : UInt8) : List UInt8 :=
  if safe b then [b] else [37, hexDigit (b / 16), hexDigit (b % 16)]

/-- `quote(s)`; none is the `UnicodeEncodeError`. -/
def quote (s : Str) : Option Str := (encode s).map fun bytes => ofBytes (bytes.flatMap quoteByte)

/-! ## Unquoting -/

def hexValue (b : UInt8) : Option UInt8 :=
  if 48 ≤ b ∧ b ≤ 57 then some (b - 48)
  else if 65 ≤ b ∧ b ≤ 70 then some (b - 55)
  else if 97 ≤ b ∧ b ≤ 102 then some (b - 87)
  else none

def hexPair : List UInt8 → Option UInt8
  | high :: low :: _ => do
    let high ← hexValue high
    let low ← hexValue low
    some (high * 16 + low)
  | _ => none

/-- `unquote_to_bytes`; the digits that belong to a percent sign are left out when it is read. -/
def unquoteToBytes : (skip : ℕ) → List UInt8 → List UInt8
  | _, [] => []
  | skip + 1, _ :: bytes => unquoteToBytes skip bytes
  | 0, b :: bytes =>
    match if b = 37 then hexPair bytes else none with
    | some value => value :: unquoteToBytes 2 bytes
    | none => b :: unquoteToBytes 0 bytes

/-- An ASCII run, which was read backwards. -/
def unquoteRun (run : List UInt8) : Str := decodeReplace (unquoteToBytes 0 run.reverse)

/-- The runs of ASCII are unquoted; `run` stands before what is left. -/
def unquoteRuns : (run : List UInt8) → Str → Str
  | run, [] => unquoteRun run
  | run, c :: s =>
    if c.val < 128 then unquoteRuns (UInt8.ofNat c.val :: run) s
    else unquoteRun run ++ c :: unquoteRuns [] s

def unquote (s : Str) : Str := unquoteRuns [] s

/-! ## What is quoted is unquoted -/

theorem hexValue_hexDigit {n : ℕ} (small : n < 16) :
    hexValue (hexDigit (.ofNat n)) = some (.ofNat n) := by
  interval_cases n <;> rfl

theorem quoteByte_eq (b : UInt8) : quoteByte b = [b] ∧ safe b ∨
    quoteByte b = [37, hexDigit (.ofNat (b.toNat / 16)), hexDigit (.ofNat (b.toNat % 16))] := by
  have high : b / 16 = .ofNat (b.toNat / 16) := by
    rw [← UInt8.toNat_inj, toNat_ofNat (by have := b.toNat_lt; omega)]
    rfl
  have low : b % 16 = .ofNat (b.toNat % 16) := by
    rw [← UInt8.toNat_inj, toNat_ofNat (by omega)]
    rfl
  unfold quoteByte
  split_ifs with plain
  · exact .inl ⟨rfl, plain⟩
  · exact .inr (by rw [high, low])

theorem unquoteToBytes_quoteByte (b : UInt8) (rest : List UInt8) :
    unquoteToBytes 0 (quoteByte b ++ rest) = b :: unquoteToBytes 0 rest := by
  rcases quoteByte_eq b with ⟨quoted, plain⟩ | quoted
  · have other : b ≠ 37 := by
      rintro rfl
      exact absurd plain (by decide)
    rw [quoted, List.singleton_append, unquoteToBytes, if_neg other]
  · have high : b.toNat / 16 < 16 := by
      have := b.toNat_lt
      omega
    have low : b.toNat % 16 < 16 := Nat.mod_lt _ (by decide)
    have value : UInt8.ofNat (b.toNat / 16) * 16 + UInt8.ofNat (b.toNat % 16) = b := by
      rw [← UInt8.toNat_inj, UInt8.toNat_add, UInt8.toNat_mul, toNat_ofNat (by omega),
        toNat_ofNat (by omega)]
      change (b.toNat / 16 * 16 % 256 + b.toNat % 16) % 256 = b.toNat
      omega
    have pair : hexPair (hexDigit (.ofNat (b.toNat / 16)) :: hexDigit (.ofNat (b.toNat % 16)) ::
        rest) = some b := by
      rw [hexPair, hexValue_hexDigit high, hexValue_hexDigit low]
      exact congrArg some value
    simp only [quoted, List.cons_append, List.nil_append, unquoteToBytes, if_pos, pair]

theorem unquoteToBytes_quote (bytes : List UInt8) :
    unquoteToBytes 0 (bytes.flatMap quoteByte) = bytes := by
  induction bytes with
  | nil => rfl
  | cons b bytes ih => rw [List.flatMap_cons, unquoteToBytes_quoteByte, ih]

theorem ascii_hexDigit {n : ℕ} (small : n < 16) : (hexDigit (.ofNat n)).toNat < 128 := by
  interval_cases n <;> decide

theorem ascii_of_safe {b : UInt8} (h : safe b) : b.toNat < 128 := by
  simp only [safe, decide_eq_true_eq, List.mem_cons, List.not_mem_nil, or_false] at h
  rcases h with ⟨-, h⟩ | ⟨-, h⟩ | ⟨-, h⟩ | rfl | rfl | rfl | rfl | rfl
  iterate 3 exact (UInt8.le_iff_toNat_le.mp h).trans_lt (by decide)
  all_goals decide

theorem ascii_quoteByte (b : UInt8) : ∀ q ∈ quoteByte b, q.toNat < 128 := by
  rcases quoteByte_eq b with ⟨quoted, plain⟩ | quoted
  · rw [quoted, List.forall_mem_singleton]
    exact ascii_of_safe plain
  · have := b.toNat_lt
    rw [quoted]
    simp [ascii_hexDigit (show b.toNat / 16 < 16 by omega),
      ascii_hexDigit (show b.toNat % 16 < 16 by omega)]

theorem unquoteRuns_ofBytes {bytes : List UInt8} (ascii : ∀ b ∈ bytes, b.toNat < 128)
    (run : List UInt8) : unquoteRuns run (ofBytes bytes) = unquoteRun (bytes.reverse ++ run) := by
  induction bytes generalizing run with
  | nil => rfl
  | cons b bytes ih =>
    rw [List.forall_mem_cons] at ascii
    have rest := ih ascii.2 (b :: run)
    rw [ofBytes] at rest ⊢
    rw [List.map_cons, unquoteRuns, if_pos ascii.1, UInt8.ofNat_toNat, rest, List.reverse_cons,
      List.append_assoc, List.singleton_append]

theorem unquote_quote {s quoted : Str} (h : quote s = some quoted) : unquote quoted = s := by
  obtain ⟨bytes, encoded, rfl⟩ := Option.map_eq_some_iff.mp h
  have ascii : ∀ q ∈ bytes.flatMap quoteByte, q.toNat < 128 := by
    intro q hq
    obtain ⟨b, -, hb⟩ := List.mem_flatMap.mp hq
    exact ascii_quoteByte b q hb
  rw [unquote, unquoteRuns_ofBytes ascii, List.append_nil, unquoteRun, List.reverse_reverse,
    unquoteToBytes_quote, decodeReplace_encode encoded]

end Percent
