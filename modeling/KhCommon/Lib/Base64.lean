import Mathlib.Tactic.NormNum

/-! Base64 with the decoder of Python's `binascii`, which is not strict: it skips
bytes outside the alphabet, ignores padding it does not need, stops at padding
that completes a group, and fails only when a group is left open at the end.
`body` is the encoding without padding. -/

namespace Base64

def pad : UInt8 := 61

def digit (n : ℕ) : UInt8 :=
  if n < 26 then UInt8.ofNat (n + 65)
  else if n < 52 then UInt8.ofNat (n + 71)
  else if n < 62 then UInt8.ofNat (n - 4)
  else if n = 62 then 43 else 47

def value (ch : UInt8) : Option ℕ :=
  if 65 ≤ ch.toNat ∧ ch.toNat ≤ 90 then some (ch.toNat - 65)
  else if 97 ≤ ch.toNat ∧ ch.toNat ≤ 122 then some (ch.toNat - 71)
  else if 48 ≤ ch.toNat ∧ ch.toNat ≤ 57 then some (ch.toNat + 4)
  else if ch = 43 then some 62
  else if ch = 47 then some 63
  else none

def body : List UInt8 → List UInt8
  | a :: b :: c :: rest =>
    digit (a.toNat / 4) :: digit (a.toNat % 4 * 16 + b.toNat / 16) ::
      digit (b.toNat % 16 * 4 + c.toNat / 64) :: digit (c.toNat % 64) :: body rest
  | [a, b] =>
    [digit (a.toNat / 4), digit (a.toNat % 4 * 16 + b.toNat / 16), digit (b.toNat % 16 * 4)]
  | [a] => [digit (a.toNat / 4), digit (a.toNat % 4 * 16)]
  | [] => []

def padding (bytes : List UInt8) : List UInt8 := List.replicate ((3 - bytes.length % 3) % 3) pad

/-- `b2a_base64(bytes, newline=False)`. -/
def encode (bytes : List UInt8) : List UInt8 := body bytes ++ padding bytes

/-- The loop of `a2b_base64`: `quad` characters of the open group are read, `left` holds the
bits of the last of them that are not yet written, `pads` counts padding since. -/
def decodeFrom (quad left pads : ℕ) : List UInt8 → Option (List UInt8)
  | [] => if quad = 0 then some [] else none
  | ch :: rest =>
    if ch = pad then
      if 2 ≤ quad then
        if 4 ≤ quad + (pads + 1) then some [] else decodeFrom quad left (pads + 1) rest
      else decodeFrom quad left pads rest
    else
      match value ch with
      | none => decodeFrom quad left pads rest
      | some bits =>
        match quad with
        | 0 => decodeFrom 1 bits 0 rest
        | 1 => (decodeFrom 2 (bits % 16) 0 rest).map (UInt8.ofNat (left * 4 + bits / 16) :: ·)
        | 2 => (decodeFrom 3 (bits % 4) 0 rest).map (UInt8.ofNat (left * 16 + bits / 4) :: ·)
        | _ => (decodeFrom 0 0 0 rest).map (UInt8.ofNat (left * 64 + bits) :: ·)

/-- `a2b_base64(chars)`. -/
def decode (chars : List UInt8) : Option (List UInt8) := decodeFrom 0 0 0 chars

theorem value_digit {n : ℕ} (h : n < 64) : value (digit n) = some n := by
  revert n
  decide

theorem digit_ne_pad {n : ℕ} (h : n < 64) : digit n ≠ pad := by
  revert n
  decide

theorem exists_digit_of_mem_body {bytes : List UInt8} {ch : UInt8} (h : ch ∈ body bytes) :
    ∃ n < 64, ch = digit n := by
  induction bytes using body.induct with
  | case1 a b c rest ih =>
    have ha := a.toNat_lt
    have hb := b.toNat_lt
    have hc := c.toNat_lt
    simp only [body, List.mem_cons] at h
    rcases h with rfl | rfl | rfl | rfl | h
    · exact ⟨_, by omega, rfl⟩
    · exact ⟨_, by omega, rfl⟩
    · exact ⟨_, by omega, rfl⟩
    · exact ⟨_, by omega, rfl⟩
    · exact ih h
  | case2 a b =>
    have ha := a.toNat_lt
    have hb := b.toNat_lt
    simp only [body, List.mem_cons, List.not_mem_nil, or_false] at h
    rcases h with rfl | rfl | rfl <;> exact ⟨_, by omega, rfl⟩
  | case3 a =>
    have ha := a.toNat_lt
    simp only [body, List.mem_cons, List.not_mem_nil, or_false] at h
    rcases h with rfl | rfl <;> exact ⟨_, by omega, rfl⟩
  | case4 => simp [body] at h

section Digits

variable {quad left pads n : ℕ} {rest : List UInt8}

theorem decodeFrom_digit_zero (h : n < 64) :
    decodeFrom 0 left pads (digit n :: rest) = decodeFrom 1 n 0 rest := by
  rw [decodeFrom, if_neg (digit_ne_pad h)]
  simp only [value_digit h]

theorem decodeFrom_digit_one (h : n < 64) : decodeFrom 1 left pads (digit n :: rest) =
    (decodeFrom 2 (n % 16) 0 rest).map (UInt8.ofNat (left * 4 + n / 16) :: ·) := by
  rw [decodeFrom, if_neg (digit_ne_pad h)]
  simp only [value_digit h]

theorem decodeFrom_digit_two (h : n < 64) : decodeFrom 2 left pads (digit n :: rest) =
    (decodeFrom 3 (n % 4) 0 rest).map (UInt8.ofNat (left * 16 + n / 4) :: ·) := by
  rw [decodeFrom, if_neg (digit_ne_pad h)]
  simp only [value_digit h]

theorem decodeFrom_digit_three (h : n < 64) : decodeFrom 3 left pads (digit n :: rest) =
    (decodeFrom 0 0 0 rest).map (UInt8.ofNat (left * 64 + n) :: ·) := by
  rw [decodeFrom, if_neg (digit_ne_pad h)]
  simp only [value_digit h]

theorem decodeFrom_pad_two : decodeFrom 2 left 0 [pad, pad] = some [] := rfl

theorem decodeFrom_pad_three : decodeFrom 3 left 0 [pad] = some [] := rfl

end Digits

theorem ofNat_of_eq {n : ℕ} {b : UInt8} (h : n = b.toNat) : UInt8.ofNat n = b := by
  rw [h, UInt8.ofNat_toNat]

theorem decode_body (bytes : List UInt8) :
    decode (body bytes ++ List.replicate (4 - (body bytes).length % 4) pad) = some bytes := by
  unfold decode
  induction bytes using body.induct with
  | case1 a b c rest ih =>
    have ha := a.toNat_lt
    have hb := b.toNat_lt
    have hc := c.toNat_lt
    have length : (body (a :: b :: c :: rest)).length % 4 = (body rest).length % 4 := by
      simp only [body, List.length_cons]
      omega
    rw [length, body, List.cons_append, List.cons_append, List.cons_append, List.cons_append,
      decodeFrom_digit_zero (by omega), decodeFrom_digit_one (by omega),
      decodeFrom_digit_two (by omega), decodeFrom_digit_three (by omega), ih]
    simp only [Option.map_some, Option.some.injEq, List.cons.injEq, and_true]
    exact ⟨ofNat_of_eq (by omega), ofNat_of_eq (by omega), ofNat_of_eq (by omega)⟩
  | case2 a b =>
    have ha := a.toNat_lt
    have hb := b.toNat_lt
    have padded : body [a, b] ++ List.replicate (4 - (body [a, b]).length % 4) pad =
        [digit (a.toNat / 4), digit (a.toNat % 4 * 16 + b.toNat / 16), digit (b.toNat % 16 * 4),
          pad] := rfl
    rw [padded, decodeFrom_digit_zero (by omega), decodeFrom_digit_one (by omega),
      decodeFrom_digit_two (by omega), decodeFrom_pad_three]
    simp only [Option.map_some, Option.some.injEq, List.cons.injEq, and_true]
    exact ⟨ofNat_of_eq (by omega), ofNat_of_eq (by omega)⟩
  | case3 a =>
    have ha := a.toNat_lt
    have padded : body [a] ++ List.replicate (4 - (body [a]).length % 4) pad =
        [digit (a.toNat / 4), digit (a.toNat % 4 * 16), pad, pad] := rfl
    rw [padded, decodeFrom_digit_zero (by omega), decodeFrom_digit_one (by omega),
      decodeFrom_pad_two]
    simp only [Option.map_some, Option.some.injEq, List.cons.injEq, and_true]
    exact ofNat_of_eq (by omega)
  | case4 => rfl

end Base64
