import KhCommon.Lib.Split
import KhCommon.Lib.Trim
import Mathlib.Data.List.DropRight
import Mathlib.Data.List.TakeWhile
import Mathlib.Data.String.Basic

/-! Python strings: lists of code points, surrogates among them. Encoding is
strict UTF-8, so a string with a surrogate cannot be encoded; on ASCII it keeps
every code point as one byte. `find` and the slices use the signed indices of
the language, where `find` answers -1 for a character that does not occur. -/

namespace Python

open Split

abbrev CodePoint := Fin 0x110000

abbrev Str := List CodePoint

/-- The character a code point stands for; none for a surrogate. -/
def CodePoint.char? (p : CodePoint) : Option Char :=
  if p.val.isValidChar then some (Char.ofNat p.val) else none

def CodePoint.ofChar (c : Char) : CodePoint :=
  ⟨c.toNat, by have := c.valid; simp [UInt32.isValidChar, Nat.isValidChar] at this; omega⟩

def encode : Str → Option (List UInt8)
  | [] => some []
  | p :: s =>
    match p.char?, encode s with
    | some c, some bytes => some (String.utf8EncodeChar c ++ bytes)
    | _, _ => none

def decode (bytes : List UInt8) : Option Str :=
  bytes.toByteArray.utf8Decode?.map fun cs => cs.toList.map CodePoint.ofChar

def asciiEncode (s : Str) : Option (List UInt8) :=
  if s.all fun p => p.val < 128 then some (s.map fun p => UInt8.ofNat p.val) else none

/-- The string of the same code points as `bytes`. -/
def ofBytes (bytes : List UInt8) : Str :=
  bytes.map fun b => ⟨b.toNat, by have := b.toNat_lt; omega⟩

def isSpace (p : CodePoint) : Bool :=
  (9 ≤ p.val ∧ p.val ≤ 13) ∨ (28 ≤ p.val ∧ p.val ≤ 32) ∨ p.val = 133 ∨ p.val = 160 ∨
    p.val = 5760 ∨ (8192 ≤ p.val ∧ p.val ≤ 8202) ∨ p.val = 8232 ∨ p.val = 8233 ∨ p.val = 8239 ∨
    p.val = 8287 ∨ p.val = 12288

def split (s : Str) : List Str := words isSpace s

def stripSpace (s : Str) : Str := Trim.trim isSpace s

def astral (p : CodePoint) : Bool := 0x10000 ≤ p.val

def utf16Units (p : CodePoint) : List UInt16 :=
  if astral p then
    [.ofNat (0xD800 + (p.val - 0x10000) / 0x400), .ofNat (0xDC00 + (p.val - 0x10000) % 0x400)]
  else [.ofNat p.val]

def utf16 (s : Str) : List UInt16 := s.flatMap utf16Units

def literal (s : String) : Str := s.toList.map CodePoint.ofChar

section Slices

variable {α : Type*} [DecidableEq α]

def find (c : α) (s : List α) : ℤ :=
  match first c s with
  | some (before, _) => before.length
  | none => -1

def rfind (p s : List α) : ℤ :=
  match lastAt p s with
  | some i => i
  | none => -1

/-- Where the index `i` of a slice of `s` stands. -/
def position (s : List α) (i : ℤ) : ℕ := if i < 0 then (s.length + i).toNat else i.toNat

def sliceFrom (s : List α) (i : ℤ) : List α := s.drop (position s i)

def sliceTo (s : List α) (i : ℤ) : List α := s.take (position s i)

def slice (s : List α) (i j : ℤ) : List α := (s.take (position s j)).drop (position s i)

def strip (c : α) (s : List α) : List α := (s.rdropWhile (· = c)).dropWhile (· = c)

theorem strip_append_replicate {c : α} {s : List α} (h : c ∉ s) (n : ℕ) :
    strip c (s ++ List.replicate n c) = s := by
  have back : (s ++ List.replicate n c).rdropWhile (· = c) = s := by
    induction n with
    | zero =>
      rw [List.replicate_zero, List.append_nil, List.rdropWhile_eq_self_iff]
      intro hs
      have last := List.getLast_mem hs
      simpa using fun e : s.getLast hs = c => h (e ▸ last)
    | succ n ih =>
      rw [List.replicate_succ', ← List.append_assoc, List.rdropWhile_concat_pos _ _ _ (by simp), ih]
  rw [strip, back, List.dropWhile_eq_self_iff]
  intro hs
  have head := List.getElem_mem hs
  simpa using fun e : s[0] = c => h (e ▸ head)

theorem find_of_split {c : α} {before : List α} (h : c ∉ before) (after : List α) :
    find c (before ++ c :: after) = before.length := by
  rw [find, first_eq_some_iff.mpr ⟨rfl, h⟩]

theorem find_of_not_mem {c : α} {s : List α} (h : c ∉ s) : find c s = -1 := by
  rw [find, first_eq_none_iff.mpr h]

theorem sliceFrom_find {c : α} {before : List α} (h : c ∉ before) (after : List α) :
    sliceFrom (before ++ c :: after) (find c (before ++ c :: after) + 1) = after := by
  rw [find_of_split h, sliceFrom, position, if_neg (by omega)]
  have index : ((before.length : ℤ) + 1).toNat = (before ++ [c]).length := by simp
  have regroup : before ++ c :: after = (before ++ [c]) ++ after := by simp
  rw [index, regroup, List.drop_left]

theorem sliceFrom_find_of_not_mem {c : α} {s : List α} (h : c ∉ s) :
    sliceFrom s (find c s + 1) = s := by
  rw [find_of_not_mem h]
  rfl

theorem sliceTo_find {c : α} {before : List α} (h : c ∉ before) (after : List α) :
    sliceTo (before ++ c :: after) (find c (before ++ c :: after)) = before := by
  rw [find_of_split h, sliceTo, position, if_neg (by omega), Int.toNat_natCast, List.take_left]

end Slices

theorem astral_of_isSpace {p : CodePoint} (h : isSpace p) : astral p = false := by
  simp only [isSpace, decide_eq_true_eq] at h
  simp only [astral, decide_eq_false_iff_not]
  omega

theorem length_utf16 (s : Str) : (utf16 s).length = s.length + s.countP astral := by
  induction s with
  | nil => rfl
  | cons p s ih =>
    have head : (utf16 (p :: s)).length = (utf16Units p).length + (utf16 s).length := by
      simp [utf16]
    rw [head, ih, List.length_cons, List.countP_cons, utf16Units]
    split_ifs
    · rw [List.length_cons, List.length_singleton]
      omega
    · rw [List.length_singleton]
      omega

theorem toNat_charOfNat {n : ℕ} (valid : n.isValidChar) : (Char.ofNat n).toNat = n := by
  rw [Char.ofNat, dif_pos valid]
  rfl

theorem CodePoint.ofChar_of_char? {p : CodePoint} {c : Char} (h : p.char? = some c) :
    CodePoint.ofChar c = p := by
  unfold CodePoint.char? at h
  split_ifs at h with valid
  cases h
  apply Fin.ext
  exact toNat_charOfNat valid

theorem chars_of_encode {s : Str} {bytes : List UInt8} (h : encode s = some bytes) :
    ∃ cs : List Char, s = cs.map CodePoint.ofChar ∧ bytes = cs.flatMap String.utf8EncodeChar := by
  induction s generalizing bytes with
  | nil => exact ⟨[], rfl, by simpa [encode] using h.symm⟩
  | cons p s ih =>
    unfold encode at h
    cases hp : p.char? with
    | none => simp [hp] at h
    | some c =>
      cases hs : encode s with
      | none => simp [hp, hs] at h
      | some rest =>
        obtain ⟨cs, rfl, rfl⟩ := ih hs
        simp only [hp, hs, Option.some.injEq] at h
        exact ⟨c :: cs, by simp [CodePoint.ofChar_of_char? hp], by simpa using h.symm⟩

theorem decode_encode {s : Str} {bytes : List UInt8} (h : encode s = some bytes) :
    decode bytes = some s := by
  obtain ⟨cs, rfl, rfl⟩ := chars_of_encode h
  have decoded : (cs.flatMap String.utf8EncodeChar).toByteArray.utf8Decode? = some cs.toArray :=
    List.utf8Decode?_utf8Encode
  rw [decode, decoded]
  rfl

theorem eq_of_mem_utf8EncodeChar {c : Char} {b : UInt8} (h : b ∈ String.utf8EncodeChar c)
    (ascii : b.toNat < 128) : c.toNat = b.toNat := by
  unfold String.utf8EncodeChar at h
  dsimp only at h
  change c.val.toNat = b.toNat
  have byte : ∀ n, b = UInt8.ofNat n → b.toNat = n % 256 := fun n hn => hn ▸ UInt8.toNat_ofNat'
  split_ifs at h with one two three <;> simp only [List.mem_cons, List.not_mem_nil, or_false] at h
  · have := byte _ h
    omega
  · rcases h with h | h <;> have := byte _ h <;> omega
  · rcases h with h | h | h <;> have := byte _ h <;> omega
  · rcases h with h | h | h | h <;> have := byte _ h <;> omega

theorem not_mem_encode {s : Str} {bytes : List UInt8} (h : encode s = some bytes) {b : UInt8}
    (ascii : b.toNat < 128) (absent : ∀ p ∈ s, p.val ≠ b.toNat) : b ∉ bytes := by
  obtain ⟨cs, rfl, rfl⟩ := chars_of_encode h
  intro hb
  obtain ⟨c, hc, hmem⟩ := List.mem_flatMap.mp hb
  exact absent _ (List.mem_map_of_mem hc) (eq_of_mem_utf8EncodeChar hmem ascii)

theorem utf8EncodeChar_ascii {n : ℕ} (ascii : n < 128) :
    String.utf8EncodeChar (Char.ofNat n) = [UInt8.ofNat n] := by
  have valid : n.isValidChar := Or.inl (by omega)
  have value : (Char.ofNat n).val.toNat = n := toNat_charOfNat valid
  unfold String.utf8EncodeChar
  dsimp only
  rw [value, if_pos (by omega)]

theorem encode_ofBytes {bytes : List UInt8} (ascii : ∀ b ∈ bytes, b.toNat < 128) :
    encode (ofBytes bytes) = some bytes := by
  induction bytes with
  | nil => rfl
  | cons b bytes ih =>
    rw [List.forall_mem_cons] at ascii
    have valid : b.toNat.isValidChar := Or.inl (by omega)
    have rest := ih ascii.2
    rw [ofBytes] at rest
    simp only [ofBytes, List.map_cons, encode, CodePoint.char?, if_pos valid, rest,
      utf8EncodeChar_ascii ascii.1, UInt8.ofNat_toNat, List.singleton_append]

theorem asciiEncode_ofBytes {bytes : List UInt8} (ascii : ∀ b ∈ bytes, b.toNat < 128) :
    asciiEncode (ofBytes bytes) = some bytes := by
  have small : ((ofBytes bytes).all fun p => p.val < 128) = true := by
    rw [List.all_eq_true]
    intro p hp
    obtain ⟨b, hb, rfl⟩ := List.mem_map.mp hp
    exact decide_eq_true (ascii b hb)
  rw [asciiEncode, if_pos small, ofBytes, List.map_map]
  simp [Function.comp_def]

end Python
