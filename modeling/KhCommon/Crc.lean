import KhCommon.Lib.ShiftRegister
import Mathlib.Data.Vector.Basic

/-! The `CRC` class: the constructor fills a table of 256 entries by doubling, and
a call reads it once for each byte. Integers are unbounded as in the source and the
masks are written out. The table is compared with a shift register fed one bit at a
time: entry `b` is the register loaded with `b` and shifted eight times, so one
look-up feeds a byte. -/

namespace KhCommon

open ShiftRegister

structure ValueError where
  message : String
deriving DecidableEq

structure CRC where
  bitlength : ℕ
  polynomial : ℕ
  bitmask : ℕ
  initValue : ℕ
  xorOut : ℕ
  table : Vector ℕ 256
deriving DecidableEq

namespace CRC

structure Filling where
  i : ℕ
  crc : ℕ
  table : Vector ℕ 256

/-- `for j in range(i)`. -/
def fillRow (i crc : ℕ) (table : Vector ℕ 256) (n : ℕ) : Vector ℕ 256 :=
  (List.range n).foldl (fun table j => table.setIfInBounds (i + j) (crc ^^^ table[j]!)) table

def double (bitlength polynomial : ℕ) (s : Filling) : Filling :=
  let crc := if s.crc &&& 0x01 <<< (bitlength - 1) ≠ 0 then s.crc <<< 1 ^^^ polynomial
    else s.crc <<< 1
  let crc := crc &&& (2 ^ bitlength - 1)
  ⟨s.i <<< 1, crc, fillRow s.i crc s.table s.i⟩

/-- `while i < 256`, for at most `fuel` rounds. -/
def fill (bitlength polynomial : ℕ) : ℕ → Filling → Filling
  | 0, s => s
  | fuel + 1, s => if s.i < 256 then fill bitlength polynomial fuel (double bitlength polynomial s)
      else s

def start (bitlength : ℕ) : Filling :=
  ⟨1, 0x01 <<< (bitlength - 1), .replicate 256 0⟩

/-- `CRC.__init__`; a shift by `0 - 1` is an error of its own. -/
def init (bitLength polynomial : ℕ) (initValue xorOut : Option ℕ) : Except ValueError CRC :=
  if bitLength % 8 ≠ 0 then .error ⟨"bit_length must be an integer and divisible by 8"⟩
  else if bitLength = 0 then .error ⟨"negative shift count"⟩
  else
    let bitmask := 2 ^ bitLength - 1
    .ok {
      bitlength := bitLength
      polynomial
      bitmask
      initValue := initValue.getD bitmask
      xorOut := xorOut.getD bitmask
      table := (fill bitLength polynomial 256 (start bitLength)).table }

/-- `i ^ ((crc >> (self.bitlength - 8)) & 0xff)`, always inside the table. -/
def index (self : CRC) (crc : ℕ) (i : UInt8) : Fin 256 :=
  ⟨i.toNat ^^^ (crc >>> (self.bitlength - 8) &&& 0xff),
    Nat.xor_lt_two_pow (n := 8) i.toNat_lt (Nat.and_lt_two_pow _ (by decide))⟩

def update (self : CRC) (crc : ℕ) (i : UInt8) : ℕ :=
  self.table.get (self.index crc i) ^^^ (crc <<< 8 &&& self.bitmask)

def call (self : CRC) (value : List UInt8) : ℕ :=
  value.foldl self.update self.initValue ^^^ self.xorOut

end CRC

def byteBits (b : UInt8) : List Bool :=
  (List.range 8).map fun k => b.toNat.testBit (7 - k)

/-- The bits of a message, the most significant of each byte first. -/
def messageBits (value : List UInt8) : List Bool :=
  value.flatMap byteBits

def bitwiseCRC {w : ℕ} (polynomial initValue xorOut : BitVec w) (value : List UInt8) : BitVec w :=
  feeds polynomial initValue (messageBits value) ^^^ xorOut

namespace CRC

variable {w : ℕ}

/-! ## The table -/

/-- What entry `b` should be: `b` on top of an empty register, shifted eight times. -/
def entry (p : BitVec w) (b : ℕ) : BitVec w :=
  shifts p 8 (BitVec.ofNat w b <<< (w - 8))

theorem entry_xor (p : BitVec w) (a b : ℕ) : entry p (a ^^^ b) = entry p a ^^^ entry p b := by
  rw [entry, BitVec.ofNat_xor, BitVec.shiftLeft_xor_distrib, shifts_xor, entry, entry]

theorem entry_two_pow (p : BitVec w) (hw : 8 ≤ w) {k : ℕ} (hk : k < 8) :
    entry p (2 ^ k) = shifts p (k + 1) (BitVec.intMin w) := by
  have moved (n : ℕ) : BitVec.ofNat w (2 ^ k) <<< n = BitVec.twoPow w (k + n) := by
    apply BitVec.eq_of_toNat_eq
    rw [BitVec.toNat_shiftLeft, BitVec.toNat_ofNat, BitVec.toNat_twoPow, Nat.shiftLeft_eq,
      Nat.mod_mul_mod, ← Nat.pow_add]
  have clear : ∀ i, w - (7 - k) ≤ i → (BitVec.twoPow w (k + (w - 8))).getLsbD i = false := by
    intro i hi
    rw [BitVec.getLsbD_twoPow]
    simp
    omega
  have top : BitVec.twoPow w (k + (w - 8)) <<< (7 - k) = BitVec.intMin w := by
    rw [← moved, ← BitVec.shiftLeft_add, moved, BitVec.intMin,
      show k + (w - 8 + (7 - k)) = w - 1 by omega]
  rw [entry, moved, show 8 = k + 1 + (7 - k) by omega, shifts_add]
  rw [show k + (w - (k + 1 + (7 - k))) = k + (w - 8) by omega, shifts_of_clear p _ _ clear, top]

theorem getElem!_set (table : Vector ℕ 256) (i v : ℕ) {j : ℕ} (hj : j < 256) :
    (table.setIfInBounds i v)[j]! = if i = j then v else table[j]! := by
  rw [getElem!_pos _ j hj, getElem!_pos _ j hj, Vector.getElem_setIfInBounds hj]

theorem getElem!_fillRow (i crc : ℕ) (table : Vector ℕ 256) {n : ℕ} (hn : n ≤ i) {j : ℕ}
    (hj : j < 256) :
    (fillRow i crc table n)[j]! =
      if i ≤ j ∧ j < i + n then crc ^^^ table[j - i]! else table[j]! := by
  induction n generalizing j with
  | zero =>
    rw [if_neg (by omega)]
    rfl
  | succ n ih =>
    have last : fillRow i crc table (n + 1) =
        (fillRow i crc table n).setIfInBounds (i + n) (crc ^^^ (fillRow i crc table n)[n]!) := by
      rw [fillRow, List.range_succ, List.foldl_append]
      rfl
    rw [last, getElem!_set _ _ _ hj]
    by_cases here : i + n = j
    · subst here
      rw [if_pos rfl, if_pos (by omega), Nat.add_sub_cancel_left, ih (by omega) (by omega),
        if_neg (by omega)]
    · rw [if_neg here, ih (by omega) hj]
      exact if_congr (by omega) rfl rfl

theorem double_crc (polynomial : ℕ) (x : BitVec w) :
    (if x.toNat &&& 0x01 <<< (w - 1) ≠ 0 then x.toNat <<< 1 ^^^ polynomial else x.toNat <<< 1) &&&
      (2 ^ w - 1) = (step (BitVec.ofNat w polynomial) x).toNat := by
  have top : x.toNat &&& 0x01 <<< (w - 1) ≠ 0 ↔ x.msb = true := by
    rw [Nat.one_shiftLeft, Nat.and_two_pow, BitVec.msb_eq_getLsbD_last, BitVec.getLsbD]
    cases x.toNat.testBit (w - 1) <;> simp
  rw [Nat.and_two_pow_sub_one_eq_mod, if_congr top rfl rfl, step, BitVec.toNat_xor,
    BitVec.toNat_shiftLeft]
  cases x.msb
  · simp
  · simp [Nat.xor_mod_two_pow]

theorem two_pow_xor {k r : ℕ} (hr : r < 2 ^ k) : 2 ^ k ^^^ r = 2 ^ k + r := by
  have disjoint : 2 ^ k + r = 2 ^ k ||| r := by
    simpa using Nat.two_pow_add_eq_or_of_lt hr 1
  rw [disjoint]
  apply Nat.eq_of_testBit_eq
  intro n
  rw [Nat.testBit_xor, Nat.testBit_or, Nat.testBit_two_pow]
  by_cases top : k = n
  · subst top
    simp [Nat.testBit_lt_two_pow hr]
  · simp [top]

structure Filled (p : BitVec w) (k : ℕ) (s : Filling) : Prop where
  i : s.i = 2 ^ k
  crc : s.crc = (shifts p k (BitVec.intMin w)).toNat
  table : ∀ j < 2 ^ k, s.table[j]! = (entry p j).toNat

theorem filled_start (hw : 0 < w) (p : BitVec w) : Filled p 0 (start w) where
  i := rfl
  crc := by
    show 0x01 <<< (w - 1) = (BitVec.intMin w).toNat
    rw [BitVec.toNat_intMin_of_pos hw, Nat.one_shiftLeft]
  table j hj := by
    obtain rfl : j = 0 := by omega
    simp [start, entry]

theorem Filled.double {polynomial k : ℕ} {s : Filling} (hw : 8 ≤ w)
    (h : Filled (BitVec.ofNat w polynomial) k s) (hk : k < 8) :
    Filled (BitVec.ofNat w polynomial) (k + 1) (double w polynomial s) := by
  have crc : (CRC.double w polynomial s).crc =
      (shifts (BitVec.ofNat w polynomial) (k + 1) (BitVec.intMin w)).toNat := by
    rw [shifts_succ', ← double_crc, ← h.crc]
    rfl
  have room : 2 ^ (k + 1) ≤ 256 := Nat.pow_le_pow_right (n := 2) (by decide) hk
  refine ⟨?_, crc, fun j hj => ?_⟩
  · show s.i <<< 1 = 2 ^ (k + 1)
    rw [h.i, Nat.shiftLeft_eq, ← Nat.pow_add]
  · have row : (CRC.double w polynomial s).table =
        fillRow s.i (CRC.double w polynomial s).crc s.table s.i := rfl
    rw [row, getElem!_fillRow _ _ _ le_rfl (by omega), h.i, crc]
    rw [Nat.pow_succ] at hj
    split_ifs with second
    · have split : j = 2 ^ k ^^^ (j - 2 ^ k) := by
        rw [two_pow_xor (by omega)]
        omega
      rw [h.table _ (by omega), ← entry_two_pow _ hw hk, ← BitVec.toNat_xor, ← entry_xor, ← split]
    · exact h.table j (by omega)

theorem filled_fill {polynomial : ℕ} (hw : 8 ≤ w) {k : ℕ} {s : Filling}
    (h : Filled (BitVec.ofNat w polynomial) k s) (hk : k ≤ 8) {fuel : ℕ} (enough : 8 < fuel + k) :
    Filled (BitVec.ofNat w polynomial) 8 (fill w polynomial fuel s) := by
  induction fuel generalizing k s with
  | zero => omega
  | succ fuel ih =>
    rw [fill, h.i]
    split_ifs with more
    · have hk' : k < 8 := (Nat.pow_lt_pow_iff_right (a := 2) (by decide)).mp more
      exact ih (h.double hw hk') hk' (by omega)
    · obtain rfl : k = 8 := by
        by_contra ne
        exact more (Nat.pow_lt_pow_right (a := 2) (by decide) (by omega : k < 8))
      exact h

theorem filled_table (hw : 8 ≤ w) (polynomial : ℕ) :
    Filled (BitVec.ofNat w polynomial) 8 (fill w polynomial 256 (start w)) :=
  filled_fill hw (filled_start (by omega) _) (by decide) (by decide)

/-! ## One byte -/

theorem load_byteBits (hw : 8 ≤ w) (b : UInt8) :
    load w (byteBits b) = BitVec.ofNat w b.toNat <<< (w - 8) := by
  apply BitVec.eq_of_getLsbD_eq
  intro i hi
  rw [getLsbD_load, BitVec.getLsbD_shiftLeft, BitVec.getLsbD_ofNat, byteBits]
  by_cases low : i < w - 8
  · rw [List.getD_eq_default _ _ (by simp; omega)]
    simp [low]
  · rw [List.getD_eq_getElem _ _ (by simp; omega), List.getElem_map, List.getElem_range,
      show 7 - (w - 1 - i) = i - (w - 8) by omega]
    simp [low, show i - (w - 8) < w by omega]

structure Built (p : BitVec w) (crc : CRC) : Prop where
  bitlength : crc.bitlength = w
  bitmask : crc.bitmask = 2 ^ w - 1
  table : ∀ j < 256, crc.table[j]! = (entry p j).toNat

variable {p : BitVec w} {crc : CRC}

theorem Built.update (h : Built p crc) (hw : 8 ≤ w) (x : BitVec w) (b : UInt8) :
    crc.update x.toNat b = (feeds p x (byteBits b)).toNat := by
  have small : x.toNat >>> (w - 8) < 2 ^ 8 := by
    rw [Nat.shiftRight_eq_div_pow, Nat.div_lt_iff_lt_mul (Nat.two_pow_pos _), ← Nat.pow_add,
      show 8 + (w - 8) = w by omega]
    exact x.isLt
  -- the register without its top byte
  obtain ⟨low, hlow⟩ : ∃ low, low = x ^^^ BitVec.ofNat w (x.toNat >>> (w - 8)) <<< (w - 8) :=
    ⟨_, rfl⟩
  have clear : ∀ i, w - 8 ≤ i → low.getLsbD i = false := by
    intro i hi
    rw [hlow, BitVec.getLsbD_xor, BitVec.getLsbD_shiftLeft, BitVec.getLsbD_ofNat,
      Nat.testBit_shiftRight, show w - 8 + (i - (w - 8)) = i by omega]
    by_cases inside : i < w
    · simp [inside, Nat.not_lt.mpr hi, show i - (w - 8) < w by omega, BitVec.getLsbD]
    · simp [inside, BitVec.getLsbD_of_ge x i (by omega)]
  have same : low <<< 8 = x <<< 8 := by
    rw [hlow, BitVec.shiftLeft_xor_distrib, ← BitVec.shiftLeft_add, Nat.sub_add_cancel hw,
      BitVec.shiftLeft_eq_zero le_rfl, BitVec.xor_zero]
  have index : (crc.index x.toNat b).val = b.toNat ^^^ x.toNat >>> (w - 8) := by
    show b.toNat ^^^ (x.toNat >>> (crc.bitlength - 8) &&& (2 ^ 8 - 1)) = _
    rw [h.bitlength, Nat.and_two_pow_sub_one_of_lt_two_pow small]
  have entries : crc.table.get (crc.index x.toNat b) =
      (entry p (b.toNat ^^^ x.toNat >>> (w - 8))).toNat := by
    rw [← index, ← h.table _ (crc.index x.toNat b).isLt, getElem!_pos crc.table _ (Fin.isLt _)]
    rfl
  have loaded : x ^^^ BitVec.ofNat w b.toNat <<< (w - 8) =
      BitVec.ofNat w (b.toNat ^^^ x.toNat >>> (w - 8)) <<< (w - 8) ^^^ low := by
    rw [hlow, BitVec.ofNat_xor, BitVec.shiftLeft_xor_distrib, BitVec.xor_comm x,
      BitVec.xor_assoc, BitVec.xor_comm x, ← BitVec.xor_assoc _ _ x, BitVec.xor_self,
      BitVec.zero_xor]
  calc crc.update x.toNat b
      = (entry p (b.toNat ^^^ x.toNat >>> (w - 8))).toNat ^^^ (x <<< 8).toNat := by
        rw [CRC.update, entries, h.bitmask, Nat.and_two_pow_sub_one_eq_mod, BitVec.toNat_shiftLeft]
    _ = (shifts p 8 (x ^^^ load w (byteBits b))).toNat := by
        rw [load_byteBits hw, loaded, shifts_xor, shifts_of_clear p 8 low clear, same,
          BitVec.toNat_xor, entry]
    _ = (feeds p x (byteBits b)).toNat := by
        rw [feeds_eq_shifts p x _ (by simpa [byteBits] using hw)]
        simp [byteBits]

theorem Built.foldl_update (h : Built p crc) (hw : 8 ≤ w) (x : BitVec w) (value : List UInt8) :
    value.foldl crc.update x.toNat = (feeds p x (messageBits value)).toNat := by
  induction value generalizing x with
  | nil => rfl
  | cons b value ih =>
    rw [List.foldl_cons, h.update hw, ih, ← feeds_append]
    rfl

theorem init_eq (hw : 0 < w) (h8 : 8 ∣ w) (polynomial : ℕ) (initValue xorOut : Option ℕ) :
    ∃ crc, init w polynomial initValue xorOut = .ok crc ∧
      Built (BitVec.ofNat w polynomial) crc ∧
      crc.initValue = initValue.getD (2 ^ w - 1) ∧ crc.xorOut = xorOut.getD (2 ^ w - 1) := by
  have filled := filled_table (Nat.le_of_dvd hw h8) polynomial
  unfold init
  rw [if_neg (not_not.mpr (Nat.mod_eq_zero_of_dvd h8)), if_neg (by omega)]
  exact ⟨_, rfl, ⟨rfl, rfl, filled.table⟩, rfl, rfl⟩

theorem init_call (hw : 0 < w) (h8 : 8 ∣ w) (polynomial : ℕ) (initValue xorOut : Option ℕ)
    (hinit : ∀ v ∈ initValue, v < 2 ^ w) (hxor : ∀ v ∈ xorOut, v < 2 ^ w) :
    ∃ crc, init w polynomial initValue xorOut = .ok crc ∧ ∀ value : List UInt8,
      crc.call value = (bitwiseCRC (BitVec.ofNat w polynomial)
        (BitVec.ofNat w (initValue.getD (2 ^ w - 1))) (BitVec.ofNat w (xorOut.getD (2 ^ w - 1)))
        value).toNat := by
  obtain ⟨crc, built, table, hi, hx⟩ := init_eq hw h8 polynomial initValue xorOut
  have inRange {v : Option ℕ} (hv : ∀ u ∈ v, u < 2 ^ w) :
      (BitVec.ofNat w (v.getD (2 ^ w - 1))).toNat = v.getD (2 ^ w - 1) := by
    rw [BitVec.toNat_ofNat]
    apply Nat.mod_eq_of_lt
    rcases v with _ | v
    · exact Nat.sub_one_lt (Nat.two_pow_pos w).ne'
    · exact hv v rfl
  refine ⟨crc, built, fun value => ?_⟩
  calc crc.call value
      = value.foldl crc.update (BitVec.ofNat w (initValue.getD (2 ^ w - 1))).toNat ^^^
          (BitVec.ofNat w (xorOut.getD (2 ^ w - 1))).toNat := by
        rw [inRange hinit, inRange hxor, CRC.call, hi, hx]
    _ = _ := by rw [table.foldl_update (Nat.le_of_dvd hw h8), bitwiseCRC, BitVec.toNat_xor]

end CRC

/-- For every width, polynomial and pair of parameters in range the object is built, and on every
byte string the table gives what feeding single bits gives. -/
theorem crc_call_eq_bitwiseCRC {w : ℕ} (hw : 0 < w) (h8 : 8 ∣ w) (polynomial : ℕ)
    (initValue xorOut : Option ℕ) (hinit : ∀ v ∈ initValue, v < 2 ^ w)
    (hxor : ∀ v ∈ xorOut, v < 2 ^ w) :
    ∃ crc, CRC.init w polynomial initValue xorOut = .ok crc ∧ ∀ value : List UInt8,
      crc.call value = (bitwiseCRC (BitVec.ofNat w polynomial)
        (BitVec.ofNat w (initValue.getD (2 ^ w - 1))) (BitVec.ofNat w (xorOut.getD (2 ^ w - 1)))
        value).toNat ∧
      crc.call value < 2 ^ w := by
  obtain ⟨crc, built, same⟩ := CRC.init_call hw h8 polynomial initValue xorOut hinit hxor
  exact ⟨crc, built, fun value => ⟨same value, same value ▸ BitVec.isLt _⟩⟩

theorem crc_call_eq_bitwiseCRC_eight : ∃ crc, CRC.init 8 0x07 (some 0) (some 0) = .ok crc ∧
    ∀ value : List UInt8, crc.call value = (bitwiseCRC (w := 8) 0x07 0 0 value).toNat ∧
      crc.call value < 2 ^ 8 :=
  crc_call_eq_bitwiseCRC (w := 8) (by decide) (by decide) 0x07 (some 0) (some 0)
    (by decide) (by decide)

example : bitwiseCRC (w := 8) 0x07 0 0 [0x74, 0x65, 0x73, 0x74] = 0xb9 := by decide

end KhCommon
