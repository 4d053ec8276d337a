import Mathlib.Data.Nat.Bitwise
import Mathlib.Data.BitVec
import Mathlib.Logic.Function.Iterate

/-! A shift register of `w` bits with feedback: the bit that leaves at the top is
compared with the next bit of the message, and the polynomial is added when they
differ. Every step is linear over `^^^`, so feeding a block of bits is the same as
loading them at the top of the register and shifting that many times. Two messages
of one length differ by what their difference feeds into an empty register, and
with an odd polynomial no difference that fits into the register is lost. -/

namespace ShiftRegister

variable {w : ℕ}

/-- One shift, the polynomial added when a one leaves. -/
def step (p x : BitVec w) : BitVec w :=
  x <<< 1 ^^^ bif x.msb then p else 0#w

def feed (p x : BitVec w) (b : Bool) : BitVec w :=
  x <<< 1 ^^^ bif x.msb != b then p else 0#w

def shifts (p : BitVec w) (n : ℕ) (x : BitVec w) : BitVec w :=
  (step p)^[n] x

def feeds (p x : BitVec w) (bits : List Bool) : BitVec w :=
  bits.foldl (feed p) x

/-- A block of bits at the top of the register, its first bit topmost. -/
def load (w : ℕ) : List Bool → BitVec w
  | [] => 0#w
  | b :: bits => (bif b then BitVec.intMin w else 0#w) ^^^ load w bits >>> 1

theorem step_xor (p x y : BitVec w) : step p (x ^^^ y) = step p x ^^^ step p y := by
  unfold step
  rw [BitVec.shiftLeft_xor_distrib, BitVec.msb_xor]
  have comm (a b c : BitVec w) : a ^^^ b ^^^ c = a ^^^ c ^^^ b := by
    rw [BitVec.xor_assoc, BitVec.xor_comm b, ← BitVec.xor_assoc]
  cases x.msb <;> cases y.msb
  · simp
  · simp [BitVec.xor_assoc]
  · simp [comm]
  · simp [comm _ p, ← BitVec.xor_assoc, BitVec.xor_assoc _ p p]

@[simp] theorem step_zero (p : BitVec w) : step p 0#w = 0#w := by
  simp [step]

theorem shifts_succ (p : BitVec w) (n : ℕ) (x : BitVec w) :
    shifts p (n + 1) x = shifts p n (step p x) :=
  Function.iterate_succ_apply _ _ _

theorem shifts_succ' (p : BitVec w) (n : ℕ) (x : BitVec w) :
    shifts p (n + 1) x = step p (shifts p n x) :=
  Function.iterate_succ_apply' _ _ _

theorem shifts_add (p : BitVec w) (m n : ℕ) (x : BitVec w) :
    shifts p (m + n) x = shifts p m (shifts p n x) :=
  Function.iterate_add_apply _ _ _ _

theorem shifts_xor (p : BitVec w) (n : ℕ) (x y : BitVec w) :
    shifts p n (x ^^^ y) = shifts p n x ^^^ shifts p n y := by
  induction n generalizing x y with
  | zero => rfl
  | succ n ih => rw [shifts_succ, step_xor, ih, ← shifts_succ, ← shifts_succ]

@[simp] theorem shifts_zero (p : BitVec w) (n : ℕ) : shifts p n 0#w = 0#w := by
  induction n with
  | zero => rfl
  | succ n ih => rw [shifts_succ, step_zero, ih]

theorem shifts_of_clear (p : BitVec w) (n : ℕ) (x : BitVec w)
    (clear : ∀ i, w - n ≤ i → x.getLsbD i = false) : shifts p n x = x <<< n := by
  induction n with
  | zero => simp [shifts]
  | succ n ih =>
    have above : ∀ i, w - n ≤ i → x.getLsbD i = false := fun i hi => clear i (by omega)
    have zero : (x <<< n).msb = false := by
      rw [BitVec.msb_shiftLeft, BitVec.getMsbD_eq_getLsbD, clear (w - 1 - n) (by omega),
        Bool.and_false]
    rw [shifts_succ', ih above, step, zero, cond_false, BitVec.xor_zero, BitVec.shiftLeft_add]

/-! ## Loading a block -/

theorem feed_eq_step (p x : BitVec w) (b : Bool) :
    feed p x b = step p (x ^^^ bif b then BitVec.intMin w else 0#w) := by
  rcases Nat.eq_zero_or_pos w with rfl | hw
  · exact Subsingleton.elim _ _
  · have gone : BitVec.intMin w <<< 1 = 0#w := by
      apply BitVec.eq_of_getLsbD_eq
      intro i hi
      rw [BitVec.getLsbD_shiftLeft, BitVec.getLsbD_intMin]
      simp
      omega
    cases b
    · simp [feed, step]
    · simp [feed, step, BitVec.shiftLeft_xor_distrib, gone, BitVec.msb_xor, BitVec.msb_intMin, hw]

theorem getLsbD_load (bits : List Bool) (i : ℕ) :
    (load w bits).getLsbD i = (decide (i < w) && bits.getD (w - 1 - i) false) := by
  induction bits generalizing i with
  | nil => simp [load]
  | cons b bits ih =>
    have top : (bif b then BitVec.intMin w else 0#w).getLsbD i = (decide (i + 1 = w) && b) := by
      cases b <;> simp [BitVec.getLsbD_intMin]
    rw [load, BitVec.getLsbD_xor, top, BitVec.getLsbD_ushiftRight, ih]
    by_cases last : i + 1 = w
    · subst last
      simp [show ¬1 + i < i + 1 by omega]
    · by_cases inside : i < w
      · obtain ⟨k, hk⟩ : ∃ k, w - 1 - i = k + 1 := ⟨w - 2 - i, by omega⟩
        rw [hk, List.getD_cons_succ, show w - 1 - (1 + i) = k by omega]
        simp [last, inside]
        omega
      · simp [last, inside]
        omega

theorem feeds_eq_shifts (p x : BitVec w) (bits : List Bool) (fits : bits.length ≤ w) :
    feeds p x bits = shifts p bits.length (x ^^^ load w bits) := by
  induction bits generalizing x with
  | nil => simp [feeds, shifts, load]
  | cons b bits ih =>
    rw [List.length_cons] at fits
    -- the rest of the block is moved up by the shift that takes `b` in
    have rest : step p (load w bits >>> 1) = load w bits := by
      have lowest : (load w bits).getLsbD 0 = false := by
        rw [getLsbD_load, List.getD_eq_default _ _ (by omega), Bool.and_false]
      rw [step, BitVec.msb_ushiftRight]
      apply BitVec.eq_of_getLsbD_eq
      intro i hi
      rcases i with _ | i
      · simp [lowest]
      · simp [hi, Nat.add_comm]
    calc feeds p x (b :: bits) = feeds p (feed p x b) bits := rfl
      _ = shifts p bits.length (feed p x b ^^^ load w bits) := ih _ (by omega)
      _ = shifts p bits.length (step p (x ^^^ load w (b :: bits))) := by
        rw [load, ← BitVec.xor_assoc, step_xor p _ (load w bits >>> 1), rest, ← feed_eq_step]
      _ = shifts p (bits.length + 1) (x ^^^ load w (b :: bits)) := (shifts_succ _ _ _).symm

theorem feeds_append (p x : BitVec w) (bits bits' : List Bool) :
    feeds p x (bits ++ bits') = feeds p (feeds p x bits) bits' :=
  List.foldl_append

/-! ## Two messages -/

theorem feed_xor (p x y : BitVec w) (b c : Bool) :
    feed p (x ^^^ y) (b ^^ c) = feed p x b ^^^ feed p y c := by
  have both : (bif b ^^ c then BitVec.intMin w else 0#w) =
      (bif b then BitVec.intMin w else 0#w) ^^^ bif c then BitVec.intMin w else 0#w := by
    cases b <;> cases c <;> simp
  rw [feed_eq_step, feed_eq_step, feed_eq_step, ← step_xor, both]
  congr 1
  ac_rfl

theorem feeds_xor (p x y : BitVec w) {bits bits' : List Bool}
    (length : bits.length = bits'.length) :
    feeds p (x ^^^ y) (List.zipWith xor bits bits') = feeds p x bits ^^^ feeds p y bits' := by
  induction bits generalizing x y bits' with
  | nil =>
    rw [List.eq_nil_of_length_eq_zero length.symm]
    rfl
  | cons b bits ih =>
    cases bits' with
    | nil => cases length
    | cons b' bits' =>
      rw [List.length_cons, List.length_cons, Nat.succ_inj] at length
      exact (congrArg (feeds p · _) (feed_xor p x y b b')).trans (ih _ _ length)

theorem feeds_replicate_false (p x : BitVec w) (n : ℕ) :
    feeds p x (List.replicate n false) = shifts p n x := by
  induction n generalizing x with
  | zero => rfl
  | succ n ih =>
    rw [List.replicate_succ, shifts_succ, ← ih]
    show feeds p (feed p x false) _ = _
    rw [feed_eq_step, cond_false, BitVec.xor_zero]

/-- The feedback of an odd polynomial shows in the lowest bit, where the shift leaves none. -/
theorem step_eq_zero_iff {p : BitVec w} (odd : p.getLsbD 0 = true) (x : BitVec w) :
    step p x = 0#w ↔ x = 0#w := by
  refine ⟨fun zero => ?_, fun zero => by rw [zero, step_zero]⟩
  have top : x.msb = false := by
    have lowest := congrArg (BitVec.getLsbD · 0) zero
    cases hx : x.msb
    · rfl
    · simp [step, hx, odd] at lowest
  rw [step, top, cond_false, BitVec.xor_zero] at zero
  apply BitVec.eq_of_getLsbD_eq
  intro i hi
  rw [BitVec.getLsbD_zero]
  by_cases last : i + 1 = w
  · rw [BitVec.msb_eq_getLsbD_last] at top
    rw [← top]
    congr 1
    omega
  · have moved : (x <<< 1).getLsbD (i + 1) = false := by rw [zero, BitVec.getLsbD_zero]
    rw [BitVec.getLsbD_shiftLeft, Nat.add_sub_cancel] at moved
    rw [← moved]
    simp [show i + 1 < w by omega]

theorem shifts_eq_zero_iff {p : BitVec w} (odd : p.getLsbD 0 = true) (n : ℕ) (x : BitVec w) :
    shifts p n x = 0#w ↔ x = 0#w := by
  induction n with
  | zero => rfl
  | succ n ih => rw [shifts_succ', step_eq_zero_iff odd, ih]

theorem feeds_ne_zero_of_burst {p : BitVec w} (odd : p.getLsbD 0 = true) {bits : List Bool}
    (one : true ∈ bits) {k : ℕ} (burst : ∀ i, bits[i]? = some true → k ≤ i ∧ i < k + w) :
    feeds p 0#w bits ≠ 0#w := by
  obtain ⟨before, hbefore⟩ : ∃ before, before = bits.take k := ⟨_, rfl⟩
  obtain ⟨block, hblock⟩ : ∃ block, block = (bits.drop k).take w := ⟨_, rfl⟩
  obtain ⟨after, hafter⟩ : ∃ after, after = (bits.drop k).drop w := ⟨_, rfl⟩
  have split : bits = before ++ (block ++ after) := by
    rw [hbefore, hblock, hafter, List.take_append_drop, List.take_append_drop]
  have zeros {front : List Bool} (h : true ∉ front) :
      front = List.replicate front.length false := by
    refine List.eq_replicate_iff.mpr ⟨rfl, fun b hb => ?_⟩
    cases b
    · rfl
    · exact absurd hb h
  have noneBefore : true ∉ before := by
    intro h
    obtain ⟨i, hi⟩ := List.mem_iff_getElem?.mp (hbefore ▸ h)
    rw [List.getElem?_take] at hi
    split_ifs at hi with inside
    have := burst i hi
    omega
  have noneAfter : true ∉ after := by
    intro h
    obtain ⟨i, hi⟩ := List.mem_iff_getElem?.mp (hafter ▸ h)
    rw [List.getElem?_drop, List.getElem?_drop] at hi
    have := burst _ hi
    omega
  have inBlock : true ∈ block := by
    rw [split, List.mem_append, List.mem_append] at one
    tauto
  have fits : block.length ≤ w := by
    rw [hblock]
    exact List.length_take_le _ _
  have loaded : load w block ≠ 0#w := by
    obtain ⟨j, hj⟩ := List.mem_iff_getElem?.mp inBlock
    have inside : j < block.length := (List.getElem?_eq_some_iff.mp hj).1
    intro zero
    have bit := getLsbD_load (w := w) block (w - 1 - j)
    rw [zero, show w - 1 - (w - 1 - j) = j by omega, List.getD_eq_getElem?_getD, hj] at bit
    simp [show w - 1 - j < w by omega] at bit
  rw [split, feeds_append, feeds_append, zeros noneBefore, zeros noneAfter, feeds_replicate_false,
    feeds_replicate_false, shifts_zero, feeds_eq_shifts p _ _ fits, BitVec.zero_xor]
  exact fun zero => loaded ((shifts_eq_zero_iff odd _ _).mp ((shifts_eq_zero_iff odd _ _).mp zero))

end ShiftRegister
