import KhCommon.Lib.Python

/-! `Listener.splitMessage`: a text longer than the limit is cut at the first break of
the list that is found in what may still be sent, and not at its start. Nothing but
the breaks cut at is lost, no piece is too long, and no piece is empty. -/

namespace KhCommon.Telegram

open Python Split

structure Listener where
  textLimit : ℕ
  textBreaks : List Str

namespace Listener

/-- `for splitter in self.text_breaks`, with `t_split` and `splitter` as they are left. -/
def findBreak (t : Str) : List Str → ℤ × Str → ℤ × Str
  | [], found => found
  | splitter :: breaks, _ =>
    let tSplit := rfind splitter t
    if tSplit > 0 then (tSplit, splitter) else findBreak t breaks (tSplit, splitter)

variable (self : Listener)

def cut (text : Str) : Str × Str :=
  let t := sliceTo text self.textLimit
  let (tSplit, splitter) := findBreak t self.textBreaks (-1, [])
  let (tSplit, splitter) : ℤ × Str :=
    if tSplit ≤ 0 then (self.textLimit, []) else (tSplit, splitter)
  (sliceTo text tSplit, sliceFrom text (tSplit + splitter.length))

/-- `while len(text) > self.text_limit`, for at most `fuel` rounds, and the last `append`. -/
def splitLoop : (fuel : ℕ) → (messages : List Str) → (text : Str) → Option (List Str)
  | 0, messages, text => if text.length > self.textLimit then none else some (messages ++ [text])
  | fuel + 1, messages, text =>
    if text.length > self.textLimit then
      let (message, text) := self.cut text
      splitLoop fuel (messages ++ [message]) text
    else some (messages ++ [text])

def splitMessage (fuel : ℕ) (text : Str) : Option (List Str) :=
  if text.length ≤ self.textLimit then some [text] else self.splitLoop fuel [] text

/-! ## What a cut is -/

def Qualifies (t splitter : Str) : Prop := ∃ i, LastOccurs splitter t i ∧ 0 < i

/-- The text is cut at the last occurrence of the first break that qualifies, or at the limit. -/
structure CutAt (text message separator rest : Str) : Prop where
  split : text = message ++ separator ++ rest
  place : (∃ before after, self.textBreaks = before ++ separator :: after ∧
      (∀ splitter ∈ before, ¬Qualifies (text.take self.textLimit) splitter) ∧
      LastOccurs separator (text.take self.textLimit) message.length ∧ 0 < message.length) ∨
    (separator = [] ∧ message.length = self.textLimit ∧
      ∀ splitter ∈ self.textBreaks, ¬Qualifies (text.take self.textLimit) splitter)

inductive Cuts : Str → List Str → List Str → Prop
  | last {text : Str} (short : text.length ≤ self.textLimit) : Cuts text [text] []
  | next {text message separator rest : Str} {messages separators : List Str}
    (long : self.textLimit < text.length) (cut : self.CutAt text message separator rest)
    (later : Cuts rest messages separators) :
    Cuts text (message :: messages) (separator :: separators)

/-! ## One cut -/

theorem sliceTo_natCast (s : Str) (i : ℕ) : sliceTo s i = s.take i := by
  rw [sliceTo, position, if_neg (by omega), Int.toNat_natCast]

theorem sliceFrom_natCast (s : Str) (i : ℕ) : sliceFrom s i = s.drop i := by
  rw [sliceFrom, position, if_neg (by omega), Int.toNat_natCast]

theorem rfind_eq_of_lastOccurs {splitter t : Str} {i : ℕ} (h : LastOccurs splitter t i) :
    rfind splitter t = i := by
  rw [rfind, lastAt_eq_some_iff.mpr h]

theorem not_qualifies_iff {splitter t : Str} : ¬Qualifies t splitter ↔ rfind splitter t ≤ 0 := by
  cases found : lastAt splitter t with
  | none =>
    have absent := lastAt_eq_none_iff.mp found
    refine iff_of_true ?_ (by simp [rfind, found])
    rintro ⟨i, last, -⟩
    exact absent i last.1
  | some j =>
    have last := lastAt_eq_some_iff.mp found
    rw [rfind_eq_of_lastOccurs last]
    constructor
    · intro none
      exact Int.ofNat_le.mpr (not_lt.mp fun pos => none ⟨j, last, pos⟩)
    · rintro start ⟨i, last', pos⟩
      rw [last'.unique last] at pos
      omega

theorem findBreak_cases (t : Str) (breaks : List Str) (found : ℤ × Str) (none : found.1 ≤ 0) :
    (∃ before splitter after i, breaks = before ++ splitter :: after ∧
      (∀ b ∈ before, ¬Qualifies t b) ∧ LastOccurs splitter t i ∧ 0 < i ∧
      findBreak t breaks found = (↑i, splitter)) ∨
    ((∀ b ∈ breaks, ¬Qualifies t b) ∧ (findBreak t breaks found).1 ≤ 0) := by
  induction breaks generalizing found with
  | nil => exact .inr ⟨by simp, none⟩
  | cons splitter breaks ih =>
    by_cases qualifies : Qualifies t splitter
    · obtain ⟨i, last, pos⟩ := qualifies
      have position := rfind_eq_of_lastOccurs last
      refine .inl ⟨[], splitter, breaks, i, rfl, by simp, last, pos, ?_⟩
      rw [findBreak, position, if_pos (by omega)]
    · have start := not_qualifies_iff.mp qualifies
      rw [findBreak, if_neg (not_lt.mpr start)]
      rcases ih (rfind splitter t, splitter) start with
        ⟨before, splitter', after, i, rfl, earlier, last, pos, result⟩ | ⟨others, result⟩
      · exact .inl ⟨splitter :: before, splitter', after, i, rfl,
          List.forall_mem_cons.mpr ⟨qualifies, earlier⟩, last, pos, result⟩
      · exact .inr ⟨List.forall_mem_cons.mpr ⟨qualifies, others⟩, result⟩

variable {self} {text : Str}

theorem cut_cutAt (long : self.textLimit < text.length) :
    ∃ separator, self.CutAt text (self.cut text).1 separator (self.cut text).2 := by
  rcases findBreak_cases (text.take self.textLimit) self.textBreaks (-1, []) (by simp)
    with ⟨before, splitter, after, i, breaks, earlier, last, pos, result⟩ | ⟨others, result⟩
  · have cutAs : self.cut text = (text.take i, text.drop (i + splitter.length)) := by
      rw [cut, sliceTo_natCast, result]
      simp only [show ¬(i : ℤ) ≤ 0 by omega, if_false]
      rw [sliceTo_natCast, ← Int.natCast_add, sliceFrom_natCast]
    have room := last.1.add_length_le
    rw [List.length_take, min_eq_left long.le] at room
    obtain ⟨front, back, split, rfl⟩ := last.1
    have whole : text = front ++ splitter ++ (back ++ text.drop self.textLimit) := by
      rw [← List.append_assoc, ← split, List.take_append_drop]
    refine ⟨splitter, ?_, .inl ⟨before, after, breaks, earlier, ?_, ?_⟩⟩
    · rw [cutAs]
      rw [whole]
      simp
    · rw [cutAs, List.length_take, min_eq_left (by omega)]
      exact last
    · rw [cutAs, List.length_take, min_eq_left (by omega)]
      exact pos
  · have cutAs : self.cut text = (text.take self.textLimit, text.drop self.textLimit) := by
      rw [cut, sliceTo_natCast]
      simp only [result, if_true]
      rw [sliceTo_natCast, List.length_nil, Int.natCast_zero, Int.add_zero, sliceFrom_natCast]
    refine ⟨[], ?_, .inr ⟨rfl, ?_, others⟩⟩
    · rw [cutAs, List.append_nil, List.take_append_drop]
    · rw [cutAs, List.length_take, min_eq_left long.le]

theorem CutAt.bounds {message separator rest : Str} (h : self.CutAt text message separator rest)
    (pos : 1 ≤ self.textLimit) :
    message.length + separator.length ≤ self.textLimit ∧ 0 < message.length := by
  rcases CutAt.place h with ⟨-, -, -, -, last, inside⟩ | ⟨rfl, limit, -⟩
  · exact ⟨last.1.add_length_le.trans (List.length_take_le _ _), inside⟩
  · exact ⟨limit.le, by omega⟩

theorem CutAt.rest_length {message separator rest : Str}
    (h : self.CutAt text message separator rest) (pos : 1 ≤ self.textLimit)
    (long : self.textLimit < text.length) : 0 < rest.length ∧ rest.length < text.length := by
  obtain ⟨fits, inside⟩ := h.bounds pos
  have total := congrArg List.length (CutAt.split h)
  rw [List.length_append, List.length_append] at total
  omega

/-! ## All cuts -/

theorem splitLoop_cuts (pos : 1 ≤ self.textLimit) (n : ℕ) (text : Str)
    (short : text.length ≤ n) :
    ∃ messages separators, self.Cuts text messages separators ∧
      ∀ fuel, n ≤ fuel → ∀ sent, self.splitLoop fuel sent text = some (sent ++ messages) := by
  induction n generalizing text with
  | zero =>
    have within : text.length ≤ self.textLimit := by omega
    refine ⟨[text], [], .last within, fun fuel _ sent => ?_⟩
    cases fuel <;> rw [splitLoop, if_neg (not_lt.mpr within)]
  | succ n ih =>
    by_cases long : self.textLimit < text.length
    · obtain ⟨separator, cut⟩ := cut_cutAt long
      obtain ⟨-, shorter⟩ := cut.rest_length pos long
      obtain ⟨messages, separators, later, ends⟩ := ih (self.cut text).2 (by omega)
      refine ⟨_, _, .next long cut later, fun fuel enough sent => ?_⟩
      obtain ⟨fuel, rfl⟩ : ∃ m, fuel = m + 1 := ⟨fuel - 1, by omega⟩
      rw [splitLoop, if_pos long]
      exact (ends fuel (by omega) _).trans (by rw [List.append_assoc]; rfl)
    · refine ⟨[text], [], .last (not_lt.mp long), fun fuel _ sent => ?_⟩
      cases fuel <;> rw [splitLoop, if_neg long]

theorem splitMessage_cuts (pos : 1 ≤ self.textLimit) (text : Str) :
    ∃ messages separators, self.Cuts text messages separators ∧
      ∀ fuel, text.length ≤ fuel → self.splitMessage fuel text = some messages := by
  by_cases short : text.length ≤ self.textLimit
  · exact ⟨[text], [], .last short, fun fuel _ => by rw [splitMessage, if_pos short]⟩
  · obtain ⟨messages, separators, cuts, ends⟩ := splitLoop_cuts pos text.length text le_rfl
    refine ⟨messages, separators, cuts, fun fuel enough => ?_⟩
    rw [splitMessage, if_neg short, ends fuel enough]
    rfl

theorem Cuts.join {messages separators : List Str} (h : self.Cuts text messages separators) :
    messages.length = separators.length + 1 ∧
      (List.zipWith (· ++ ·) messages (separators ++ [[]])).flatten = text := by
  induction h with
  | last short => simp
  | next long cut later ih =>
    refine ⟨congrArg (· + 1) ih.1, ?_⟩
    rw [List.cons_append, List.zipWith_cons_cons, List.flatten_cons, ih.2, CutAt.split cut]

theorem Cuts.separators_mem {messages separators : List Str}
    (h : self.Cuts text messages separators) :
    ∀ separator ∈ separators, separator = [] ∨ separator ∈ self.textBreaks := by
  induction h with
  | last short => simp
  | next long cut later ih =>
    refine List.forall_mem_cons.mpr ⟨?_, ih⟩
    rcases CutAt.place cut with ⟨before, after, breaks, -⟩ | ⟨none, -⟩
    · exact .inr (breaks ▸ List.mem_append_right _ List.mem_cons_self)
    · exact .inl none

theorem Cuts.length_le {messages separators : List Str} (h : self.Cuts text messages separators)
    (pos : 1 ≤ self.textLimit) : ∀ message ∈ messages, message.length ≤ self.textLimit := by
  induction h with
  | last short => simpa using short
  | next long cut later ih =>
    refine List.forall_mem_cons.mpr ⟨?_, ih⟩
    have := (cut.bounds pos).1
    omega

theorem Cuts.ne_nil {messages separators : List Str} (h : self.Cuts text messages separators)
    (pos : 1 ≤ self.textLimit) (notEmpty : text ≠ []) : ∀ message ∈ messages, message ≠ [] := by
  induction h with
  | last short => simpa using notEmpty
  | next long cut later ih =>
    have left := (cut.rest_length pos long).1
    exact List.forall_mem_cons.mpr ⟨List.ne_nil_of_length_pos (cut.bounds pos).2,
      ih (List.ne_nil_of_length_pos left)⟩

end Listener

/-- For every text and every limit of at least one character the loop ends. The messages are not
longer than the limit, not empty unless the text is, and together with the separators that were
left out they are the text; and each cut is where it should be. -/
theorem splitMessage_lossless (self : Listener) (pos : 1 ≤ self.textLimit) (text : Str) :
    ∃ messages separators,
      (∀ fuel, text.length ≤ fuel → self.splitMessage fuel text = some messages) ∧
      (∀ message ∈ messages, message.length ≤ self.textLimit) ∧
      (text ≠ [] → ∀ message ∈ messages, message ≠ []) ∧
      (∀ separator ∈ separators, separator = [] ∨ separator ∈ self.textBreaks) ∧
      messages.length = separators.length + 1 ∧
      (List.zipWith (· ++ ·) messages (separators ++ [[]])).flatten = text ∧
      self.Cuts text messages separators := by
  obtain ⟨messages, separators, cuts, ends⟩ := Listener.splitMessage_cuts pos text
  exact ⟨messages, separators, ends, cuts.length_le pos, cuts.ne_nil pos, cuts.separators_mem,
    cuts.join.1, cuts.join.2, cuts⟩

theorem splitMessage_lossless_straddling :
    let self : Listener := ⟨5, [literal "--", literal " "]⟩
    ∃ messages, self.splitMessage 7 (literal "a bc--d") = some messages ∧
      ∀ message ∈ messages, message.length ≤ 5 := by
  intro self
  obtain ⟨messages, separators, ends, bounded, -⟩ :=
    splitMessage_lossless self (by decide) (literal "a bc--d")
  exact ⟨messages, ends 7 (by decide), bounded⟩

example : (Listener.mk 5 [literal "--", literal " "]).splitMessage 7 (literal "a bc--d") =
    some [literal "a", literal "bc--d"] := by decide

end KhCommon.Telegram
