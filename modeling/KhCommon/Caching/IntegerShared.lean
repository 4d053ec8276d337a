import KhCommon.Caching.Integer
import Mathlib.Algebra.Order.BigOperators.Group.List

/-! One counter for many processes: each has an `Integer` of its own, with its own local
copy, on the same record of the cluster. What a call does at the cluster is one step.
A write whose answer was lost may be applied all the same, one that was sent again may
be applied twice, and the record goes when its TTL is over; these are steps of no call. -/

namespace KhCommon.Integer.Shared

open Machine

variable {P : Type*}

structure System (P : Type*) where
  caches : P → Cache String ℤ
  record : Option ℤ

def start : System P := ⟨fun _ => ∅, none⟩

inductive Step (P : Type*)
  | call (p : P) (call : Call)
  | late (op : Op)
  | gone

structure Answer (P : Type*) where
  process : P
  call : Call
  result : Except Exc (Option ℤ)

def write : Op → Option ℤ → Option ℤ
  | .set value, _ => some value
  | .increment value, record => some (record.getD 0 + value)
  | .get, record => record
  | .getAsync, record => record

def Step.applied : Step P → Option Op
  | .call _ asked => if asked.raises then none else some asked.op
  | .late op => some op
  | .gone => none

def amount : Op → ℤ
  | .increment value => value
  | _ => 0

def Step.adds (i : Step P) : ℤ := (i.applied.map amount).getD 0

/-- The record is set, or goes. -/
def Step.Resets (i : Step P) : Prop := i = .gone ∨ ∃ value, i.applied = some (.set value)

structure Read where
  position : ℕ
  now : ℚ
  value : ℤ

variable [DecidableEq P]

def step (key : String) (localTTL : P → ℚ) (s : System P) :
    Step P → Option (Answer P) × System P
  | .call p call =>
    let (result, own) := Integer.step ⟨key, localTTL p⟩ ⟨s.caches p, s.record⟩ call
    (some ⟨p, call, result⟩, ⟨Function.update s.caches p own.cache, own.record⟩)
  | .late op => (none, { s with record := write op s.record })
  | .gone => (none, { s with record := none })

def Answer.read? (p : P) (position : ℕ) (answer : Answer P) : Option Read :=
  match answer.result with
  | .ok (some value) =>
    if answer.process = p then some ⟨position, answer.call.now, value⟩ else none
  | _ => none

def readsOf (p : P) (answers : List (Option (Answer P))) : List Read :=
  answers.zipIdx.filterMap fun (answer, position) => answer.bind (Answer.read? p position)

/-! ## What is counted -/

theorem step_record (self : Integer) (s : State) (call : Call) :
    (self.step s call).2.record = if call.raises then s.record else write call.op s.record := by
  have reads (now t : ℚ) : (self.get call.raises s now t).2.record = s.record := by
    unfold get _get
    dsimp only
    split
    · rfl
    · split_ifs
      · rfl
      · split <;> rfl
  cases hop : call.op with
  | set value => cases hr : call.raises <;> simp [Integer.step, hop, set, hr, write]
  | increment value => cases hr : call.raises <;> simp [Integer.step, hop, increment, hr, write]
  | get => simp [Integer.step, hop, reads, write]
  | getAsync => simp [Integer.step, hop, getAsync_eq_get, reads, write]

variable {key : String} {localTTL : P → ℚ}

theorem getD_write {op : Op} (no_set : ∀ value, op ≠ .set value) (record : Option ℤ) :
    (write op record).getD 0 = record.getD 0 + amount op := by
  cases op with
  | set value => exact absurd rfl (no_set value)
  | increment value => rfl
  | get => exact (add_zero _).symm
  | getAsync => exact (add_zero _).symm

theorem step_adds (s : System P) {i : Step P} (kept : ¬i.Resets) :
    (step key localTTL s i).2.record.getD 0 = s.record.getD 0 + i.adds := by
  have no_set (op : Op) (applied : i.applied = some op) (value : ℤ) : op ≠ .set value := by
    rintro rfl
    exact kept (.inr ⟨value, applied⟩)
  cases i with
  | call p call =>
    change (Integer.step ⟨key, localTTL p⟩ ⟨s.caches p, s.record⟩ call).2.record.getD 0 = _
    rw [step_record, Step.adds]
    by_cases raises : call.raises
    · rw [if_pos raises, Step.applied, if_pos raises]
      exact (add_zero _).symm
    · have applied : (Step.call p call).applied = some call.op := if_neg raises
      rw [if_neg raises, applied, getD_write (no_set _ applied)]
      rfl
  | late op => exact getD_write (no_set op rfl) s.record
  | gone => exact absurd (.inl rfl) kept

theorem run_adds (s : System P) {steps : List (Step P)} (kept : ∀ i ∈ steps, ¬i.Resets) :
    (run (step key localTTL) s steps).record.getD 0 =
      s.record.getD 0 + (steps.map Step.adds).sum := by
  induction steps generalizing s with
  | nil => exact (add_zero _).symm
  | cons i steps ih =>
    rw [List.forall_mem_cons] at kept
    rw [run_cons, ih _ kept.2, step_adds s kept.1, List.map_cons, List.sum_cons, add_assoc]

/-! ## What is read -/

section Call

variable {self : Integer} {entry entry' : Option (ℚ × ℤ)} {call : Call}
  {result : Except Exc (Option ℤ)}

structure Keeps (entry entry' : Option (ℚ × ℤ)) (call : Call)
    (result : Except Exc (Option ℤ)) : Prop where
  kept : ∀ e, entry' = some e → entry = some e
  reads : ∀ value, result = .ok (some value) →
    ∃ expires, entry = some (expires, value) ∧ call.now ≤ expires
  no_set : ∀ value, call.op = .set value → call.raises

structure Takes (localTTL : ℚ) (record : Option ℤ) (entry' : Option (ℚ × ℤ)) (call : Call)
    (result : Except Exc (Option ℤ)) : Prop where
  succeeds : call.raises = false
  copy : ∃ value, record = some value ∧ entry' = some (call.t + localTTL, value) ∧
    ∀ read, result = .ok (some read) → read = value

theorem get_cases (self : Integer) (entry : Option (ℚ × ℤ)) (record : Option ℤ) {call : Call}
    (reads : call.reads) :
    let after := self.get call.raises ⟨self.holding entry, record⟩ call.now call.t
    ∃ entry', after.2.cache = self.holding entry' ∧
      (Keeps entry entry' call (after.1.map some) ∨
        Takes self.localTTL after.2.record entry' call (after.1.map some)) := by
  intro after
  have no_set (value : ℤ) : call.op = .set value → call.raises := by
    intro set
    rcases reads with get | get <;> rw [get] at set <;> cases set
  have unfolded : after = self._get call.raises
      ⟨self.holding (entry.filter fun e => call.now ≤ e.1), record⟩ call.t := by
    simp only [after, get, clearCache_holding]
  cases fresh : entry.filter fun e => call.now ≤ e.1 with
  | some e =>
    obtain ⟨expires, value⟩ := e
    obtain ⟨held, valid⟩ := Option.filter_eq_some_iff.mp fresh
    have came : after = (.ok value, ⟨self.holding (some (expires, value)), record⟩) := by
      rw [unfolded, fresh]
      simp only [_get, get?_holding]
    refine ⟨some (expires, value), by rw [came], .inl ⟨?_, ?_, no_set⟩⟩
    · rintro e ⟨⟩
      exact held
    · intro read returned
      rw [came] at returned
      cases returned
      exact ⟨expires, held, by simpa using valid⟩
  | none =>
    rw [fresh] at unfolded
    cases raises : call.raises with
    | true =>
      have came : after = (.error .clientError, ⟨self.holding none, record⟩) := by
        rw [unfolded, raises]
        simp only [_get, get?_holding]
        rfl
      refine ⟨none, by rw [came], .inl ⟨fun e held => (by cases held), ?_, no_set⟩⟩
      intro read returned
      rw [came] at returned
      cases returned
    | false =>
      cases known : record with
      | none =>
        have came : after = (.error .recordNotFound, ⟨self.holding none, none⟩) := by
          rw [unfolded, raises, known]
          simp only [_get, get?_holding]
          rfl
        refine ⟨none, by rw [came], .inl ⟨fun e held => (by cases held), ?_, no_set⟩⟩
        intro read returned
        rw [came] at returned
        cases returned
      | some value =>
        have came : after = (.ok value,
            ⟨self.holding (some (call.t + self.localTTL, value)), some value⟩) := by
          rw [unfolded, raises, known]
          simp only [_get, get?_holding, assign_holding]
          rfl
        refine ⟨_, by rw [came], .inr ⟨raises, value, by rw [came], rfl, ?_⟩⟩
        intro read returned
        rw [came] at returned
        cases returned
        rfl

theorem step_cases (self : Integer) (entry : Option (ℚ × ℤ)) (record : Option ℤ) (call : Call) :
    let after := self.step ⟨self.holding entry, record⟩ call
    ∃ entry', after.2.cache = self.holding entry' ∧
      (Keeps entry entry' call after.1 ∨
        Takes self.localTTL after.2.record entry' call after.1) := by
  intro after
  cases hop : call.op with
  | set value =>
    cases raises : call.raises with
    | true =>
      have came : after = (.error .clientError, ⟨self.holding entry, record⟩) := by
        simp only [after, Integer.step, hop, raises]
        rfl
      refine ⟨entry, by rw [came], .inl ⟨fun e => id, ?_, fun _ _ => raises⟩⟩
      intro read returned
      rw [came] at returned
      cases returned
    | false =>
      have came : after = (.ok none,
          ⟨self.holding (some (call.t + self.localTTL, value)), some value⟩) := by
        simp only [after, Integer.step, hop, raises, set, assign_holding]
        rfl
      refine ⟨_, by rw [came], .inr ⟨raises, value, by rw [came], rfl, ?_⟩⟩
      intro read returned
      rw [came] at returned
      cases returned
  | increment value =>
    have came : after.2.cache = self.holding entry ∧ ∀ read, after.1 ≠ .ok (some read) := by
      cases raises : call.raises <;>
        simp [after, Integer.step, hop, increment, raises, Except.map]
    refine ⟨entry, came.1, .inl ⟨fun e => id, fun read returned => ?_, fun _ set => ?_⟩⟩
    · exact absurd returned (came.2 read)
    · rw [hop] at set
      cases set
  | get =>
    have came : after = ((self.get call.raises ⟨self.holding entry, record⟩ call.now
        call.t).1.map some, (self.get call.raises ⟨self.holding entry, record⟩ call.now
        call.t).2) := by
      simp only [after, Integer.step, hop]
    rw [came]
    exact get_cases self entry record (.inl hop)
  | getAsync =>
    have came : after = ((self.get call.raises ⟨self.holding entry, record⟩ call.now
        call.t).1.map some, (self.get call.raises ⟨self.holding entry, record⟩ call.now
        call.t).2) := by
      simp only [after, Integer.step, hop, getAsync_eq_get]
    rw [came]
    exact get_cases self entry record (.inr hop)

end Call

/-! ## The copies of one process -/

variable (key localTTL) in
def valueAt (steps : List (Step P)) (position : ℕ) : Option ℤ :=
  (run (step key localTTL) start (steps.take (position + 1))).record

def Succeeds (steps : List (Step P)) (p : P) (position : ℕ) (call : Call) : Prop :=
  steps[position]? = some (.call p call) ∧ call.raises = false

variable (key localTTL) in
/-- What a process has read is what the record was right after a call of its own, not longer ago
than its local TTL, and not before its last `set`. -/
structure Shows (steps : List (Step P)) (p : P) (moment : ℕ) (read : Read) : Prop where
  inside : read.position < steps.length
  before : moment ≤ read.position
  own : ∃ call, Succeeds steps p moment call ∧
    (moment = read.position ∨ read.now ≤ call.t + localTTL p)
  value : valueAt key localTTL steps moment = some read.value
  sets : ∀ k ≤ read.position, ∀ call value, Succeeds steps p k call → call.op = .set value →
    k ≤ moment

variable (key localTTL) in
structure Copied (steps : List (Step P)) (p : P) (moment : ℕ) (entry : ℚ × ℤ) : Prop where
  own : ∃ call, Succeeds steps p moment call ∧ entry.1 = call.t + localTTL p
  value : valueAt key localTTL steps moment = some entry.2

variable (key localTTL) in
/-- What a run has left with one process: its copy, the moments at which what it has read was taken,
and that of the last copy. -/
structure Tracks (steps : List (Step P)) (p : P) (cache : Cache String ℤ) (reads : List Read)
    (entry : Option (ℚ × ℤ)) (moments : List ℕ) (last : ℕ) : Prop where
  cache : cache = (⟨key, localTTL p⟩ : Integer).holding entry
  ordered : moments.Pairwise (· ≤ ·)
  shown : List.Forall₂ (Shows key localTTL steps p) moments reads
  behind : ∀ m ∈ moments, m ≤ last
  inside : last ≤ steps.length
  sets : ∀ k call value, Succeeds steps p k call → call.op = .set value → k ≤ last
  copied : ∀ e, entry = some e → Copied key localTTL steps p last e

variable {steps : List (Step P)} {p : P} {position : ℕ} {call : Call}

omit [DecidableEq P] in
theorem Succeeds.lt (h : Succeeds steps p position call) : position < steps.length :=
  (List.getElem?_eq_some_iff.mp h.1).1

omit [DecidableEq P] in
theorem succeeds_append (i : Step P) (inside : position < steps.length) :
    Succeeds (steps ++ [i]) p position call ↔ Succeeds steps p position call := by
  rw [Succeeds, List.getElem?_append_left inside, Succeeds]

omit [DecidableEq P] in
theorem Succeeds.last {i : Step P} (h : Succeeds (steps ++ [i]) p position call)
    (late : ¬position < steps.length) : position = steps.length ∧ i = .call p call := by
  have lt := h.lt
  rw [List.length_append, List.length_singleton] at lt
  obtain rfl : position = steps.length := by omega
  have there := h.1
  rw [List.getElem?_append_right le_rfl, Nat.sub_self] at there
  exact ⟨rfl, Option.some.inj there⟩

theorem valueAt_append (i : Step P) (inside : position < steps.length) :
    valueAt key localTTL (steps ++ [i]) position = valueAt key localTTL steps position := by
  rw [valueAt, List.take_append_of_le_length inside, valueAt]

theorem valueAt_last (steps : List (Step P)) (i : Step P) :
    valueAt key localTTL (steps ++ [i]) steps.length =
      (step key localTTL (run (step key localTTL) start steps) i).2.record := by
  have all : (steps ++ [i]).take (steps.length + 1) = steps ++ [i] := by
    rw [List.take_of_length_le]
    simp
  rw [valueAt, all, run_append, run_cons, run_nil]

theorem Shows.append {moment : ℕ} {read : Read} (h : Shows key localTTL steps p moment read)
    (i : Step P) : Shows key localTTL (steps ++ [i]) p moment read := by
  obtain ⟨call, succeeds, recent⟩ := h.own
  refine ⟨?_, h.before, ⟨call, ?_, recent⟩, ?_, fun k le call' value succeeds' set => ?_⟩
  · rw [List.length_append]
    exact Nat.lt_add_right _ h.inside
  · exact (succeeds_append i succeeds.lt).mpr succeeds
  · rw [valueAt_append i succeeds.lt, h.value]
  · exact h.sets k le call' value
      ((succeeds_append i (le.trans_lt h.inside)).mp succeeds') set

theorem Copied.append {moment : ℕ} {entry : ℚ × ℤ} (h : Copied key localTTL steps p moment entry)
    (i : Step P) : Copied key localTTL (steps ++ [i]) p moment entry := by
  obtain ⟨call, succeeds, expires⟩ := h.own
  exact ⟨⟨call, (succeeds_append i succeeds.lt).mpr succeeds, expires⟩,
    by rw [valueAt_append i succeeds.lt, h.value]⟩

theorem readsOf_append (p : P) (answers : List (Option (Answer P))) (o : Option (Answer P)) :
    readsOf p (answers ++ [o]) =
      readsOf p answers ++ (o.bind (Answer.read? p answers.length)).toList := by
  rw [readsOf, List.zipIdx_append, List.filterMap_append, readsOf]
  cases found : o.bind (Answer.read? p answers.length) <;> simp [found]

section Step

variable {cache : Cache String ℤ} {reads : List Read} {entry : Option (ℚ × ℤ)}
  {moments : List ℕ} {last : ℕ}

theorem Tracks.other (h : Tracks key localTTL steps p cache reads entry moments last) {i : Step P}
    (other : ∀ call, i ≠ .call p call) :
    Tracks key localTTL (steps ++ [i]) p cache reads entry moments last where
  cache := h.cache
  ordered := h.ordered
  shown := h.shown.imp fun _ _ shows => shows.append i
  behind := h.behind
  inside := h.inside.trans (by simp)
  sets k call value succeeds set := by
    by_cases inside : k < steps.length
    · exact h.sets k call value ((succeeds_append i inside).mp succeeds) set
    · exact absurd (succeeds.last inside).2 (other call)
  copied e held := (h.copied e held).append i

theorem Tracks.move (h : Tracks key localTTL steps p cache reads entry moments last)
    {cache' : Cache String ℤ} {entry' : Option (ℚ × ℤ)} {last' : ℕ}
    {result : Except Exc (Option ℤ)}
    (cached : cache' = (⟨key, localTTL p⟩ : Integer).holding entry') (later : last ≤ last')
    (inside : last' ≤ steps.length)
    (sets : ∀ value, call.op = .set value → call.raises = false → steps.length ≤ last')
    (copied : ∀ e, entry' = some e → Copied key localTTL (steps ++ [.call p call]) p last' e)
    (shows : ∀ value, result = .ok (some value) → ∃ caller,
      Succeeds (steps ++ [.call p call]) p last' caller ∧
        (last' = steps.length ∨ call.now ≤ caller.t + localTTL p) ∧
        valueAt key localTTL (steps ++ [.call p call]) last' = some value) :
    ∃ moments', Tracks key localTTL (steps ++ [.call p call]) p cache'
      (reads ++ (Answer.read? p steps.length ⟨p, call, result⟩).toList) entry' moments' last' := by
  have length : (steps ++ [Step.call p call]).length = steps.length + 1 := by simp
  have allSets (k : ℕ) (call' : Call) (value : ℤ)
      (succeeds : Succeeds (steps ++ [.call p call]) p k call') (set : call'.op = .set value) :
      k ≤ last' := by
    by_cases before : k < steps.length
    · exact (h.sets k call' value ((succeeds_append _ before).mp succeeds) set).trans later
    · obtain ⟨rfl, same⟩ := succeeds.last before
      cases same
      exact sets value set succeeds.2
  have shown := h.shown.imp fun _ _ shows => shows.append (.call p call)
  have behind : ∀ m ∈ moments, m ≤ last' := fun m mem => (h.behind m mem).trans later
  by_cases returned : ∃ value, result = .ok (some value)
  · obtain ⟨value, rfl⟩ := returned
    obtain ⟨caller, succeeds, recent, was⟩ := shows value rfl
    have read : Answer.read? p steps.length ⟨p, call, .ok (some value)⟩ =
        some ⟨steps.length, call.now, value⟩ := if_pos rfl
    refine ⟨moments ++ [last'], cached, ?_, ?_, ?_, by omega, allSets, copied⟩
    · rw [List.pairwise_append]
      refine ⟨h.ordered, List.pairwise_singleton _ _, fun m mem l single => ?_⟩
      rw [List.mem_singleton.mp single]
      exact behind m mem
    · rw [read]
      refine List.rel_append shown (.cons ⟨?_, inside, ⟨caller, succeeds, recent⟩, was, ?_⟩ .nil)
      · exact length ▸ Nat.lt_succ_self _
      · exact fun k _ call' value' succeeds' set => allSets k call' value' succeeds' set
    · rw [List.forall_mem_append, List.forall_mem_singleton]
      exact ⟨behind, le_rfl⟩
  · have read : Answer.read? p steps.length ⟨p, call, result⟩ = none := by
      rcases result with e | _ | value
      · rfl
      · rfl
      · exact absurd ⟨value, rfl⟩ returned
    refine ⟨moments, cached, h.ordered, ?_, behind, by omega, allSets, copied⟩
    rw [read, Option.toList_none, List.append_nil]
    exact shown

theorem Tracks.own (h : Tracks key localTTL steps p cache reads entry moments last) (call : Call)
    {record : Option ℤ} (known : (run (step key localTTL) start steps).record = record)
    (held : (run (step key localTTL) start steps).caches p = cache) :
    let after := Integer.step ⟨key, localTTL p⟩ ⟨cache, record⟩ call
    ∃ entry' moments' last', Tracks key localTTL (steps ++ [.call p call]) p after.2.cache
      (reads ++ (Answer.read? p steps.length ⟨p, call, after.1⟩).toList) entry' moments' last' := by
  intro after
  have here : (steps ++ [Step.call p call])[steps.length]? = some (.call p call) := by simp
  have was : valueAt key localTTL (steps ++ [.call p call]) steps.length = after.2.record := by
    rw [valueAt_last, step, held, known]
  obtain ⟨entry', cached, ⟨kept, reads, no_set⟩ | ⟨succeeds, value, recorded, rfl, same⟩⟩ :=
    step_cases ⟨key, localTTL p⟩ entry record call
  all_goals rw [← h.cache] at *
  · obtain ⟨moments', tracks⟩ := h.move cached le_rfl h.inside
      (fun value set succeeds => by rw [no_set value set] at succeeds; cases succeeds)
      (fun e held => (h.copied e (kept e held)).append _) fun value returned => by
        obtain ⟨expires, held, valid⟩ := reads value returned
        obtain ⟨⟨caller, succeeds, rfl⟩, was⟩ := (h.copied _ held).append (.call p call)
        exact ⟨caller, succeeds, .inr valid, was⟩
    exact ⟨_, _, _, tracks⟩
  · obtain ⟨moments', tracks⟩ := h.move cached h.inside le_rfl (fun _ _ _ => le_rfl)
      (fun e held => by
        cases held
        exact ⟨⟨call, ⟨here, succeeds⟩, rfl⟩, was.trans recorded⟩) fun read returned => by
        rw [same read returned]
        exact ⟨call, ⟨here, succeeds⟩, .inl rfl, was.trans recorded⟩
    exact ⟨_, _, _, tracks⟩

end Step

theorem run_tracks (key : String) (localTTL : P → ℚ) (p : P) (steps : List (Step P)) :
    ∃ entry moments last, Tracks key localTTL steps p
      ((run (step key localTTL) start steps).caches p)
      (readsOf p (outputs (step key localTTL) start steps)) entry moments last := by
  induction steps using List.reverseRecOn with
  | nil =>
    exact ⟨none, [], 0, rfl, .nil, .nil, List.forall_mem_nil _, le_rfl,
      fun k call value succeeds => absurd succeeds.lt (Nat.not_lt_zero k),
      fun e held => by cases held⟩
  | append_singleton steps i ih =>
    obtain ⟨entry, moments, last, tracks⟩ := ih
    rw [run_append, outputs_append, outputs, outputs, readsOf_append, length_outputs, run_cons,
      run_nil]
    have quiet (caches : (step key localTTL (run (step key localTTL) start steps) i).2.caches p =
          (run (step key localTTL) start steps).caches p)
        (none : (step key localTTL (run (step key localTTL) start steps) i).1.bind
          (Answer.read? p steps.length) = none) (other : ∀ call, i ≠ .call p call) :
        Tracks key localTTL (steps ++ [i]) p
          ((step key localTTL (run (step key localTTL) start steps) i).2.caches p)
          (readsOf p (outputs (step key localTTL) start steps) ++
            ((step key localTTL (run (step key localTTL) start steps) i).1.bind
              (Answer.read? p steps.length)).toList) entry moments last := by
      rw [caches, none, Option.toList_none, List.append_nil]
      exact tracks.other other
    cases i with
    | call q call =>
      by_cases own : q = p
      · subst own
        have after := tracks.own call rfl rfl
        simp only [step, Function.update_self, Option.bind_some]
        exact after
      · refine ⟨_, _, _, quiet ?_ ?_ fun _ same => own (Step.call.inj same).1⟩
        · simp only [step, Function.update_of_ne (Ne.symm own)]
        · simp only [step, Option.bind_some, Answer.read?, if_neg own]
          split <;> rfl
    | late op => exact ⟨_, _, _, quiet rfl rfl fun call same => by cases same⟩
    | gone => exact ⟨_, _, _, quiet rfl rfl fun call same => by cases same⟩

/-! ## The counter -/

theorem pairwise_of_shows {R : Read → Read → Prop} {moments : List ℕ} {reads : List Read}
    (ordered : moments.Pairwise (· ≤ ·))
    (shown : List.Forall₂ (Shows key localTTL steps p) moments reads)
    (grows : ∀ m n x y, m ≤ n → Shows key localTTL steps p m x → Shows key localTTL steps p n y →
      R x y) : reads.Pairwise R := by
  obtain ⟨length, each⟩ := List.forall₂_iff_get.mp shown
  rw [List.pairwise_iff_getElem] at ordered ⊢
  intro i j hi hj lt
  have hi' : i < moments.length := length ▸ hi
  have hj' : j < moments.length := length ▸ hj
  exact grows _ _ _ _ (ordered i j hi' hj' lt) (each i hi' hi) (each j hj' hj)

end KhCommon.Integer.Shared
