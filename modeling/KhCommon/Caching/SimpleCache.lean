import KhCommon.Lib.Machine
import Mathlib.Algebra.Order.Ring.Rat
import Mathlib.Data.List.Induction
import Mathlib.Tactic.NormNum

/-! `SimpleCache`: one result for all calls, kept until `expire`. The expiry is moved
on before the function runs, so a run that raises leaves the old result in place
under a new expiry. The asynchronous wrapper holds its lock round the whole run, so
its calls come one after the other as well. -/

namespace KhCommon.SimpleCache

open Machine

variable {E V : Type*}

/-- One call: the reading compared with `expire`, the reading the new expiry is taken from, and
what the function gives if it runs. -/
structure Call (E V : Type*) where
  now : ℚ
  started : ℚ
  result : Except E V

/-- `decorator.expire` and `decorator.data`, which is `None` at first. -/
structure State (V : Type*) where
  expire : ℚ
  data : Option V

def start : State V := ⟨0, none⟩

def wrapper (ttl : ℚ) (s : State V) (call : Call E V) : Except E (Option V) × State V :=
  if call.now > s.expire then
    let s := { s with expire := call.started + ttl }
    match call.result with
    | .ok data => (.ok (some data), { s with data := some data })
    | .error e => (.error e, s)
  else (.ok s.data, s)

/-! ## What the runs of the function gave -/

def runs (ttl : ℚ) : State V → List (Call E V) → List (Call E V)
  | _, [] => []
  | s, call :: calls =>
    (if call.now > s.expire then [call] else []) ++ runs ttl (wrapper ttl s call).2 calls

/-- The call raises what its own run raised, or returns what a run gave that succeeded and
started no more than the TTL before the call. -/
def Answers (ttl : ℚ) (before : List (Call E V)) (call : Call E V) : Prop :=
  let s := run (wrapper ttl) start before
  match (wrapper ttl s call).1 with
  | .error e => call.now > s.expire ∧ call.result = .error e
  | .ok value => ∃ r ∈ runs ttl start (before ++ [call]), ∃ data, value = some data ∧
      r.result = .ok data ∧ call.now ≤ r.started + ttl

def LeavesCache (ttl : ℚ) (before : List (Call E V)) (call : Call E V) : Prop :=
  let s := run (wrapper ttl) start before
  ∀ e, (wrapper ttl s call).1 = .error e → (wrapper ttl s call).2 = s

def RunsAgain (ttl : ℚ) (before : List (Call E V)) (call : Call E V) : Prop :=
  ∀ past failed e, before = past ++ [failed] →
    (wrapper ttl (run (wrapper ttl) start past) failed).1 = .error e →
      call.now > (run (wrapper ttl) start before).expire

def Succeeds (ttl : ℚ) (before : List (Call E V)) (call : Call E V) : Prop :=
  0 < call.now ∧ (call.now > (run (wrapper ttl) start before).expire →
    ∀ e, call.result ≠ .error e)

/-- The last run before the call did not raise, or its expiry is past; before the first run the
expiry is 0. -/
def Unmasked (ttl : ℚ) (before : List (Call E V)) (call : Call E V) : Prop :=
  match (runs ttl start before).getLast? with
  | none => 0 < call.now
  | some last => ∀ e, last.result = .error e → last.started + ttl < call.now

variable {ttl t : ℚ} {s : State V} {call : Call E V} {before calls : List (Call E V)}

theorem wrapper_hit (h : ¬call.now > s.expire) : wrapper ttl s call = (.ok s.data, s) := by
  rw [wrapper, if_neg h]

theorem wrapper_ok (h : call.now > s.expire) {data : V} (hrun : call.result = .ok data) :
    wrapper ttl s call = (.ok (some data), ⟨call.started + ttl, some data⟩) := by
  simp [wrapper, h, hrun]

theorem wrapper_error (h : call.now > s.expire) {e : E} (hrun : call.result = .error e) :
    wrapper ttl s call = (.error e, ⟨call.started + ttl, s.data⟩) := by
  simp [wrapper, h, hrun]

theorem wrapper_raises {e : E} (h : (wrapper ttl s call).1 = .error e) :
    call.now > s.expire ∧ call.result = .error e := by
  by_cases due : call.now > s.expire
  · rcases hrun : call.result with e' | data
    · rw [wrapper_error due hrun] at h
      cases h
      exact ⟨due, rfl⟩
    · rw [wrapper_ok due hrun] at h
      cases h
  · rw [wrapper_hit due] at h
    cases h

theorem runs_append (s : State V) (before : List (Call E V)) (call : Call E V) :
    runs ttl s (before ++ [call]) =
      runs ttl s before ++
        if call.now > (run (wrapper ttl) s before).expire then [call] else [] := by
  induction before generalizing s with
  | nil => simp [runs]
  | cons c before ih =>
    rw [List.cons_append, runs, runs, ih, run_cons, List.append_assoc]

/-- What the state says about the runs so far. When the last run raised, every result has
expired. -/
structure Tracks (ttl t : ℚ) (s : State V) (rs : List (Call E V)) : Prop where
  bound : ∀ r ∈ rs, r.started + ttl ≤ s.expire
  first : rs = [] → s = start
  expire : ∀ last, rs.getLast? = some last → s.expire = last.started + ttl
  data : ∀ last data, rs.getLast? = some last → last.result = .ok data → s.data = some data
  stale : ∀ last e, rs.getLast? = some last → last.result = .error e →
    ∀ r ∈ rs, ∀ data, r.result = .ok data → r.started + ttl < t

theorem Tracks.later {t' : ℚ} {rs : List (Call E V)} (h : Tracks ttl t s rs) (ht : t ≤ t') :
    Tracks ttl t' s rs :=
  { h with stale := fun last e hlast hrun r hr data hdata =>
      (h.stale last e hlast hrun r hr data hdata).trans_le ht }

theorem Tracks.wrapper (httl : 0 ≤ ttl) {rs : List (Call E V)} (h : Tracks ttl t s rs)
    (hnow : t ≤ call.now) (hstarted : call.now ≤ call.started) :
    Tracks ttl call.started (wrapper ttl s call).2
      (rs ++ if call.now > s.expire then [call] else []) := by
  by_cases due : call.now > s.expire
  · have after : (SimpleCache.wrapper ttl s call).2.expire = call.started + ttl := by
      rcases hrun : call.result with e | data
      · rw [wrapper_error due hrun]
      · rw [wrapper_ok due hrun]
    -- every earlier result expired before this run
    have expired : ∀ r ∈ rs, r.started + ttl < call.started := fun r hr =>
      ((h.bound r hr).trans_lt due).trans_le hstarted
    rw [if_pos due]
    refine ⟨fun r hr => ?_, fun hnil => ?_, fun last hlast => ?_, fun last data hlast hrun => ?_,
      fun last e hlast hrun r hr data hdata => ?_⟩
    · rw [after]
      rcases List.mem_append.mp hr with hr | hr
      · exact (expired r hr).le.trans (le_add_of_nonneg_right httl)
      · rw [List.mem_singleton.mp hr]
    · simp at hnil
    · rw [List.getLast?_concat, Option.some.injEq] at hlast
      rw [after, hlast]
    · rw [List.getLast?_concat, Option.some.injEq] at hlast
      rw [wrapper_ok due (hlast ▸ hrun)]
    · rw [List.getLast?_concat, Option.some.injEq] at hlast
      subst hlast
      rcases List.mem_append.mp hr with hr | hr
      · exact expired r hr
      · rw [List.mem_singleton.mp hr, hrun] at hdata
        cases hdata
  · rw [wrapper_hit due, if_neg due, List.append_nil]
    exact h.later (hnow.trans hstarted)

theorem tracks_run (httl : 0 ≤ ttl) {t₀ : ℚ}
    (clock : Clocked Call.now Call.started t₀ before) :
    Tracks ttl (lastReading Call.started t₀ before) (run (wrapper ttl) start before)
      (runs ttl start before) := by
  induction before using List.reverseRecOn with
  | nil =>
    exact ⟨by simp [runs], fun _ => rfl, by simp [runs], by simp [runs], by simp [runs]⟩
  | append_singleton before call ih =>
    obtain ⟨clock, hnow, hstarted, -⟩ := clocked_append.mp clock
    rw [runs_append, run_append, lastReading_append]
    exact (ih clock).wrapper httl hnow hstarted

theorem answers_iff (httl : 0 ≤ ttl) {t₀ : ℚ}
    (clock : Clocked Call.now Call.started t₀ (before ++ [call])) :
    Answers ttl before call ↔ Unmasked ttl before call := by
  obtain ⟨clock, hnow, hstarted, -⟩ := clocked_append.mp clock
  have tracks := tracks_run httl clock
  unfold Answers Unmasked
  by_cases due : call.now > (run (wrapper ttl) start before).expire
  · refine iff_of_true ?_ ?_
    · rcases hrun : call.result with e | data
      · simp [wrapper_error due hrun, due]
      · simp only [wrapper_ok due hrun, runs_append, if_pos due]
        exact ⟨call, by simp, data, rfl, hrun,
          hstarted.trans (le_add_of_nonneg_right httl)⟩
    · rcases hlast : (runs ttl start before).getLast? with _ | last
      · rw [tracks.first (List.getLast?_eq_none_iff.mp hlast)] at due
        exact due
      · exact fun e _ => tracks.expire last hlast ▸ due
  · simp only [wrapper_hit due, runs_append, if_neg due, List.append_nil]
    rcases hlast : (runs ttl start before).getLast? with _ | last
    · have nil := List.getLast?_eq_none_iff.mp hlast
      rw [tracks.first nil] at due
      refine iff_of_false ?_ due
      simp [nil]
    · rcases hrun : last.result with e | data
      · rw [tracks.expire last hlast] at due
        refine iff_of_false ?_ fun h => due (h e hrun)
        rintro ⟨r, hr, data, -, hdata, fresh⟩
        have expired := tracks.stale last e hlast hrun r hr data hdata
        exact absurd fresh (not_le.mpr (expired.trans_le hnow))
      · refine iff_of_true ?_ fun e he => by simp [hrun] at he
        refine ⟨last, List.mem_of_getLast? hlast, data, tracks.data last data hlast hrun, hrun, ?_⟩
        rw [← tracks.expire last hlast]
        exact not_lt.mp due

theorem leavesCache_iff (httl : 0 ≤ ttl) (hstarted : call.now ≤ call.started) :
    LeavesCache ttl before call ↔ (call.now > (run (wrapper ttl) start before).expire →
      ∀ e, call.result ≠ .error e) := by
  constructor
  · intro leaves due e hrun
    have same := leaves e (by rw [wrapper_error due hrun])
    rw [wrapper_error due hrun] at same
    have moved := congrArg State.expire same
    exact absurd moved (ne_of_gt
      (due.trans_le (hstarted.trans (le_add_of_nonneg_right httl))))
  · intro succeeds e raised
    obtain ⟨due, hrun⟩ := wrapper_raises raised
    exact absurd hrun (succeeds due e)

theorem mem_runs {r : Call E V} (h : r ∈ runs ttl start before) :
    ∃ past, past ++ [r] <+: before ∧ r.now > (run (wrapper ttl) start past).expire := by
  induction before using List.reverseRecOn with
  | nil => cases h
  | append_singleton before call ih =>
    rw [runs_append] at h
    rcases List.mem_append.mp h with h | h
    · obtain ⟨past, inRun, due⟩ := ih h
      exact ⟨past, inRun.trans (List.prefix_append _ _), due⟩
    · split_ifs at h with due
      · rw [List.mem_singleton.mp h]
        exact ⟨before, List.prefix_rfl, due⟩
      · cases h

theorem pos_of_first {t₀ : ℚ} (clock : Clocked Call.now Call.started t₀ (before ++ [call]))
    (first : ∀ c, [c] <+: before ++ [call] → 0 < c.now) : 0 < call.now := by
  rcases before with _ | ⟨c, before⟩
  · exact first call List.prefix_rfl
  · obtain ⟨-, hstarted, clock⟩ := clock
    obtain ⟨clock, hnow, -⟩ := clocked_append.mp clock
    have pos : 0 < c.now := first c ⟨before ++ [call], rfl⟩
    exact ((pos.trans_le hstarted).trans_le clock.le_lastReading).trans_le hnow

/-- For every run of calls: each answer is right, each run that raises leaves the cache as it was
and is followed by another run, if and only if the clock has passed 0 and no run raises. And the
answers alone are right if and only if no call comes before the expiry set by a run that raised. -/
theorem simpleCache_correct_iff (httl : 0 ≤ ttl) (t₀ : ℚ) (calls : List (Call E V))
    (clock : Clocked Call.now Call.started t₀ calls) :
    (Throughout (fun before call =>
        Answers ttl before call ∧ LeavesCache ttl before call ∧ RunsAgain ttl before call) calls ↔
      Throughout (Succeeds ttl) calls) ∧
    (Throughout (Answers ttl) calls ↔ Throughout (Unmasked ttl) calls) := by
  have prefixes (before call) (inRun : before ++ [call] <+: calls) :
      Clocked Call.now Call.started t₀ (before ++ [call]) := by
    obtain ⟨rest, rfl⟩ := inRun
    exact (clocked_append.mp clock).1
  refine ⟨⟨fun right => ?_, fun succeeds => ?_⟩,
    throughout_congr fun before call inRun => answers_iff httl (prefixes _ _ inRun)⟩
  · intro before call inRun
    obtain ⟨-, leaves, -⟩ := right before call inRun
    have clock := prefixes _ _ inRun
    refine ⟨pos_of_first clock fun c hc => ?_, ?_⟩
    · have first := hc.trans inRun
      exact (answers_iff httl (prefixes [] c first)).mp (right [] c first).1
    · obtain ⟨-, -, hstarted, -⟩ := clocked_append.mp clock
      exact (leavesCache_iff httl hstarted).mp leaves
  · intro before call inRun
    have clock := prefixes _ _ inRun
    obtain ⟨-, -, hstarted, -⟩ := clocked_append.mp clock
    refine ⟨(answers_iff httl clock).mpr ?_,
      (leavesCache_iff httl hstarted).mpr (succeeds before call inRun).2, ?_⟩
    · unfold Unmasked
      rcases hlast : (runs ttl start before).getLast? with _ | last
      · exact (succeeds before call inRun).1
      · intro e hrun
        obtain ⟨past, inPast, due⟩ := mem_runs (List.mem_of_getLast? hlast)
        have inCalls := (inPast.trans (List.prefix_append _ _)).trans inRun
        exact absurd hrun ((succeeds past last inCalls).2 due e)
    · rintro past failed e rfl raised
      obtain ⟨due, hrun⟩ := wrapper_raises raised
      have inCalls := (List.prefix_append _ _).trans inRun
      exact absurd hrun ((succeeds past failed inCalls).2 due e)

theorem simpleCache_correct_pair : Throughout (Answers 10)
    [(⟨1, 1, .ok 7⟩ : Call String ℕ), ⟨2, 2, .error "down"⟩] := by
  refine (simpleCache_correct_iff (by decide) 0 _ (by norm_num [Clocked])).2.mpr ?_
  norm_num [throughout_cons, Unmasked, runs, start]
  simp

/-- The run at 1 raises and moves the expiry to 11, so the call at 2 returns the initial `None`. -/
theorem simpleCache_masks_failure :
    ¬ ∀ ttl : ℚ, 0 ≤ ttl → ∀ (t₀ : ℚ) (calls : List (Call String ℕ)),
      Clocked Call.now Call.started t₀ calls → Throughout (fun before call =>
        Answers ttl before call ∧ LeavesCache ttl before call ∧ RunsAgain ttl before call)
        calls := by
  intro all
  have right := all 10 (by decide) 0 [⟨1, 1, .error "down"⟩, ⟨2, 2, .ok 7⟩] (by norm_num [Clocked])
    [⟨1, 1, .error "down"⟩] ⟨2, 2, .ok 7⟩ List.prefix_rfl
  obtain ⟨answers, -⟩ := right
  norm_num [Answers, wrapper, start] at answers
  obtain ⟨r, -, data, served, -⟩ := answers
  cases served

end KhCommon.SimpleCache
