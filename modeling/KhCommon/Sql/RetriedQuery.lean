import KhCommon.Sql.Transaction

/-! What the retries of a query come to. The `finally` runs at every level of the
recursion, with a cursor or without, and outside of the call that the handler made.
So an attempt whose `cursor()` raises ends in an `UnboundLocalError`, whatever the
later attempts have got. -/

namespace KhCommon.Sql

variable {R : Type}

/-! ## Cursors -/

inductive CursorCall
  | opened (retries : ℕ)
  | closed (retries : ℕ)
  deriving DecidableEq

def Attempt.recursion (a : Attempt R) (commit : Bool) (fetch : Fetch) (again : List CursorCall) :
    List CursorCall :=
  match (a.body commit fetch).2 with
  | .error .connection => again
  | _ => []

/-- What one pass does with its cursor; `again` is what the call it makes of itself does. -/
def Attempt.cursorCalls (a : Attempt R) (commit : Bool) (fetch : Fetch) (retries : ℕ)
    (again : List CursorCall) : List CursorCall :=
  match a.prepare, a.cursor, a.close with
  | .error _, _, _ => []
  | .ok (), .error _, _ => a.recursion commit fetch again
  | .ok (), .ok (), .error _ => .opened retries :: a.recursion commit fetch again
  | .ok (), .ok (), .ok () =>
    .opened retries :: a.recursion commit fetch again ++ [.closed retries]

def cursorCalls (commit : Bool) (fetch : Fetch) (attempt : ℕ → Attempt R) :
    (retries : ℕ) → List CursorCall
  | 0 => (attempt 0).cursorCalls commit fetch 0 []
  | retries + 1 => (attempt (retries + 1)).cursorCalls commit fetch (retries + 1)
      (cursorCalls commit fetch attempt retries)

/-! ## Attempts that may lose the connection -/

/-- Only `cursor()` and `execute()` may raise, and what they raise is `ConnectionException`. -/
structure Attempt.MayLose (a : Attempt R) : Prop where
  prepare : a.prepare = .ok ()
  cursor : a.cursor = .ok () ∨ a.cursor = .error .connection
  execute : a.execute = .ok () ∨ a.execute = .error .connection
  settle : a.settle = .ok ()
  fetchone : ∃ row, a.fetchone = .ok row
  fetchall : ∃ rows, a.fetchall = .ok rows
  close : a.close = .ok ()

def Attempt.Lost (a : Attempt R) : Prop :=
  a.cursor = .error .connection ∨ a.execute = .error .connection

def Attempt.Completes (a : Attempt R) (fetch : Fetch) (value : Fetched R) : Prop :=
  a.cursor = .ok () ∧ a.execute = .ok () ∧ fetched fetch a.fetchone a.fetchall = .ok value

def Reached (attempt : ℕ → Attempt R) (retries n : ℕ) : Prop :=
  n ≤ retries ∧ ∀ m, n < m → m ≤ retries → (attempt m).Lost

/-- The first attempt that completes gives the result; if none does, the query raises
`ConnectionException`. No cursor is left open. -/
structure Reported (commit : Bool) (fetch : Fetch) (maxretry : ℤ) (attempt : ℕ → Attempt R) :
    Prop where
  returns : ∀ n : ℕ, n < maxretry → (∀ m : ℕ, n < m → m < maxretry → (attempt m).Lost) →
    ∀ value, (attempt n).Completes fetch value →
      (query commit fetch maxretry attempt).2 = .ok value
  raises : (∀ n : ℕ, n < maxretry → (attempt n).Lost) →
    (query commit fetch maxretry attempt).2 = .error .connection
  closes : ∀ n, .opened n ∈ cursorCalls commit fetch attempt (maxretry - 1).toNat →
    .closed n ∈ cursorCalls commit fetch attempt (maxretry - 1).toNat

variable {a : Attempt R} {attempt : ℕ → Attempt R} {commit : Bool} {fetch : Fetch}
  {value : Fetched R} {n retries : ℕ}

/-! ## One pass -/

theorem body_lost (commit : Bool) (fetch : Fetch) (h : a.MayLose) (lost : a.Lost) :
    (a.body commit fetch).2 = .error .connection := by
  rcases h.cursor with opened | raised
  · have executed : a.execute = .error .connection := lost.resolve_left (by simp [opened])
    simp [Attempt.body, opened, executed]
  · simp [Attempt.body, raised]

theorem run_lost (h : a.MayLose) (lost : a.Lost) (opened : a.cursor = .ok ())
    (again : List Transactions.Effect × Except Fault (Fetched R)) :
    (a.run commit fetch (some again)).2 = again.2 ∧
      (a.run commit fetch none).2 = .error .connection := by
  have body := body_lost commit fetch h lost
  simp [Attempt.run, h.prepare, body, Attempt.final, opened, h.close]

theorem run_unopened (h : a.MayLose) (raised : a.cursor = .error .connection)
    (again : Option (List Transactions.Effect × Except Fault (Fetched R))) :
    (a.run commit fetch again).2 = .error .unboundLocal := by
  simp [Attempt.run, h.prepare, Attempt.final, raised]

theorem run_completes (h : a.MayLose) (completes : a.Completes fetch value)
    (again : Option (List Transactions.Effect × Except Fault (Fetched R))) :
    (a.run commit fetch again).2 = .ok value := by
  obtain ⟨opened, executed, got⟩ := completes
  simp [Attempt.run, h.prepare, Attempt.body, opened, executed, h.settle, got, Attempt.final,
    h.close]

theorem completes_of_not_lost (fetch : Fetch) (h : a.MayLose) (kept : ¬a.Lost) :
    ∃ value, a.Completes fetch value := by
  rw [Attempt.Lost, not_or] at kept
  obtain ⟨row, one⟩ := h.fetchone
  obtain ⟨rows, all⟩ := h.fetchall
  have got : ∃ value, fetched fetch a.fetchone a.fetchall = .ok value := by
    cases fetch with
    | nothing => exact ⟨.nothing, rfl⟩
    | one => exact ⟨.one row, by rw [one]; rfl⟩
    | all => exact ⟨.all rows, by rw [all]; rfl⟩
  obtain ⟨value, got⟩ := got
  exact ⟨value, h.cursor.resolve_right kept.1, h.execute.resolve_right kept.2, got⟩

/-! ## All passes -/

theorem reached_succ : Reached attempt (retries + 1) n ↔
    n = retries + 1 ∨ ((attempt (retries + 1)).Lost ∧ Reached attempt retries n) := by
  constructor
  · rintro ⟨le, before⟩
    rcases Nat.lt_or_eq_of_le le with below | same
    · exact .inr ⟨before _ below (Nat.le_refl _), Nat.le_of_lt_succ below,
        fun m above inside => before m above (Nat.le_succ_of_le inside)⟩
    · exact .inl same
  · rintro (rfl | ⟨lost, le, before⟩)
    · exact ⟨Nat.le_refl _, fun m above inside => absurd inside (Nat.not_le_of_lt above)⟩
    · refine ⟨Nat.le_succ_of_le le, fun m above inside => ?_⟩
      rcases Nat.lt_or_eq_of_le inside with below | rfl
      · exact before m above (Nat.le_of_lt_succ below)
      · exact lost

theorem all_lost_or_reached (attempt : ℕ → Attempt R) (retries : ℕ) :
    (∀ n ≤ retries, (attempt n).Lost) ∨ ∃ n, Reached attempt retries n ∧ ¬(attempt n).Lost := by
  induction retries with
  | zero =>
    by_cases lost : (attempt 0).Lost
    · exact .inl fun n le => by rwa [Nat.le_zero.mp le]
    · exact .inr ⟨0, ⟨Nat.le_refl 0, fun m above inside => absurd inside (Nat.not_le_of_lt above)⟩,
        lost⟩
  | succ retries ih =>
    by_cases lost : (attempt (retries + 1)).Lost
    · rcases ih with all | ⟨n, reached, kept⟩
      · refine .inl fun n le => ?_
        rcases Nat.lt_or_eq_of_le le with below | rfl
        · exact all n (Nat.le_of_lt_succ below)
        · exact lost
      · exact .inr ⟨n, reached_succ.mpr (.inr ⟨lost, reached⟩), kept⟩
    · exact .inr ⟨retries + 1, reached_succ.mpr (.inl rfl), lost⟩

theorem attempts_unopened (driver : ∀ n, (attempt n).MayLose) (reached : Reached attempt retries n)
    (raised : (attempt n).cursor = .error .connection) :
    (attempts commit fetch attempt retries).2 = .error .unboundLocal := by
  induction retries with
  | zero =>
    obtain rfl : n = 0 := Nat.le_zero.mp reached.1
    exact run_unopened (driver 0) raised none
  | succ retries ih =>
    rw [attempts]
    rcases (driver (retries + 1)).cursor with opened | unopened
    · rcases reached_succ.mp reached with rfl | ⟨lost, later⟩
      · rw [opened] at raised
        cases raised
      · rw [(run_lost (driver _) lost opened _).1, ih later]
    · exact run_unopened (driver _) unopened _

theorem attempts_completes (driver : ∀ n, (attempt n).MayLose)
    (opened : ∀ m, Reached attempt retries m → (attempt m).cursor = .ok ())
    (reached : Reached attempt retries n) (completes : (attempt n).Completes fetch value) :
    (attempts commit fetch attempt retries).2 = .ok value := by
  induction retries with
  | zero =>
    obtain rfl : n = 0 := Nat.le_zero.mp reached.1
    exact run_completes (driver 0) completes none
  | succ retries ih =>
    rw [attempts]
    rcases reached_succ.mp reached with rfl | ⟨lost, later⟩
    · exact run_completes (driver _) completes _
    · rw [(run_lost (driver _) lost (opened _ (reached_succ.mpr (.inl rfl))) _).1]
      exact ih (fun m hm => opened m (reached_succ.mpr (.inr ⟨lost, hm⟩))) later

theorem attempts_all_lost (driver : ∀ n, (attempt n).MayLose)
    (lost : ∀ n ≤ retries, (attempt n).Lost)
    (opened : ∀ n ≤ retries, (attempt n).cursor = .ok ()) :
    (attempts commit fetch attempt retries).2 = .error .connection := by
  induction retries with
  | zero =>
    have first := Nat.le_refl 0
    exact (run_lost (driver 0) (lost 0 first) (opened 0 first) ([], .error .connection)).2
  | succ retries ih =>
    have last := Nat.le_refl (retries + 1)
    rw [attempts, (run_lost (driver _) (lost _ last) (opened _ last) _).1]
    exact ih (fun n le => lost n (Nat.le_succ_of_le le)) fun n le => opened n (Nat.le_succ_of_le le)

theorem closed_of_opened (closes : ∀ n, (attempt n).close = .ok ())
    (h : .opened n ∈ cursorCalls commit fetch attempt retries) :
    .closed n ∈ cursorCalls commit fetch attempt retries := by
  have pass (m : ℕ) (again : List CursorCall) (later : .opened n ∈ again → .closed n ∈ again)
      (h : .opened n ∈ (attempt m).cursorCalls commit fetch m again) :
      .closed n ∈ (attempt m).cursorCalls commit fetch m again := by
    have inner : .opened n ∈ (attempt m).recursion commit fetch again →
        .closed n ∈ (attempt m).recursion commit fetch again := by
      unfold Attempt.recursion
      split
      · exact later
      · exact nofun
    rcases hprepare : (attempt m).prepare with fault | ⟨⟩
    · simp [Attempt.cursorCalls, hprepare] at h
    rcases hcursor : (attempt m).cursor with fault | ⟨⟩
    · simp only [Attempt.cursorCalls, hprepare, hcursor] at h ⊢
      exact inner h
    · simp only [Attempt.cursorCalls, hprepare, hcursor, closes, List.cons_append, List.mem_cons,
        CursorCall.opened.injEq, List.mem_append, reduceCtorEq, List.not_mem_nil, or_false,
        false_or, CursorCall.closed.injEq] at h ⊢
      exact h.symm.imp inner id
  induction retries with
  | zero => exact pass 0 [] nofun h
  | succ retries ih => exact pass _ _ ih h

/-- Over a driver that may lose the connection at `cursor()` and at `execute()`, a query reports
the first attempt that completes, or that none does, exactly if no attempt that is made loses it at
`cursor()`. -/
theorem query_reported_iff (commit : Bool) (fetch : Fetch) {maxretry : ℤ} (some : 1 ≤ maxretry)
    {attempt : ℕ → Attempt R} (driver : ∀ n, (attempt n).MayLose) :
    Reported commit fetch maxretry attempt ↔
      ∀ n : ℕ, n < maxretry → (∀ m : ℕ, n < m → m < maxretry → (attempt m).Lost) →
        (attempt n).cursor = .ok () := by
  have reached_iff (n : ℕ) : Reached attempt (maxretry - 1).toNat n ↔
      n < maxretry ∧ ∀ m : ℕ, n < m → m < maxretry → (attempt m).Lost := by
    have inside (m : ℕ) : m ≤ (maxretry - 1).toNat ↔ m < maxretry := by omega
    simp only [Reached, inside]
  constructor
  · intro reported n inside before
    refine (driver n).cursor.resolve_right fun raised => ?_
    have answer : (query commit fetch maxretry attempt).2 = .error .unboundLocal :=
      attempts_unopened driver ((reached_iff n).mpr ⟨inside, before⟩) raised
    rcases all_lost_or_reached attempt (maxretry - 1).toNat with all | ⟨k, reached, kept⟩
    · have raises := reported.raises fun m hm => all m (by omega)
      rw [answer] at raises
      cases raises
    · obtain ⟨value, completes⟩ := completes_of_not_lost fetch (driver k) kept
      obtain ⟨inside, before⟩ := (reached_iff k).mp reached
      have returns := reported.returns k inside before value completes
      rw [answer] at returns
      cases returns
  · intro opened
    have reaches (n : ℕ) (h : Reached attempt (maxretry - 1).toNat n) :
        (attempt n).cursor = .ok () :=
      opened n ((reached_iff n).mp h).1 ((reached_iff n).mp h).2
    refine ⟨fun n inside before value completes => ?_, fun lost => ?_, fun n => ?_⟩
    · exact attempts_completes driver reaches ((reached_iff n).mpr ⟨inside, before⟩) completes
    · refine attempts_all_lost driver (fun n le => lost n (by omega)) fun n le => ?_
      exact opened n (by omega) fun m _ hm => lost m hm
    · exact closed_of_opened fun n => (driver n).close

theorem mayLose_quiet : (Attempt.quiet : Attempt R).MayLose :=
  ⟨rfl, .inl rfl, .inl rfl, rfl, ⟨none, rfl⟩, ⟨[], rfl⟩, rfl⟩

theorem query_reported_iff_executing :
    Reported false .one 2 fun n => { Attempt.quiet (R := Unit) with
      execute := if n = 1 then .error .connection else .ok () } := by
  refine (query_reported_iff false .one (by decide) fun n => ?_).mpr fun _ _ _ => rfl
  refine { mayLose_quiet with execute := ?_ }
  by_cases first : n = 1 <;> simp [first]

/-- The first attempt gets no cursor, and the second one a row: the row is lost. -/
theorem query_not_reported :
    ¬ ∀ (commit : Bool) (fetch : Fetch) (maxretry : ℤ) (attempt : ℕ → Attempt ℕ), 1 ≤ maxretry →
      (∀ n, (attempt n).MayLose) → Reported commit fetch maxretry attempt := by
  intro all
  let attempt (n : ℕ) : Attempt ℕ := { Attempt.quiet with
    cursor := if n = 1 then .error .connection else .ok ()
    fetchone := .ok (some 7) }
  have driver (n : ℕ) : (attempt n).MayLose := by
    refine { mayLose_quiet with cursor := ?_, fetchone := ⟨some 7, rfl⟩ }
    by_cases first : n = 1 <;> simp [attempt, first]
  have reported := all false .one 2 attempt (by decide) driver
  have lost (m : ℕ) (above : 0 < m) (inside : (m : ℤ) < 2) : (attempt m).Lost := by
    obtain rfl : m = 1 := by omega
    exact .inl rfl
  have returned := reported.returns 0 (by decide) lost (.one (some 7)) ⟨rfl, rfl, rfl⟩
  have raised : (query false .one 2 attempt).2 = .error .unboundLocal :=
    attempts_unopened driver
      ⟨Nat.le_refl 1, fun m above inside => absurd inside (Nat.not_le_of_lt above)⟩ rfl
  rw [raised] at returned
  cases returned

end KhCommon.Sql
