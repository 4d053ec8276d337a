import KhCommon.Sql.Transaction

/-! What a query that raises has left behind. The commit comes before the fetch and
before the cursor is closed, and the rollback of the handler undoes nothing that
was committed. So a query that raises after its commit has made its statement
durable, and any other that raises has not. -/

namespace KhCommon.Sql

open Transactions Machine

variable {R : Type}

/-- The connection is not lost: it is open, and no call of the driver says otherwise. -/
structure Attempt.Connected (a : Attempt R) : Prop where
  opened : a.closed = false
  cursor : a.cursor ≠ .error .connection
  execute : a.execute ≠ .error .connection
  settle : a.settle ≠ .error .connection
  fetchone : a.fetchone ≠ .error .connection
  fetchall : a.fetchall ≠ .error .connection

@[mk_iff] structure Attempt.Settles (a : Attempt R) : Prop where
  prepare : a.prepare = .ok ()
  cursor : a.cursor = .ok ()
  execute : a.execute = .ok ()
  settle : a.settle = .ok ()

def Attempt.FailsLate (a : Attempt R) (fetch : Fetch) : Prop :=
  (∃ fault, fetched fetch a.fetchone a.fetchall = .error fault) ∨ ∃ fault, a.close = .error fault

variable {a : Attempt R} {fetch : Fetch} {commit : Bool}

theorem fetched_connected (h : a.Connected) :
    fetched fetch a.fetchone a.fetchall ≠ .error .connection := by
  have one := h.fetchone
  have all := h.fetchall
  cases fetch with
  | nothing => exact nofun
  | one =>
    rcases hone : a.fetchone with fault | row
    · simpa [fetched, hone, Except.map] using one
    · simp [fetched, Except.map]
  | all =>
    rcases hall : a.fetchall with fault | rows
    · simpa [fetched, hall, Except.map] using all
    · simp [fetched, Except.map]

theorem body_connected (commit : Bool) (fetch : Fetch) (h : a.Connected) :
    (a.body commit fetch).2 ≠ .error .connection := by
  rcases hcursor : a.cursor with fault | ⟨⟩
  · simpa [Attempt.body, hcursor] using h.cursor
  rcases hexecute : a.execute with fault | ⟨⟩
  · simpa [Attempt.body, hcursor, hexecute] using h.execute
  rcases hsettle : a.settle with fault | ⟨⟩
  · simpa [Attempt.body, hcursor, hexecute, hsettle] using h.settle
  · simpa [Attempt.body, hcursor, hexecute, hsettle] using fetched_connected h

theorem run_connected (commit : Bool) (fetch : Fetch) (h : a.Connected)
    (again : Option (List Effect × Except Fault (Fetched R))) (prepared : a.prepare = .ok ()) :
    ∃ handled answer, a.run commit fetch again =
        ((a.body commit fetch).1 ++ handled, a.final answer) ∧ .commit ∉ handled ∧
      ((a.body commit fetch).2 = answer ∨ ∃ fault fault',
        (a.body commit fetch).2 = .error fault ∧ answer = .error fault') := by
  have answer := body_connected commit fetch h
  rcases hbody : a.body commit fetch with ⟨done, fault | value⟩
  · have notConnection : fault ≠ .connection := by
      rintro rfl
      exact answer (by rw [hbody])
    rcases hrecover : a.recover with fault' | ⟨⟩
    · refine ⟨[], .error fault', ?_, by simp, .inr ⟨fault, fault', rfl, rfl⟩⟩
      cases fault <;> simp_all [Attempt.run, h.opened]
    · refine ⟨[.rollback], .error fault, ?_, by simp, .inl rfl⟩
      cases fault <;> simp_all [Attempt.run, h.opened]
  · exact ⟨[], .ok value, by simp [Attempt.run, prepared, h.opened, hbody], by simp, .inl rfl⟩

variable (again : Option (List Effect × Except Fault (Fetched R)))

theorem run_settled (h : a.Connected) (settles : a.Settles) :
    (∃ handled, (a.run commit fetch again).1 =
      .execute :: (if commit then .commit else .rollback) :: handled) ∧
    ((∃ fault, (a.run commit fetch again).2 = .error fault) ↔ a.FailsLate fetch) := by
  obtain ⟨handled, answer, hrun, -, hanswer⟩ :=
    run_connected commit fetch h again settles.prepare
  have hbody : a.body commit fetch = ([.execute, if commit then .commit else .rollback],
      fetched fetch a.fetchone a.fetchall) := by
    simp [Attempt.body, settles.cursor, settles.execute, settles.settle]
  rw [hbody] at hrun hanswer
  rw [hrun]
  refine ⟨⟨handled, rfl⟩, ?_⟩
  have raises : (∃ fault, answer = .error fault) ↔
      ∃ fault, fetched fetch a.fetchone a.fetchall = .error fault := by
    rcases hanswer with same | ⟨fault, fault', hfetched, rfl⟩
    · rw [← same]
    · exact iff_of_true ⟨fault', rfl⟩ ⟨fault, hfetched⟩
  rw [Attempt.FailsLate, ← raises, Attempt.final, settles.cursor]
  rcases a.close with fault | ⟨⟩ <;> simp

theorem run_uncommitted (fetch : Fetch) (h : a.Connected) (not : ¬(commit = true ∧ a.Settles)) :
    .commit ∉ (a.run commit fetch again).1 := by
  rcases hprepare : a.prepare with fault | ⟨⟩
  · simp [Attempt.run, hprepare, h.opened]
  obtain ⟨handled, answer, hrun, noCommit, -⟩ :=
    run_connected commit fetch h again hprepare
  rw [hrun, List.mem_append, not_or]
  refine ⟨?_, noCommit⟩
  rw [Attempt.settles_iff, not_and] at not
  rcases hcursor : a.cursor with fault | ⟨⟩
  · simp [Attempt.body, hcursor]
  rcases hexecute : a.execute with fault | ⟨⟩
  · simp [Attempt.body, hcursor, hexecute]
  rcases hsettle : a.settle with fault | ⟨⟩
  · simp [Attempt.body, hcursor, hexecute, hsettle]
  · have rolls : commit = false := by
      rw [← Bool.not_eq_true]
      exact fun commits => not commits ⟨hprepare, hcursor, hexecute, hsettle⟩
    simp [Attempt.body, hcursor, hexecute, hsettle, rolls]

theorem attempts_eq_run (commit : Bool) (fetch : Fetch) (attempt : ℕ → Attempt R) (retries : ℕ) :
    ∃ again, attempts commit fetch attempt retries = (attempt retries).run commit fetch again := by
  cases retries with
  | zero => exact ⟨none, rfl⟩
  | succ retries => exact ⟨some (attempts commit fetch attempt retries), rfl⟩

/-- Whatever was done before, a query during which the connection is not lost either leaves its
statement out of the database when it raises, or it had committed it and then failed to fetch or
to close the cursor. -/
theorem failed_query_unchanged_iff (before : List (Call R)) (commit : Bool) (fetch : Fetch)
    (maxretry : ℤ) (attempt : ℕ → Attempt R) (kept : ∀ n, (attempt n).Connected) :
    let s := run step connected before
    let call := Call.query commit fetch maxretry attempt
    let first := attempt (maxretry - 1).toNat
    ((∃ fault, (step s call).1 = .error fault) → s.db.executed ∉ (step s call).2.db.durable) ↔
      ¬(commit = true ∧ first.Settles ∧ first.FailsLate fetch) := by
  intro s call first
  have numbered : Numbered s.db := numbered_run (s := connected) numbered_start before
  obtain ⟨again, hattempts⟩ := attempts_eq_run commit fetch attempt (maxretry - 1).toNat
  have after : (step s call).2.db = (first.run commit fetch again).1.foldl apply s.db := by
    rw [← hattempts]
    rfl
  have answer : (step s call).1 = (first.run commit fetch again).2 := by
    rw [← hattempts]
    rfl
  rw [after, answer]
  by_cases commits : commit = true ∧ first.Settles
  · obtain ⟨rfl, settles⟩ := commits
    obtain ⟨⟨handled, heffects⟩, raises⟩ := run_settled again (kept _) settles
    have durable : s.db.executed ∈ ((first.run true fetch again).1.foldl apply s.db).durable := by
      rw [heffects]
      exact mem_durable_foldl (List.mem_append_right _ numbered.live.pending) handled
    rw [raises]
    tauto
  · have unchanged := durable_foldl_of_no_commit s.db
      (run_uncommitted again fetch (kept _) commits)
    rw [unchanged]
    refine iff_of_true (fun _ hn => Nat.lt_irrefl _ (numbered.durable _ hn)) fun h => ?_
    exact commits ⟨h.1, h.2.1⟩

theorem failed_query_unchanged_commit :
    let call : Call Unit := .query true .nothing 2 fun _ => { Attempt.quiet with
      settle := .error .other }
    (∃ fault, (step connected call).1 = .error fault) →
      connected.db.executed ∉ (step connected call).2.db.durable :=
  (failed_query_unchanged_iff [] true .nothing 2
    (fun _ => { Attempt.quiet with settle := .error .other }) fun _ => by
      constructor <;> simp [Attempt.quiet]).mpr (by simp [Attempt.settles_iff])

/-- An update that returns no row is committed, and then `fetchone` raises. -/
theorem failed_query_durable :
    ¬ ∀ (before : List (Call Unit)) (commit : Bool) (fetch : Fetch) (maxretry : ℤ)
      (attempt : ℕ → Attempt Unit), (∀ n, (attempt n).Connected) →
      let s := run step connected before
      let call := Call.query commit fetch maxretry attempt
      (∃ fault, (step s call).1 = .error fault) →
        s.db.executed ∉ (step s call).2.db.durable := by
  intro all
  have unchanged := all [] true .one 2
    (fun _ => { Attempt.quiet with fetchone := .error .other })
    (fun _ => by constructor <;> simp [Attempt.quiet]) ⟨.other, rfl⟩
  exact absurd unchanged (by decide)

end KhCommon.Sql
