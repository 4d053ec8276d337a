import KhCommon.Sql.Transaction

/-! `query_async`: each call runs `SqlInterface.query` on a thread of its own, and all of
them share the connection. The calls of the driver are the steps; between any two of
them another thread may go on. So the commit or the rollback that one call ends with
settles what the others have executed by then, and a call that commits may return
after another one has rolled its statement back. -/

namespace KhCommon.Sql.Threads

open Transactions Machine

inductive Phase
  | idle
  | called (commit : Bool) (retries : ℕ)
  | ready (commit : Bool) (retries : ℕ)
  | opened (conn : ℕ) (commit : Bool) (retries : ℕ) -- its cursor is on `conn`
  | executed (commit : Bool) (retries : ℕ)
  | settled (commit : Bool) (retries : ℕ) -- it is about to fetch
  | faulted (fault : Fault) (commit : Bool) (retries : ℕ) -- in front of the handlers
  | left -- only the cursors are still to be closed

structure System where
  db : Db
  phase : ℕ → Phase

/-- A call begins, or does the next thing that concerns the driver, which answers. -/
inductive Step
  | call (id : ℕ) (commit : Bool) (maxretry : ℤ)
  | head (id : ℕ) (closed connects : Bool) (prepare : Except Fault Unit)
  | cursor (id : ℕ) (answer : Except Fault Unit)
  | execute (id : ℕ) (answer : Except Fault Unit)
  | settle (id : ℕ) (answer : Except Fault Unit)
  | fetch (id : ℕ) (answer : Except Fault Unit)
  | handle (id : ℕ) (reconnects : Bool) (recover : Except Fault Unit)

def Step.id : Step → ℕ
  | .call id .. | .head id .. | .cursor id _ | .execute id _ | .settle id _ | .fetch id _
  | .handle id .. => id

def settlement (commit : Bool) : Effect := if commit then .commit else .rollback

/-- What a call does in its phase, and the phase after it; a step that is not its next is none. -/
def Step.act (conn : ℕ) : Step → Phase → List Effect × Phase
  | .call _ commit maxretry, .idle => ([], .called commit (maxretry - 1).toNat)
  | .head _ closed connects prepare, .called commit retries =>
    (if closed then sqlConnect connects else [],
      match prepare with
      | .ok () => .ready commit retries
      | .error _ => .left)
  | .cursor _ answer, .ready commit retries =>
    ([], match answer with
      | .ok () => .opened conn commit retries
      | .error fault => .faulted fault commit retries)
  | .execute _ answer, .opened conn commit retries =>
    match answer with
    | .ok () => ([.executeOn conn], .executed commit retries)
    | .error fault => ([], .faulted fault commit retries)
  | .settle _ answer, .executed commit retries =>
    match answer with
    | .ok () => ([settlement commit], .settled commit retries)
    | .error fault => ([], .faulted fault commit retries)
  | .fetch _ answer, .settled commit retries =>
    ([], match answer with
      | .ok () => .left
      | .error fault => .faulted fault commit retries)
  | .handle _ reconnects recover, .faulted fault commit retries =>
    match fault, retries with
    | .connection, retries + 1 => (sqlConnect reconnects, .called commit retries)
    | .connection, 0 => ([], .left)
    | _, _ =>
      match recover with
      | .ok () => ([.rollback], .left)
      | .error _ => ([], .left)
  | _, phase => ([], phase)

def step (s : System) (i : Step) : List Effect × System :=
  let (effects, phase) := i.act s.db.conn (s.phase i.id)
  (effects, ⟨effects.foldl apply s.db, Function.update s.phase i.id phase⟩)

def start : System := ⟨Transactions.start, fun _ => .idle⟩

def effects (s : System) (steps : List Step) : List Effect := (outputs step s steps).flatten

variable {s : System} {id : ℕ} {commit : Bool} {retries : ℕ}

theorem run_db (s : System) (steps : List Step) :
    (run step s steps).db = (effects s steps).foldl apply s.db := by
  induction steps generalizing s with
  | nil => rfl
  | cons i steps ih =>
    rw [run_cons, ih, effects, effects, outputs, List.flatten_cons, List.foldl_append]
    rfl

theorem numbered_run (steps : List Step) : Numbered (run step start steps).db := by
  rw [run_db]
  exact numbered_start.foldl _

/-! ## A call that nothing comes between -/

section Alone

variable {R : Type}

def bodySteps (id : ℕ) (fetch : Fetch) (a : Attempt R) : List Step :=
  [.cursor id a.cursor, .execute id a.execute, .settle id a.settle,
    .fetch id ((fetched fetch a.fetchone a.fetchall).map fun _ => ())]

def attemptSteps (id : ℕ) (fetch : Fetch) (a : Attempt R) : List Step :=
  .head id a.closed a.connects a.prepare ::
    (bodySteps id fetch a ++ [.handle id a.reconnects a.recover])

def querySteps (id : ℕ) (fetch : Fetch) (attempt : ℕ → Attempt R) : (retries : ℕ) → List Step
  | 0 => attemptSteps id fetch (attempt 0)
  | retries + 1 =>
    attemptSteps id fetch (attempt (retries + 1)) ++ querySteps id fetch attempt retries

theorem run_left (left : s.phase id = .left) {steps : List Step} (own : ∀ i ∈ steps, i.id = id) :
    run step s steps = s := by
  induction steps with
  | nil => rfl
  | cons i steps ih =>
    rw [List.forall_mem_cons] at own
    have still : (step s i).2 = s := by
      have act : i.act s.db.conn (s.phase i.id) = ([], s.phase i.id) := by
        rw [own.1, left]
        cases i <;> rfl
      simp only [step, act, List.foldl_nil, Function.update_eq_self]
    rw [run_cons, still, ih own.2]

theorem run_body (ready : s.phase id = .ready commit retries) (fetch : Fetch) (a : Attempt R) :
    let s' := run step s (bodySteps id fetch a)
    s'.db = (a.body commit fetch).1.foldl apply s.db ∧
      s'.phase id = match (a.body commit fetch).2 with
        | .ok _ => .left
        | .error fault => .faulted fault commit retries := by
  obtain ⟨-, -, -, cursor, execute, settle, fetchone, fetchall, -, -, -⟩ := a
  cases cursor with
  | error fault => simp [bodySteps, Attempt.body, step, Step.act, Step.id, ready]
  | ok _ =>
    cases execute with
    | error fault => simp [bodySteps, Attempt.body, step, Step.act, Step.id, ready]
    | ok _ =>
      cases settle with
      | error fault => simp [bodySteps, Attempt.body, step, Step.act, Step.id, ready, apply]
      | ok _ =>
        cases value : fetched fetch fetchone fetchall <;>
          simp [bodySteps, Attempt.body, step, Step.act, Step.id, ready, apply, value, settlement,
            Except.map]

theorem run_attempt (called : s.phase id = .called commit retries) (fetch : Fetch) (a : Attempt R)
    (again : Option (List Effect × Except Fault (Fetched R)))
    (some_again : again.isSome ↔ retries ≠ 0) :
    let s' := run step s (attemptSteps id fetch a)
    let es := (a.run commit fetch again).1
    (s'.phase id = .left ∧ s'.db = es.foldl apply s.db) ∨
      ∃ left rest, retries = left + 1 ∧ again = some rest ∧ s'.phase id = .called commit left ∧
        rest.1.foldl apply s'.db = es.foldl apply s.db := by
  intro s' es
  set opened : List Effect := if a.closed then sqlConnect a.connects else [] with hopened
  set s₁ : System := (step s (.head id a.closed a.connects a.prepare)).2 with hs₁
  have db₁ : s₁.db = opened.foldl apply s.db := by
    simp [hs₁, step, Step.act, Step.id, called, hopened]
  have hs' : s' = run step s₁ (bodySteps id fetch a ++ [.handle id a.reconnects a.recover]) := rfl
  rcases hprepare : a.prepare with fault | ⟨⟩
  · have left : s₁.phase id = .left := by
      simp [hs₁, step, Step.act, Step.id, called, hprepare]
    have own : ∀ i ∈ bodySteps id fetch a ++ [.handle id a.reconnects a.recover], i.id = id := by
      simp [bodySteps, Step.id]
    rw [run_left left own] at hs'
    refine .inl ⟨hs' ▸ left, ?_⟩
    simp only [hs', db₁, es, Attempt.run, hprepare, hopened]
  · have ready : s₁.phase id = .ready commit retries := by
      simp [hs₁, step, Step.act, Step.id, called, hprepare]
    obtain ⟨db₂, phase₂⟩ := run_body ready fetch a
    rw [run_append] at hs'
    set s₂ : System := run step s₁ (bodySteps id fetch a)
    rcases hbody : a.body commit fetch with ⟨done, fault | value⟩
    · rw [hbody] at db₂ phase₂
      -- the handlers
      rcases Decidable.em (fault = .connection) with rfl | other
      · cases retries with
        | zero =>
          obtain rfl : again = none := by simpa using some_again
          refine .inl ⟨by simp [hs', step, Step.act, Step.id, phase₂], ?_⟩
          simp [hs', step, Step.act, Step.id, phase₂, db₁, db₂, es, Attempt.run, hprepare, hbody,
            hopened, List.foldl_append]
        | succ left =>
          obtain ⟨rest, rfl⟩ := Option.isSome_iff_exists.mp (some_again.mpr (Nat.succ_ne_zero left))
          refine .inr ⟨left, rest, rfl, rfl, by simp [hs', step, Step.act, Step.id, phase₂], ?_⟩
          simp [hs', step, Step.act, Step.id, phase₂, db₁, db₂, es, Attempt.run, hprepare, hbody,
            hopened, List.foldl_append]
      · left
        rcases hrecover : a.recover with again | ⟨⟩ <;> cases fault <;>
          simp_all [step, Step.act, Step.id, es, Attempt.run, List.foldl_append]
    · rw [hbody] at db₂ phase₂
      rw [run_left phase₂ (by simp [Step.id])] at hs'
      refine .inl ⟨hs' ▸ phase₂, ?_⟩
      simp [hs', db₁, db₂, es, Attempt.run, hprepare, hbody, hopened, List.foldl_append]

theorem id_of_mem_attemptSteps (fetch : Fetch) (a : Attempt R) :
    ∀ i ∈ attemptSteps id fetch a, i.id = id := by
  simp [attemptSteps, bodySteps, Step.id]

theorem id_of_mem_querySteps (fetch : Fetch) (attempt : ℕ → Attempt R) :
    ∀ i ∈ querySteps id fetch attempt retries, i.id = id := by
  induction retries with
  | zero => exact id_of_mem_attemptSteps fetch _
  | succ retries ih =>
    rw [querySteps, List.forall_mem_append]
    exact ⟨id_of_mem_attemptSteps fetch _, ih⟩

theorem query_alone (called : s.phase id = .called commit retries) (fetch : Fetch)
    (attempt : ℕ → Attempt R) :
    (run step s (querySteps id fetch attempt retries)).db =
      (attempts commit fetch attempt retries).1.foldl apply s.db := by
  induction retries generalizing s with
  | zero =>
    obtain ⟨-, done⟩ | ⟨left, -, more, -⟩ :=
      run_attempt called fetch (attempt 0) none (by simp)
    · exact done
    · cases more
  | succ retries ih =>
    rw [querySteps, run_append]
    obtain ⟨left, done⟩ | ⟨left, rest, more, same, next, done⟩ :=
      run_attempt called fetch (attempt (retries + 1))
        (some (attempts commit fetch attempt retries)) (by simp)
    · rw [run_left left (id_of_mem_querySteps fetch attempt), done]
      rfl
    · obtain rfl := Nat.succ.inj more
      obtain rfl := Option.some.inj same
      rw [ih next, done]
      rfl

end Alone

/-! ## What becomes of a statement -/

theorem phase_of_others {steps : List Step} (others : ∀ i ∈ steps, i.id ≠ id) :
    (run step s steps).phase id = s.phase id := by
  induction steps generalizing s with
  | nil => rfl
  | cons i steps ih =>
    rw [List.forall_mem_cons] at others
    rw [run_cons, ih others.2]
    exact Function.update_of_ne (Ne.symm others.1) _ _

theorem conn_run_iff (s : System) (steps : List Step) :
    s.db.conn = (run step s steps).db.conn ↔ .connect ∉ effects s steps := by
  rw [run_db, eq_comm]
  exact (conn_foldl s.db (effects s steps)).2

theorem settling_settlement (es fs : List Effect) :
    settling (es ++ settlement commit :: fs) = settling (es ++ [settlement commit]) := by
  have settles : ∀ gs, settling (settlement commit :: gs) = some (settlement commit) := by
    cases commit <;> exact fun _ => rfl
  rw [settling_append, settling_append, settles, settles]

/-- In every interleaving of calls, and whatever comes after: the statement of an attempt that gets
as far as its commit or rollback is durable if and only if no thread reconnected between its cursor
and its execution, and the first that settled anything from then on was a commit. -/
theorem query_durable_iff (before middle between : List Step) (id : ℕ)
    (ready : (run step start before).phase id = .ready commit retries)
    (others : ∀ i ∈ middle ++ between, i.id ≠ id) :
    let opened := (step (run step start before) (.cursor id (.ok ()))).2
    let s := run step opened middle
    let executed := (step s (.execute id (.ok ()))).2
    let s' := (step (run step executed between) (.settle id (.ok ()))).2
    s'.phase id = .settled commit retries ∧
      ∀ after, s.db.executed ∈ (run step s' after).db.durable ↔
        .connect ∉ effects opened middle ∧
          settling (effects executed between ++ [settlement commit]) = some .commit := by
  intro opened s executed s'
  rw [List.forall_mem_append] at others
  have on_conn : s.phase id = .opened opened.db.conn commit retries := by
    rw [phase_of_others others.1]
    simp [opened, step, Step.act, Step.id, ready]
  have pending : (run step executed between).phase id = .executed commit retries := by
    rw [phase_of_others others.2]
    simp [executed, step, Step.act, Step.id, on_conn]
  refine ⟨by simp [s', step, Step.act, Step.id, pending], fun after => ?_⟩
  have executed_db : executed.db = s.db.execute opened.db.conn := by
    simp [executed, step, Step.act, Step.id, on_conn, apply]
  have settled_db : s'.db = apply (run step executed between).db (settlement commit) := by
    simp [s', step, Step.act, Step.id, pending]
  have numbered : Numbered s.db := by
    have run_s : s = run step start (before ++ .cursor id (.ok ()) :: middle) := by
      rw [run_append]
      rfl
    rw [run_s]
    exact numbered_run _
  have fate := mem_durable_execute_iff numbered opened.db.conn
    (effects executed between ++ settlement commit :: effects s' after)
  rw [settling_settlement, conn_run_iff, List.foldl_append, List.foldl_cons, ← executed_db,
    ← run_db, ← settled_db, ← run_db] at fate
  exact fate

theorem query_durable_iff_lost :
    let before : List Step := [.call 0 true 2, .head 0 false true (.ok ())]
    let between : List Step := [.call 1 false 2, .head 1 false true (.ok ()), .cursor 1 (.ok ()),
      .execute 1 (.ok ()), .settle 1 (.ok ())]
    let s := run step start (before ++ .cursor 0 (.ok ()) :: .execute 0 (.ok ()) :: between ++
      [.settle 0 (.ok ())])
    s.phase 0 = .settled true 1 ∧ ∀ after, 0 ∉ (run step s after).db.durable := by
  intro before between s
  obtain ⟨settled, fate⟩ := query_durable_iff before [] between 0 rfl (by decide)
  exact ⟨settled, fun after durable => absurd ((fate after).mp durable).2 (by decide)⟩

end KhCommon.Sql.Threads
