import KhCommon.Sql.Interface

/-! What becomes of the statements of a `Transaction`. Its cursor is on a
connection that every query of the interface commits, rolls back or replaces, so
a statement is settled by the first of these that comes after it, whoever asks
for it. `commit()` makes durable what nothing has settled before on its own
connection; a block that ends without `commit()` leaves behind what nothing has
rolled back, to be made durable by whoever commits next. -/

namespace KhCommon.Sql

open Transactions Machine

variable {R : Type}

def Attempt.quiet : Attempt R :=
  ⟨false, true, .ok (), .ok (), .ok (), .ok (), .ok none, .ok [], true, .ok (), .ok ()⟩

def Statement.quiet : Statement R := ⟨.ok (), .ok (), .ok none, .ok []⟩

def Statement.ran (answers : Statement R) : Bool :=
  match answers.prepare, answers.execute with
  | .ok (), .ok () => true
  | _, _ => false

/-- What an operation does through the driver, executions by a transaction apart. It does not
depend on the state. -/
def Call.settles : Call R → List Effect
  | .query commits fetch maxretry attempt => (Sql.query commits fetch maxretry attempt).1
  | .enter _ turn => (Sql.enter turn).1
  | .statement .. => []
  | .commit _ answer => (onConnection (R := R) .commit answer).1
  | .rollback _ answer => (onConnection (R := R) .rollback answer).1
  | .exit _ raised rolledBack _ =>
    if raised then (onConnection (R := R) .rollback rolledBack).1 else []

def effects : System → List (Call R) → List Effect
  | _, [] => []
  | s, call :: calls => (call.perform s).1 ++ effects (step s call).2 calls

def statements (tx : ℕ) : System → List (Call R) → List ℕ
  | _, [] => []
  | s, call :: calls =>
    (match call with
      | .statement tx' _ answers =>
        if tx' = tx ∧ (s.cur tx).isOpen ∧ answers.ran then [s.db.executed] else []
      | _ => []) ++ statements tx (step s call).2 calls

theorem run_db (s : System) (calls : List (Call R)) :
    (run step s calls).db = (effects s calls).foldl apply s.db := by
  induction calls generalizing s with
  | nil => rfl
  | cons call calls ih =>
    rw [run_cons, ih, effects, List.foldl_append]
    rfl

theorem numbered_step {s : System} (h : Numbered s.db) (call : Call R) :
    Numbered (step s call).2.db :=
  h.foldl _

theorem numbered_run {s : System} (h : Numbered s.db) (calls : List (Call R)) :
    Numbered (run step s calls).db := by
  rw [run_db]
  exact h.foldl _

theorem perform_cases (s : System) (call : Call R) :
    (call.perform s).1 = call.settles ∨
      call.settles = [] ∧ ∃ conn, (call.perform s).1 = [.executeOn conn] := by
  cases call with
  | query commits fetch maxretry attempt => exact .inl rfl
  | enter tx turn => exact .inl rfl
  | commit tx answer => exact .inl rfl
  | rollback tx answer => exact .inl rfl
  | statement tx fetch answers =>
    simp only [Call.perform, Call.settles]
    cases s.cur tx with
    | none => exact .inl rfl
    | closed => exact .inl rfl
    | on conn =>
      simp only [Statement.run]
      split
      · exact .inl rfl
      · exact .inl rfl
      · exact .inr ⟨trivial, conn, rfl⟩
  | exit tx raised rolledBack close =>
    refine .inl ?_
    simp only [Call.perform, Call.settles]
    cases raised <;> cases rolledBack <;> cases s.cur tx <;> cases close <;> rfl

theorem settling_perform (s : System) (call : Call R) (es : List Effect) :
    settling ((call.perform s).1 ++ es) = settling (call.settles ++ es) := by
  rcases perform_cases s call with same | ⟨none, conn, executes⟩
  · rw [same]
  · rw [none, executes]
    rfl

theorem settling_effects (s : System) (calls : List (Call R)) (es : List Effect) :
    settling (effects s calls ++ es) = settling (calls.flatMap Call.settles ++ es) := by
  induction calls generalizing s with
  | nil => rfl
  | cons call calls ih =>
    rw [effects, List.flatMap_cons, List.append_assoc, List.append_assoc, settling_perform,
      settling_append, ih, ← settling_append]

theorem connect_mem_perform (s : System) (call : Call R) :
    .connect ∈ (call.perform s).1 ↔ .connect ∈ call.settles := by
  rcases perform_cases s call with same | ⟨none, conn, executes⟩
  · rw [same]
  · simp [none, executes]

theorem conn_step {s : System} {conn : ℕ} (hconn : conn ≤ s.db.conn) (call : Call R) :
    conn ≤ (step s call).2.db.conn ∧
      (conn = (step s call).2.db.conn ↔ conn = s.db.conn ∧ .connect ∉ call.settles) := by
  obtain ⟨le, same⟩ := conn_foldl s.db (call.perform s).1
  rw [connect_mem_perform] at same
  have step_conn : (step s call).2.db.conn = ((call.perform s).1.foldl apply s.db).conn := rfl
  rw [step_conn, ← same]
  omega

theorem cur_of_entered {s : System} {tx : ℕ} {turn : ℕ → Turn} {value : Fetched R}
    (entered : (step s (.enter tx turn : Call R)).1 = .ok value) :
    (step s (.enter tx turn : Call R)).2.cur tx =
      .on (step s (.enter tx turn : Call R)).2.db.conn := by
  have answer : ((Call.enter tx turn : Call R).perform s).2 = .ok value := entered
  simp only [step, Call.cursors, answer, Function.update_self]

/-! ## Between `__enter__` and `commit()` -/

def Between (tx : ℕ) : Call R → Prop
  | .query .. => True
  | .statement tx' .. => tx' = tx
  | _ => False

def StatementReturns (_ : System) (call : Call R) (answer : Except Fault (Fetched R)) : Prop :=
  match call with
  | .statement .. => ∃ value, answer = .ok value
  | _ => True

/-- For each statement of the transaction: no query of the interface has replaced the connection
before it (`same`), and the first commit, rollback or reconnection after it, with `commit()` at
the end, is a commit. -/
def Kept : (same : Prop) → List (Call R) → Prop
  | _, [] => True
  | same, call :: calls =>
    match call with
    | .statement .. =>
      (same ∧ settling (calls.flatMap Call.settles ++ [.commit]) = some .commit) ∧ Kept same calls
    | _ => Kept (same ∧ .connect ∉ call.settles) calls

theorem ran_of_returned {s : System} {tx conn : ℕ} (open_ : s.cur tx = .on conn) {fetch : Fetch}
    {answers : Statement R} {value : Fetched R}
    (returned : (step s (.statement tx fetch answers)).1 = .ok value) : answers.ran = true := by
  simp only [step, Call.perform, open_, Statement.run] at returned
  unfold Statement.ran
  split at returned
  · cases returned
  · cases returned
  · rename_i hprepare hexecute
    rw [hprepare, hexecute]

theorem perform_statement {s : System} {tx conn : ℕ} (open_ : s.cur tx = .on conn) (fetch : Fetch)
    {answers : Statement R} (ran : answers.ran = true) :
    ((Call.statement tx fetch answers).perform s).1 = [.executeOn conn] := by
  unfold Statement.ran at ran
  split at ran
  · rename_i hprepare hexecute
    simp only [Call.perform, open_, Statement.run, hprepare, hexecute]
  · cases ran

theorem step_statement {s : System} {tx conn : ℕ} (open_ : s.cur tx = .on conn) (fetch : Fetch)
    {answers : Statement R} (ran : answers.ran = true) :
    (step s (.statement tx fetch answers)).2 = ⟨s.db.execute conn, s.cur⟩ := by
  rw [step, perform_statement open_ fetch ran]
  rfl

theorem mem_durable_execute_iff {db : Db} (h : Numbered db) (conn : ℕ) (es : List Effect) :
    db.executed ∈ (es.foldl apply (db.execute conn)).durable ↔
      conn = db.conn ∧ settling es = some .commit := by
  by_cases same : conn = db.conn
  · subst same
    rw [h.live.mem_durable_iff]
    exact ⟨fun hes => ⟨rfl, hes⟩, fun hes => hes.2⟩
  · exact iff_of_false ((h.lost same).foldl es).unsettled fun hes => same hes.1

theorem durable_after_commit_iff {s : System} (h : Numbered s.db) (conn : ℕ)
    (calls : List (Call R)) :
    s.db.executed ∈ (apply (run step ⟨s.db.execute conn, s.cur⟩ calls).db .commit).durable ↔
      conn = s.db.conn ∧ settling (calls.flatMap Call.settles ++ [.commit]) = some .commit := by
  have fate := mem_durable_execute_iff h conn
    (effects ⟨s.db.execute conn, s.cur⟩ calls ++ [Effect.commit])
  rw [settling_effects, List.foldl_append] at fate
  rw [run_db]
  exact fate

theorem statements_durable_iff {tx conn : ℕ} {calls : List (Call R)} {s : System}
    (h : Numbered s.db) (open_ : s.cur tx = .on conn) (hconn : conn ≤ s.db.conn)
    (between : ∀ call ∈ calls, Between tx call)
    (returned : Always step StatementReturns s calls) :
    (∀ n ∈ statements tx s calls, n ∈ (apply (run step s calls).db .commit).durable) ↔
      Kept (conn = s.db.conn) calls := by
  induction calls generalizing s with
  | nil => simp [statements, Kept]
  | cons call calls ih =>
    rw [List.forall_mem_cons] at between
    cases call with
    | query commits fetch maxretry attempt =>
      obtain ⟨le, same⟩ := conn_step hconn (.query commits fetch maxretry attempt : Call R)
      have next := ih (s := (step s (.query commits fetch maxretry attempt)).2) (numbered_step h _)
        open_ le between.2 returned.2
      rw [propext same] at next
      simpa only [statements, run_cons, Kept, List.nil_append] using next
    | statement tx' fetch answers =>
      obtain rfl : tx' = tx := between.1
      obtain ⟨value, hvalue⟩ := returned.1
      have ran := ran_of_returned open_ hvalue
      have executed := step_statement open_ fetch ran
      have next := ih (s := ⟨s.db.execute conn, s.cur⟩) (h.apply (.executeOn conn)) open_ hconn
        between.2 (executed ▸ returned.2)
      have fate := durable_after_commit_iff h conn calls
      simp only [statements, run_cons, Kept, executed, open_, ran, Cursor.isOpen, and_self,
        if_true, List.singleton_append, List.forall_mem_cons]
      exact and_congr fate next
    | enter tx' turn => exact between.1.elim
    | commit tx' answer => exact between.1.elim
    | rollback tx' answer => exact between.1.elim
    | exit tx' raised rolledBack close => exact between.1.elim

/-- Whatever was done before: a transaction that is entered, whose queries all return, and whose
`commit()` returns, has made all its statements durable if and only if they were kept. -/
theorem commit_durable_iff_kept (before : List (Call R)) (tx : ℕ) (turn : ℕ → Turn)
    (calls : List (Call R)) (value : Fetched R)
    (entered : (step (run step connected before) (.enter tx turn)).1 = .ok value)
    (between : ∀ call ∈ calls, Between tx call)
    (returned : Always step StatementReturns
      (step (run step connected before) (.enter tx turn : Call R)).2 calls) :
    let s := (step (run step connected before) (.enter tx turn : Call R)).2
    (∀ n ∈ statements tx s calls,
      n ∈ (step (run step s calls) (.commit tx (.ok ()) : Call R)).2.db.durable) ↔
      Kept True calls := by
  intro s
  have numbered : Numbered s.db :=
    numbered_step (numbered_run (s := connected) numbered_start before) _
  have kept := statements_durable_iff numbered (cur_of_entered entered) (Nat.le_refl _) between
    returned
  rw [eq_self] at kept
  exact kept

theorem commit_durable_iff_kept_single :
    let calls : List (Call Unit) :=
      [.statement 0 .nothing .quiet, .query true .nothing 2 fun _ => .quiet]
    let s := (step connected (.enter 0 fun _ => ⟨.ok (), true⟩ : Call Unit)).2
    (∀ n ∈ statements 0 s calls,
      n ∈ (step (run step s calls) (.commit 0 (.ok ()) : Call Unit)).2.db.durable) ↔
      Kept True calls := by
  intro calls s
  exact commit_durable_iff_kept [] 0 (fun _ => ⟨.ok (), true⟩) calls .nothing rfl
    (by simp [calls, Between]) ⟨⟨.nothing, rfl⟩, trivial, trivial⟩

/-- A query that only reads rolls back what the transaction has executed, and `commit()` returns
all the same. -/
theorem commit_loses_statement :
    ¬ ∀ (before : List (Call Unit)) (tx : ℕ) (turn : ℕ → Turn) (calls : List (Call Unit))
      (value : Fetched Unit),
      (step (run step connected before) (.enter tx turn)).1 = .ok value →
      (∀ call ∈ calls, Between tx call) →
      Always step StatementReturns
        (step (run step connected before) (.enter tx turn : Call Unit)).2 calls →
      let s := (step (run step connected before) (.enter tx turn : Call Unit)).2
      ∀ n ∈ statements tx s calls,
        n ∈ (step (run step s calls) (.commit tx (.ok ()) : Call Unit)).2.db.durable := by
  intro all
  have durable := all [] 0 (fun _ => ⟨.ok (), true⟩)
    [.statement 0 .nothing .quiet, .query false .nothing 2 fun _ => .quiet] .nothing rfl
    (by simp [Between]) ⟨⟨.nothing, rfl⟩, trivial, trivial⟩ 0 (by decide)
  exact absurd durable (by decide)

end KhCommon.Sql
