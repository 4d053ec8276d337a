import KhCommon.Lib.Machine
import KhCommon.Lib.Transactions
import Mathlib.Data.Int.Notation

/-! `kh_common.sql`: `SqlInterface.query` and `Transaction`, from the first
connection on. All interfaces and transactions share the connection
`SqlInterface._conn`. Whether a call of the driver returns or raises is an input;
the calls that returned make up the effects of an operation, and what they do to
the database is `Transactions.apply`. Logging and timing are left out. -/

namespace KhCommon.Sql

open Transactions

/-- What is raised: psycopg2's `ConnectionException`, the `UnboundLocalError` of a `finally` that
names a cursor there is none of, or something else. -/
inductive Fault
  | connection | unboundLocal | other
  deriving DecidableEq

inductive Fetch
  | nothing | one | all

inductive Fetched (R : Type)
  | nothing
  | one (row : Option R)
  | all (rows : List R)

/-- How the driver answers during one attempt of `SqlInterface.query`: `closed` and `connects`
at its head, `prepare` for building the query and converting its parameters, `settle` for the
commit or the rollback, `reconnects` and `recover` in the handlers, `close` in the `finally`. -/
structure Attempt (R : Type) where
  closed : Bool
  connects : Bool
  prepare : Except Fault Unit
  cursor : Except Fault Unit
  execute : Except Fault Unit
  settle : Except Fault Unit
  fetchone : Except Fault (Option R)
  fetchall : Except Fault (List R)
  reconnects : Bool
  recover : Except Fault Unit
  close : Except Fault Unit

variable {R : Type}

/-- `_sql_connect`; a failure is logged only. -/
def sqlConnect (connects : Bool) : List Effect := if connects then [.connect] else []

def fetched (fetch : Fetch) (fetchone : Except Fault (Option R))
    (fetchall : Except Fault (List R)) : Except Fault (Fetched R) :=
  match fetch with
  | .one => fetchone.map .one
  | .all => fetchall.map .all
  | .nothing => .ok .nothing

def Attempt.body (a : Attempt R) (commit : Bool) (fetch : Fetch) :
    List Effect × Except Fault (Fetched R) :=
  match a.cursor, a.execute, a.settle with
  | .error fault, _, _ => ([], .error fault)
  | .ok (), .error fault, _ => ([], .error fault)
  | .ok (), .ok (), .error fault => ([.execute], .error fault)
  | .ok (), .ok (), .ok () =>
    ([.execute, if commit then .commit else .rollback], fetched fetch a.fetchone a.fetchall)

/-- The `finally`: it raises itself when there is no cursor. -/
def Attempt.final (a : Attempt R) (answer : Except Fault (Fetched R)) : Except Fault (Fetched R) :=
  match a.cursor, a.close with
  | .error _, _ => .error .unboundLocal
  | .ok (), .error fault => .error fault
  | .ok (), .ok () => answer

/-- One pass through `SqlInterface.query`; `again` is the call it makes of itself after a
`ConnectionException`, when `maxretry > 1`. -/
def Attempt.run (a : Attempt R) (commit : Bool) (fetch : Fetch)
    (again : Option (List Effect × Except Fault (Fetched R))) :
    List Effect × Except Fault (Fetched R) :=
  let opened := if a.closed then sqlConnect a.connects else []
  match a.prepare with
  | .error fault => (opened, .error fault)
  | .ok () =>
    let (done, answer) := a.body commit fetch
    let (handled, answer) : List Effect × Except Fault (Fetched R) :=
      match answer with
      | .ok value => ([], .ok value)
      | .error .connection =>
        match again with
        | some (effects, answer) => (sqlConnect a.reconnects ++ effects, answer)
        | none => ([], .error .connection)
      | .error fault =>
        match a.recover with
        | .ok () => ([.rollback], .error fault)
        | .error fault => ([], .error fault)
    (opened ++ done ++ handled, a.final answer)

def attempts (commit : Bool) (fetch : Fetch) (attempt : ℕ → Attempt R) :
    (retries : ℕ) → List Effect × Except Fault (Fetched R)
  | 0 => (attempt 0).run commit fetch none
  | retries + 1 =>
    (attempt (retries + 1)).run commit fetch (some (attempts commit fetch attempt retries))

/-- `SqlInterface.query`; `attempt n` is how the driver answers with `n` retries left. -/
def query (commit : Bool) (fetch : Fetch) (maxretry : ℤ) (attempt : ℕ → Attempt R) :
    List Effect × Except Fault (Fetched R) :=
  attempts commit fetch attempt (maxretry - 1).toNat

/-! ## Transactions -/

structure Turn where
  cursor : Except Fault Unit
  reconnects : Bool

def enterLoop (turn : ℕ → Turn) : (turns : ℕ) → List Effect × Except Fault Unit
  | 0 => ([], .error .connection)
  | turns + 1 =>
    match (turn turns).cursor with
    | .ok () => ([], .ok ())
    | .error .connection =>
      let (effects, answer) := enterLoop turn turns
      (sqlConnect (turn turns).reconnects ++ effects, answer)
    | .error fault => ([], .error fault)

def enter (turn : ℕ → Turn) : List Effect × Except Fault Unit := enterLoop turn 2

structure Statement (R : Type) where
  prepare : Except Fault Unit
  execute : Except Fault Unit
  fetchone : Except Fault (Option R)
  fetchall : Except Fault (List R)

def Statement.run (a : Statement R) (conn : ℕ) (fetch : Fetch) :
    List Effect × Except Fault (Fetched R) :=
  match a.prepare, a.execute with
  | .error fault, _ => ([], .error fault)
  | .ok (), .error fault => ([], .error fault)
  | .ok (), .ok () => ([.executeOn conn], fetched fetch a.fetchone a.fetchall)

def onConnection (effect : Effect) (answer : Except Fault Unit) :
    List Effect × Except Fault (Fetched R) :=
  match answer with
  | .ok () => ([effect], .ok .nothing)
  | .error fault => ([], .error fault)

/-! ## Operations of the interface and of its transactions -/

/-- `Transaction.cur`: `None`, a cursor on a connection, or one that has been closed. -/
inductive Cursor
  | none
  | on (conn : ℕ)
  | closed
  deriving DecidableEq

def Cursor.isOpen : Cursor → Bool
  | .on _ => true
  | _ => false

structure System where
  db : Db
  cur : ℕ → Cursor

/-- An operation, with the answers of the driver; `tx` names a transaction. -/
inductive Call (R : Type)
  | query (commit : Bool) (fetch : Fetch) (maxretry : ℤ) (attempt : ℕ → Attempt R)
  | enter (tx : ℕ) (turn : ℕ → Turn)
  | statement (tx : ℕ) (fetch : Fetch) (answers : Statement R)
  | commit (tx : ℕ) (answer : Except Fault Unit)
  | rollback (tx : ℕ) (answer : Except Fault Unit)
  | exit (tx : ℕ) (raised : Bool) (rollback close : Except Fault Unit)

def Call.perform (s : System) : Call R → List Effect × Except Fault (Fetched R)
  | .query commits fetch maxretry attempt => Sql.query commits fetch maxretry attempt
  | .enter _ turn => ((Sql.enter turn).1, (Sql.enter turn).2.map fun _ => .nothing)
  | .statement tx fetch answers =>
    match s.cur tx with
    | .on conn => answers.run conn fetch
    | _ => ([], .error .other)
  | .commit _ answer => onConnection .commit answer
  | .rollback _ answer => onConnection .rollback answer
  | .exit tx raised rolledBack close =>
    let undone : List Effect × Except Fault (Fetched R) :=
      if raised then onConnection .rollback rolledBack else ([], .ok .nothing)
    match undone.2, s.cur tx, close with
    | .error fault, _, _ => (undone.1, .error fault)
    | .ok _, .on _, .ok () => (undone.1, .ok .nothing)
    | .ok _, .on _, .error fault => (undone.1, .error fault)
    -- to close a cursor once more does nothing
    | .ok _, .closed, _ => (undone.1, .ok .nothing)
    | .ok _, .none, _ => (undone.1, .error .other)

def Call.cursors (s : System) (conn : ℕ) (call : Call R) : ℕ → Cursor :=
  match call, (call.perform s).2 with
  | .enter tx _, .ok _ => Function.update s.cur tx (.on conn)
  | .exit tx .., .ok _ => Function.update s.cur tx .closed
  | _, _ => s.cur

def step (s : System) (call : Call R) : Except Fault (Fetched R) × System :=
  let db := (call.perform s).1.foldl apply s.db
  ((call.perform s).2, ⟨db, call.cursors s db.conn⟩)

def connected : System := ⟨start, fun _ => .none⟩

end KhCommon.Sql
