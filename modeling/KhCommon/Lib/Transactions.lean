import Mathlib.Logic.Function.Basic
import Mathlib.Data.List.Basic

/-! Connections to a database, each with one pending transaction. Statements are
numbered as they are executed. Executing adds to what a connection has pending;
`commit` and `rollback` settle what the current connection has pending, and
`connect` replaces the current connection. What becomes of a statement is decided
by the first later effect that is not an execution. -/

namespace Transactions

structure Db where
  conn : ℕ
  pending : ℕ → List ℕ
  durable : List ℕ
  executed : ℕ

inductive Effect
  | execute
  | executeOn (conn : ℕ)
  | commit
  | rollback
  | connect
  deriving DecidableEq

def start : Db := ⟨0, fun _ => [], [], 0⟩

def Db.execute (db : Db) (conn : ℕ) : Db :=
  { db with
    pending := Function.update db.pending conn (db.pending conn ++ [db.executed])
    executed := db.executed + 1 }

def apply (db : Db) : Effect → Db
  | .execute => db.execute db.conn
  | .executeOn conn => db.execute conn
  | .commit =>
    { db with
      pending := Function.update db.pending db.conn []
      durable := db.durable ++ db.pending db.conn }
  | .rollback => { db with pending := Function.update db.pending db.conn [] }
  | .connect =>
    { db with conn := db.conn + 1, pending := Function.update db.pending (db.conn + 1) [] }

def Effect.isExecute : Effect → Bool
  | .execute => true
  | .executeOn _ => true
  | _ => false

def settling (es : List Effect) : Option Effect := es.find? fun e => !e.isExecute

structure Numbered (db : Db) : Prop where
  durable : ∀ n ∈ db.durable, n < db.executed
  pending : ∀ conn, ∀ n ∈ db.pending conn, n < db.executed

structure Live (n : ℕ) (db : Db) : Prop where
  pending : n ∈ db.pending db.conn
  unsettled : n ∉ db.durable
  numbered : n < db.executed

/-- The statement is neither durable nor pending where a commit would reach it. -/
structure Lost (n : ℕ) (db : Db) : Prop where
  gone : n ∉ db.pending db.conn
  unsettled : n ∉ db.durable
  numbered : n < db.executed

theorem numbered_start : Numbered start := ⟨nofun, nofun⟩

theorem Numbered.apply {db : Db} (h : Numbered db) (e : Effect) : Numbered (apply db e) := by
  have executes : ∀ conn, Numbered (db.execute conn) := by
    refine fun conn => ⟨fun n hn => Nat.lt_succ_of_lt (h.durable n hn), fun conn' n hn => ?_⟩
    simp only [Db.execute, Function.update_apply] at hn ⊢
    split_ifs at hn
    · rcases List.mem_append.mp hn with hn | hn
      · exact Nat.lt_succ_of_lt (h.pending _ n hn)
      · rw [List.mem_singleton.mp hn]
        exact Nat.lt_succ_self _
    · exact Nat.lt_succ_of_lt (h.pending _ n hn)
  have clears : ∀ conn conn' n, n ∈ Function.update db.pending conn [] conn' → n < db.executed := by
    intro conn conn' n hn
    rw [Function.update_apply] at hn
    split_ifs at hn
    · cases hn
    · exact h.pending _ n hn
  cases e with
  | execute => exact executes _
  | executeOn conn => exact executes conn
  | commit =>
    refine ⟨fun n hn => ?_, clears _⟩
    rcases List.mem_append.mp hn with hn | hn
    · exact h.durable n hn
    · exact h.pending _ n hn
  | rollback => exact ⟨h.durable, clears _⟩
  | connect => exact ⟨h.durable, clears _⟩

theorem Numbered.foldl {db : Db} (h : Numbered db) (es : List Effect) :
    Numbered (es.foldl Transactions.apply db) := by
  induction es generalizing db with
  | nil => exact h
  | cons e es ih => exact ih (h.apply e)

theorem Numbered.live {db : Db} (h : Numbered db) : Live db.executed (db.execute db.conn) where
  pending := by simp [Db.execute]
  unsettled hn := Nat.lt_irrefl _ (h.durable _ hn)
  numbered := Nat.lt_succ_self _

theorem Numbered.lost {db : Db} (h : Numbered db) {conn : ℕ} (other : conn ≠ db.conn) :
    Lost db.executed (db.execute conn) where
  gone hn := by
    simp only [Db.execute, Function.update_of_ne (Ne.symm other)] at hn
    exact Nat.lt_irrefl _ (h.pending _ _ hn)
  unsettled hn := Nat.lt_irrefl _ (h.durable _ hn)
  numbered := Nat.lt_succ_self _

theorem lost_rollback {n : ℕ} {db : Db} (unsettled : n ∉ db.durable) (numbered : n < db.executed) :
    Lost n (apply db .rollback) :=
  ⟨by simp [apply], unsettled, numbered⟩

theorem lost_connect {n : ℕ} {db : Db} (unsettled : n ∉ db.durable) (numbered : n < db.executed) :
    Lost n (apply db .connect) :=
  ⟨by simp [apply], unsettled, numbered⟩

theorem Lost.apply {n : ℕ} {db : Db} (h : Lost n db) (e : Effect) : Lost n (apply db e) := by
  have executes : ∀ conn, Lost n (db.execute conn) := by
    refine fun conn => ⟨fun hn => ?_, h.unsettled, Nat.lt_succ_of_lt h.numbered⟩
    simp only [Db.execute, Function.update_apply] at hn
    split_ifs at hn with same
    · rcases List.mem_append.mp hn with hn | hn
      · exact h.gone (same ▸ hn)
      · exact Nat.ne_of_lt h.numbered (List.mem_singleton.mp hn)
    · exact h.gone hn
  cases e with
  | execute => exact executes _
  | executeOn conn => exact executes conn
  | commit =>
    refine ⟨by simp [Transactions.apply], fun hn => ?_, h.numbered⟩
    exact (List.mem_append.mp hn).elim h.unsettled h.gone
  | rollback => exact lost_rollback h.unsettled h.numbered
  | connect => exact lost_connect h.unsettled h.numbered

theorem Lost.foldl {n : ℕ} {db : Db} (h : Lost n db) (es : List Effect) :
    Lost n (es.foldl Transactions.apply db) := by
  induction es generalizing db with
  | nil => exact h
  | cons e es ih => exact ih (h.apply e)

theorem mem_durable_apply {n : ℕ} {db : Db} (h : n ∈ db.durable) (e : Effect) :
    n ∈ (apply db e).durable := by
  cases e with
  | commit => exact List.mem_append_left _ h
  | _ => exact h

theorem mem_durable_foldl {n : ℕ} {db : Db} (h : n ∈ db.durable) (es : List Effect) :
    n ∈ (es.foldl apply db).durable := by
  induction es generalizing db with
  | nil => exact h
  | cons e es ih => exact ih (mem_durable_apply h e)

theorem durable_foldl_of_no_commit (db : Db) {es : List Effect} (h : .commit ∉ es) :
    (es.foldl apply db).durable = db.durable := by
  induction es generalizing db with
  | nil => rfl
  | cons e es ih =>
    rw [List.mem_cons, not_or] at h
    rw [List.foldl_cons, ih _ h.2]
    cases e with
    | commit => exact absurd rfl h.1
    | _ => rfl

theorem Live.execute {n : ℕ} {db : Db} (h : Live n db) (conn : ℕ) : Live n (db.execute conn) := by
  refine ⟨?_, h.unsettled, Nat.lt_succ_of_lt h.numbered⟩
  simp only [Db.execute, Function.update_apply]
  split_ifs with same
  · exact List.mem_append_left _ (same ▸ h.pending)
  · exact h.pending

theorem Live.foldl {n : ℕ} {db : Db} (h : Live n db) (es : List Effect) :
    match settling es with
    | none => Live n (es.foldl apply db)
    | some .commit => n ∈ (es.foldl apply db).durable
    | some _ => Lost n (es.foldl apply db) := by
  induction es generalizing db with
  | nil => exact h
  | cons e es ih =>
    cases e with
    | execute => exact ih (h.execute _)
    | executeOn conn => exact ih (h.execute conn)
    | commit => exact mem_durable_foldl (List.mem_append_right _ h.pending) es
    | rollback => exact (lost_rollback h.unsettled h.numbered).foldl es
    | connect => exact (lost_connect h.unsettled h.numbered).foldl es

theorem Live.mem_durable_iff {n : ℕ} {db : Db} (h : Live n db) (es : List Effect) :
    n ∈ (es.foldl apply db).durable ↔ settling es = some .commit := by
  have fate := h.foldl es
  cases hes : settling es with
  | none =>
    rw [hes] at fate
    exact iff_of_false fate.unsettled nofun
  | some e =>
    rw [hes] at fate
    cases e with
    | commit => exact iff_of_true fate rfl
    | execute => exact iff_of_false fate.unsettled nofun
    | executeOn conn => exact iff_of_false fate.unsettled nofun
    | rollback => exact iff_of_false fate.unsettled nofun
    | connect => exact iff_of_false fate.unsettled nofun

theorem conn_foldl (db : Db) (es : List Effect) :
    db.conn ≤ (es.foldl apply db).conn ∧
      ((es.foldl apply db).conn = db.conn ↔ .connect ∉ es) := by
  induction es generalizing db with
  | nil => simp
  | cons e es ih =>
    obtain ⟨le, same⟩ := ih (apply db e)
    rw [List.foldl_cons, List.mem_cons, not_or]
    cases e with
    | connect =>
      have step : (apply db .connect).conn = db.conn + 1 := rfl
      exact ⟨by omega, iff_of_false (by omega) (by simp)⟩
    | _ => exact ⟨le, same.trans (by simp)⟩

theorem settling_append {es fs : List Effect} :
    settling (es ++ fs) = (settling es).or (settling fs) := by
  simp [settling, List.find?_append]

end Transactions
