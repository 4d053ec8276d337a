import KhCommon.Lib.OrderedDict
import KhCommon.Sql.Transaction

/-! `kh_common.map.Map`: a dictionary that asks the database for a key it does not hold,
over the connection that all interfaces and transactions share. A value that was found
stays, and the database is not asked for it again; a key without a row is asked for
each time. To ask is to roll back what is pending on the connection. -/

namespace KhCommon.Map

open Transactions Machine
open Sql (Attempt Call Fault Fetch Fetched Statement)

variable {K V R : Type}

inductive Exc
  | sql (fault : Fault)
  | typeError -- `data[0]` without a row

structure System (K V : Type) where
  sql : Sql.System
  held : OrderedDict K V

/-- A lookup, with the driver's answers should it ask (a row has one column), or anything else that
is done on the connection. -/
inductive Op (K V R : Type)
  | lookup (key : K) (attempt : ℕ → Attempt V)
  | other (call : Call R)

inductive Answer (V R : Type)
  | looked (result : Except Exc V)
  | other (result : Except Fault (Fetched R))

variable [DecidableEq K]

def missing (s : System K V) (key : K) (attempt : ℕ → Attempt V) : Except Exc V × System K V :=
  let (data, sql) := Sql.step s.sql (.query false .one 2 attempt)
  match data with
  | .ok (.one (some value)) => (.ok value, ⟨sql, s.held.assign key value⟩)
  | .ok _ => (.error .typeError, { s with sql := sql })
  | .error fault => (.error (.sql fault), { s with sql := sql })

def getitem (s : System K V) (key : K) (attempt : ℕ → Attempt V) : Except Exc V × System K V :=
  match s.held.get? key with
  | some value => (.ok value, s)
  | none => missing s key attempt

def step (s : System K V) : Op K V R → Answer V R × System K V
  | .lookup key attempt =>
    let (result, s) := getitem s key attempt
    (.looked result, s)
  | .other call =>
    let (result, sql) := Sql.step s.sql call
    (.other result, { s with sql := sql })

def start : System K V := ⟨Sql.connected, ∅⟩

def finds (key : K) : Op K V R × Answer V R → Option V
  | (.lookup key' _, .looked (.ok value)) => if key' = key then some value else none
  | _ => none

def found (key : K) (trace : List (Op K V R × Answer V R)) : Option V := trace.findSome? (finds key)

/-! ## What is held -/

theorem held_getitem (s : System K V) (key key' : K) (attempt : ℕ → Attempt V) :
    (getitem s key' attempt).2.held.get? key = (s.held.get? key).or
      (finds key ((.lookup key' attempt : Op K V R), .looked (getitem s key' attempt).1)) := by
  unfold getitem
  cases hit : s.held.get? key' with
  | some value =>
    by_cases same : key' = key
    · rw [← same, hit]
      rfl
    · simp [finds, same]
  | none =>
    dsimp only [missing]
    rcases (Sql.step s.sql (.query false .one 2 attempt)).1 with fault | fetched
    · simp [finds]
    · rcases fetched with _ | ⟨_ | value⟩ | rows
      · simp [finds]
      · simp [finds]
      · by_cases same : key' = key
        · subst same
          simp [finds, hit]
        · simp [finds, same, OrderedDict.get?_assign_of_ne _ (Ne.symm same)]
      · simp [finds]

theorem held_run (s : System K V) (ops : List (Op K V R)) (key : K) :
    (run step s ops).held.get? key =
      (s.held.get? key).or (found key (ops.zip (outputs step s ops))) := by
  induction ops generalizing s with
  | nil => simp [found]
  | cons op ops ih =>
    have now : (step s op).2.held.get? key =
        (s.held.get? key).or (finds key (op, (step s op).1)) := by
      cases op with
      | lookup key' attempt => exact held_getitem s key key' attempt
      | other call => simp [step, finds]
    rw [run_cons, ih, now, outputs, List.zip_cons_cons, found, found, List.findSome?_cons,
      Option.or_assoc]
    cases finds key (op, (step s op).1) <;> rfl

/-! ## What a lookup does to a transaction -/

structure RollsBack (done : List Effect × Except Fault (Fetched V)) : Prop where
  uncommitted : .commit ∉ done.1
  returns : ∀ value, done.2 = .ok value → .rollback ∈ done.1

theorem body_rollsBack (a : Attempt V) (fetch : Fetch) : RollsBack (a.body false fetch) := by
  unfold Attempt.body
  cases a.cursor with
  | error fault => exact ⟨by simp, nofun⟩
  | ok _ =>
    cases a.execute with
    | error fault => exact ⟨by simp, nofun⟩
    | ok _ =>
      cases a.settle with
      | error fault => exact ⟨by simp, nofun⟩
      | ok _ => exact ⟨by simp, by simp⟩

theorem sqlConnect_uncommitted (connects : Bool) : .commit ∉ Sql.sqlConnect connects := by
  cases connects <;> simp [Sql.sqlConnect]

theorem ok_of_final {a : Attempt V} {answer : Except Fault (Fetched V)} {value : Fetched V}
    (h : a.final answer = .ok value) : answer = .ok value := by
  unfold Attempt.final at h
  split at h
  · cases h
  · cases h
  · exact h

theorem run_rollsBack (a : Attempt V) (fetch : Fetch)
    {again : Option (List Effect × Except Fault (Fetched V))}
    (later : ∀ rest ∈ again, RollsBack rest) : RollsBack (a.run false fetch again) := by
  have opens : .commit ∉ if a.closed then Sql.sqlConnect a.connects else [] := by
    split_ifs
    · exact sqlConnect_uncommitted _
    · simp
  have body := body_rollsBack a fetch
  rcases hprepare : a.prepare with fault | ⟨⟩
  · simp only [Attempt.run, hprepare]
    exact ⟨opens, nofun⟩
  rcases hbody : a.body false fetch with ⟨done, fault | value⟩
  · rw [hbody] at body
    have raises {es : List Effect} (uncommitted : .commit ∉ es) (fault : Fault) :
        RollsBack (es, a.final (.error fault)) :=
      ⟨uncommitted, fun value returned => nomatch ok_of_final returned⟩
    -- the handlers
    cases fault with
    | connection =>
      cases again with
      | none =>
        simp only [Attempt.run, hprepare, hbody]
        exact raises (by simp [opens, body.uncommitted]) _
      | some rest =>
        have rest_rollsBack := later rest rfl
        simp only [Attempt.run, hprepare, hbody]
        refine ⟨by simp [opens, body.uncommitted, sqlConnect_uncommitted,
          rest_rollsBack.uncommitted], fun value returned => ?_⟩
        simp [rest_rollsBack.returns value (ok_of_final returned)]
    | unboundLocal | other =>
      simp only [Attempt.run, hprepare, hbody]
      cases a.recover with
      | error fault =>
        exact raises (by simp [opens, body.uncommitted]) _
      | ok _ =>
        exact raises (by simp [opens, body.uncommitted]) _
  · rw [hbody] at body
    simp only [Attempt.run, hprepare, hbody, List.append_nil]
    refine ⟨by simp [opens, body.uncommitted], fun value' returned => ?_⟩
    exact List.mem_append_right _ (body.returns value rfl)

theorem query_rollsBack (fetch : Fetch) (maxretry : ℤ) (attempt : ℕ → Attempt V) :
    RollsBack (Sql.query false fetch maxretry attempt) := by
  unfold Sql.query
  generalize (maxretry - 1).toNat = retries
  induction retries with
  | zero => exact run_rollsBack _ fetch nofun
  | succ retries ih =>
    refine run_rollsBack _ fetch ?_
    rintro rest ⟨⟩
    exact ih

theorem RollsBack.lost {done : List Effect × Except Fault (Fetched V)} (h : RollsBack done)
    {value : Fetched V} (returned : done.2 = .ok value) {n : ℕ} {db : Db} (live : Live n db) :
    Lost n (done.1.foldl apply db) := by
  have settled : (settling done.1).isSome :=
    List.find?_isSome.mpr ⟨.rollback, h.returns value returned, rfl⟩
  obtain ⟨e, he⟩ := Option.isSome_iff_exists.mp settled
  have fate := live.foldl done.1
  rw [he] at fate
  cases e with
  | commit => exact absurd (List.mem_of_find?_eq_some he) h.uncommitted
  | _ => exact fate

def Looked : Answer V R → Prop
  | .looked (.error (.sql _)) => False
  | _ => True

variable {s : System K V} {n : ℕ} {key : K} {attempt : ℕ → Attempt V}

theorem getitem_held {value : V} (hit : s.held.get? key = some value) :
    getitem s key attempt = (.ok value, s) := by
  simp only [getitem, hit]

theorem lost_getitem (live : Live n s.sql.db) (miss : s.held.get? key = none)
    (looked : Looked (.looked (getitem s key attempt).1 : Answer V R)) :
    Lost n (getitem s key attempt).2.sql.db := by
  have lost {value : Fetched V} (returned : (Sql.query false .one 2 attempt).2 = .ok value) :
      Lost n (Sql.step s.sql (.query false .one 2 attempt)).2.db :=
    (query_rollsBack .one 2 attempt).lost returned live
  simp only [getitem, miss, missing] at looked ⊢
  cases result : (Sql.step s.sql (.query false .one 2 attempt)).1 with
  | error fault =>
    rw [result] at looked
    exact looked.elim
  | ok value =>
    rcases value with _ | ⟨_ | value⟩ | rows <;> exact lost result

theorem db_step (s : System K V) (op : Op K V R) :
    ∃ es : List Effect, (step s op).2.sql.db = es.foldl apply s.sql.db := by
  cases op with
  | other call => exact ⟨(call.perform s.sql).1, rfl⟩
  | lookup key attempt =>
    simp only [step, getitem]
    cases s.held.get? key with
    | some value => exact ⟨[], rfl⟩
    | none =>
      refine ⟨(Sql.query false .one 2 attempt).1, ?_⟩
      dsimp only [missing]
      rcases (Sql.step s.sql (.query false .one 2 attempt)).1 with fault | (_ | ⟨_ | value⟩ | rows)
      all_goals rfl

theorem lost_run (ops : List (Op K V R)) (lost : Lost n s.sql.db) :
    Lost n (run step s ops).sql.db := by
  induction ops generalizing s with
  | nil => exact lost
  | cons op ops ih =>
    obtain ⟨es, after⟩ := db_step s op
    exact ih (after ▸ lost.foldl es)

theorem numbered_run (h : Numbered s.sql.db) (ops : List (Op K V R)) :
    Numbered (run step s ops).sql.db := by
  induction ops generalizing s with
  | nil => exact h
  | cons op ops ih =>
    obtain ⟨es, after⟩ := db_step s op
    exact ih (after ▸ h.foldl es)

theorem durable_after_lookups_iff (live : Live n s.sql.db)
    (lookups : List (K × (ℕ → Attempt V)))
    (looked : ∀ answer ∈ outputs (step (R := R)) s (lookups.map fun l => .lookup l.1 l.2),
      Looked answer) :
    n ∈ (apply (run (step (R := R)) s (lookups.map fun l => .lookup l.1 l.2)).sql.db
        .commit).durable ↔
      ∀ l ∈ lookups, l.1 ∈ s.held := by
  induction lookups generalizing s with
  | nil => exact iff_of_true (List.mem_append_right _ live.pending) nofun
  | cons l lookups ih =>
    rw [List.map_cons, outputs, List.forall_mem_cons] at looked
    rw [List.map_cons, run_cons, List.forall_mem_cons]
    cases held : s.held.get? l.1 with
    | some value =>
      have same : (step (R := R) s (.lookup l.1 l.2)).2 = s := by
        simp only [step, getitem_held held]
      rw [same] at looked ⊢
      rw [and_iff_right (OrderedDict.mem_iff_get?.mpr ⟨value, held⟩)]
      exact ih live looked.2
    | none =>
      refine iff_of_false ?_ fun all => OrderedDict.get?_eq_none_iff.mp held all.1
      exact ((lost_run _ (lost_getitem live held looked.1)).apply .commit).unsettled

/-- Whatever was done before: a transaction whose cursor is on the connection executes a statement,
looks keys up, none of which fails otherwise than for want of a row, and commits. Its statement is
durable if and only if each of these keys had been found before. -/
theorem commit_durable_iff_found (before : List (Op K V R)) (tx : ℕ) (fetch : Fetch)
    {answers : Statement R} (ran : answers.ran = true) (lookups : List (K × (ℕ → Attempt V)))
    (opened : (run step start before).sql.cur tx = .on (run step start before).sql.db.conn) :
    let s := run step start before
    let executed := (step s (.other (.statement tx fetch answers))).2
    let ops := lookups.map fun l => (.lookup l.1 l.2 : Op K V R)
    (∀ answer ∈ outputs step executed ops, Looked answer) →
      (s.sql.db.executed ∈ (step (run step executed ops)
          (.other (.commit tx (.ok ())) : Op K V R)).2.sql.db.durable ↔
        ∀ l ∈ lookups, (found l.1 (before.zip (outputs step start before))).isSome) := by
  intro s executed ops looked
  have numbered : Numbered s.sql.db := numbered_run numbered_start before
  have pending : executed = ⟨⟨s.sql.db.execute s.sql.db.conn, s.sql.cur⟩, s.held⟩ := by
    have executes := Sql.step_statement opened fetch ran
    change (⟨(Sql.step s.sql (.statement tx fetch answers)).2, s.held⟩ : System K V) = _
    rw [executes]
  have live : Live s.sql.db.executed executed.sql.db := by
    rw [pending]
    exact numbered.live
  have held (key : K) : key ∈ executed.held ↔
      (found key (before.zip (outputs step start before))).isSome := by
    rw [pending, OrderedDict.mem_iff_get?, held_run start before key, Option.isSome_iff_exists]
    simp [start]
  have durable := durable_after_lookups_iff live lookups looked
  simp only [held] at durable
  exact durable

theorem commit_durable_iff_found_two :
    let row : ℕ → Attempt ℕ := fun _ => { Attempt.quiet with fetchone := .ok (some 7) }
    let before : List (Op String ℕ Unit) :=
      [.lookup "tag" row, .other (.enter 0 fun _ => ⟨.ok (), true⟩)]
    let s := run step start before
    let executed := (step s (.other (.statement 0 .nothing .quiet) : Op String ℕ Unit)).2
    let commit : Op String ℕ Unit := .other (.commit 0 (.ok ()))
    let known : List (Op String ℕ Unit) := [.lookup "tag" row]
    let new : List (Op String ℕ Unit) := [.lookup "tag" row, .lookup "user" row]
    1 ∈ (step (run step executed known) commit).2.sql.db.durable ∧
      1 ∉ (step (run step executed new) commit).2.sql.db.durable := by
  intro row before s executed commit known new
  have one : ∀ answer ∈ outputs step executed known, Looked answer := by
    change ∀ answer ∈ [(.looked (.ok 7) : Answer ℕ Unit)], Looked answer
    simp [Looked]
  have two : ∀ answer ∈ outputs step executed new, Looked answer := by
    change ∀ answer ∈ [(.looked (.ok 7) : Answer ℕ Unit), .looked (.ok 7)], Looked answer
    simp [Looked]
  refine ⟨(commit_durable_iff_found before 0 .nothing rfl [("tag", row)] rfl one).mpr (by decide),
    fun durable => ?_⟩
  have all := (commit_durable_iff_found before 0 .nothing rfl [("tag", row), ("user", row)] rfl
    two).mp durable
  exact absurd all (by decide)

end KhCommon.Map
