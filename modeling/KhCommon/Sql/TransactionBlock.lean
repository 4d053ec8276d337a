import KhCommon.Sql.Transaction

/-! What a block leaves behind that ends without `commit()`. `__exit__` rolls back
when the block raised and does nothing to the connection otherwise, so after a
normal end the statements stay pending until the next query of the interface
commits or rolls back. They never become durable exactly when the block, its
exit, or whoever else uses the connection meanwhile, has first rolled them back. -/

namespace KhCommon.Sql

open Transactions Machine

variable {R : Type}

def Within (tx : ℕ) : Call R → Prop
  | .enter tx' _ => tx' ≠ tx
  | .exit tx' .. => tx' ≠ tx
  | _ => True

def Uncommitted (tx : ℕ) : Call R → Prop
  | .commit tx' _ => tx' ≠ tx
  | call => Within tx call

/-- For each statement that `tx` executes, unless the connection was replaced before it
(`same`): what first settles it is a rollback or a reconnection, and not a commit. -/
def Undone (tx : ℕ) : (same : Prop) → List (Call R) → Prop
  | _, [] => True
  | same, call :: calls =>
    (match call with
      | .statement tx' _ answers =>
        tx' = tx → answers.ran = true → same →
          ∃ e, settling (calls.flatMap Call.settles) = some e ∧ e ≠ .commit
      | _ => True) ∧ Undone tx (same ∧ .connect ∉ call.settles) calls

theorem Uncommitted.within {tx : ℕ} {call : Call R} (h : Uncommitted tx call) :
    Within tx call := by
  cases call with
  | commit tx' answer => trivial
  | _ => exact h

theorem cur_step {tx : ℕ} {call : Call R} (h : Within tx call) (s : System) :
    (step s call).2.cur tx = s.cur tx := by
  cases call with
  | enter tx' turn =>
    simp only [step, Call.cursors]
    cases ((Call.enter tx' turn : Call R).perform s).2 with
    | ok value => exact Function.update_of_ne (Ne.symm h) ..
    | error fault => rfl
  | exit tx' raised rolledBack close =>
    simp only [step, Call.cursors]
    cases ((Call.exit tx' raised rolledBack close : Call R).perform s).2 with
    | ok value => exact Function.update_of_ne (Ne.symm h) ..
    | error fault => rfl
  | _ => rfl

theorem run_within {tx conn : ℕ} {calls : List (Call R)} (within : ∀ call ∈ calls, Within tx call)
    {s : System} (hconn : conn ≤ s.db.conn) :
    (run step s calls).cur tx = s.cur tx ∧ conn ≤ (run step s calls).db.conn ∧
      (conn = (run step s calls).db.conn ↔
        conn = s.db.conn ∧ .connect ∉ calls.flatMap Call.settles) := by
  induction calls generalizing s with
  | nil => simp [hconn]
  | cons call calls ih =>
    rw [List.forall_mem_cons] at within
    obtain ⟨le, same⟩ := conn_step hconn call
    obtain ⟨cur, le', same'⟩ := ih within.2 le
    refine ⟨cur.trans (cur_step within.1 s), le', ?_⟩
    rw [run_cons, same', same, List.flatMap_cons, List.mem_append, not_or, and_assoc]

theorem never_durable_iff {n : ℕ} {s : System} (live : Live n s.db) (calls : List (Call R)) :
    (∀ later : List (Call R), n ∉ (run step (run step s calls) later).db.durable) ↔
      ∃ e, settling (calls.flatMap Call.settles) = some e ∧ e ≠ .commit := by
  have fate := live.foldl (effects s calls)
  have same := settling_effects s calls []
  rw [List.append_nil, List.append_nil] at same
  rw [same, ← run_db] at fate
  have lost : Lost n (run step s calls).db →
      ∀ later : List (Call R), n ∉ (run step (run step s calls) later).db.durable := by
    intro lost later
    rw [run_db]
    exact (lost.foldl _).unsettled
  cases hes : settling (calls.flatMap Call.settles) with
  | none =>
    rw [hes] at fate
    refine iff_of_false (fun never => ?_) (by simp)
    -- nothing has settled it when a query comes that commits
    refine never [.query true .nothing 2 fun _ => .quiet] ?_
    exact List.mem_append_right _ (Live.execute fate _).pending
  | some e =>
    rw [hes] at fate
    cases e with
    | commit => exact iff_of_false (fun never => never [] fate) (by simp)
    | execute => exact iff_of_true (lost fate) ⟨_, rfl, nofun⟩
    | executeOn conn => exact iff_of_true (lost fate) ⟨_, rfl, nofun⟩
    | rollback => exact iff_of_true (lost fate) ⟨_, rfl, nofun⟩
    | connect => exact iff_of_true (lost fate) ⟨_, rfl, nofun⟩

theorem never_durable_execute_iff {s : System} (h : Numbered s.db) (conn : ℕ)
    (calls : List (Call R)) :
    (∀ later : List (Call R), s.db.executed ∉
        (run step (run step ⟨s.db.execute conn, s.cur⟩ calls) later).db.durable) ↔
      (conn = s.db.conn →
        ∃ e, settling (calls.flatMap Call.settles) = some e ∧ e ≠ .commit) := by
  by_cases same : conn = s.db.conn
  · subst same
    rw [never_durable_iff (s := ⟨s.db.execute s.db.conn, s.cur⟩) h.live calls]
    exact ⟨fun hes _ => hes, fun hes => hes rfl⟩
  · refine iff_of_true (fun later => ?_) fun current => absurd current same
    rw [run_db, run_db]
    exact (((h.lost same).foldl _).foldl _).unsettled

theorem statements_never_durable_iff {tx conn : ℕ} {calls : List (Call R)} {s : System}
    (h : Numbered s.db) (open_ : s.cur tx = .on conn) (hconn : conn ≤ s.db.conn)
    (uncommitted : ∀ call ∈ calls, Uncommitted tx call) (raised : Bool)
    (rolledBack close : Except Fault Unit) :
    let ending := calls ++ [Call.exit tx raised rolledBack close]
    (∀ n ∈ statements tx s ending, ∀ later : List (Call R),
      n ∉ (run step (run step s ending) later).db.durable) ↔
      Undone tx (conn = s.db.conn) ending := by
  intro ending
  induction calls generalizing s with
  | nil => simp [ending, statements, Undone]
  | cons call calls ih =>
    rw [List.forall_mem_cons] at uncommitted
    obtain ⟨le, same⟩ := conn_step hconn call
    have cur : (step s call).2.cur tx = .on conn :=
      (cur_step uncommitted.1.within s).trans open_
    have next := ih (numbered_step h call) cur le uncommitted.2
    rw [propext same] at next
    simp only [ending, List.cons_append, statements, run_cons, Undone]
    cases call with
    | statement tx' fetch answers =>
      by_cases executes : tx' = tx ∧ answers.ran
      · obtain ⟨rfl, ran⟩ := executes
        have executed := step_statement open_ fetch ran
        have fate := never_durable_execute_iff h conn
          (calls ++ [Call.exit tx' raised rolledBack close])
        simp only [executed] at next ⊢
        simp only [open_, ran, Cursor.isOpen, and_self, if_true, List.cons_append,
          List.nil_append, List.forall_mem_cons, forall_const]
        exact and_congr fate next
      · have none_ : ¬(tx' = tx ∧ (s.cur tx).isOpen ∧ answers.ran) := fun h =>
          executes ⟨h.1, h.2.2⟩
        simp only [none_, if_false, List.nil_append]
        refine next.trans ⟨fun undone => ⟨fun eq ran => ?_, undone⟩, And.right⟩
        exact absurd ⟨eq, ran⟩ executes
    | _ => simpa only [List.nil_append, true_and] using next

/-- Whatever was done before: the statements of a block that come after its last `commit()` never
become durable, in no sequence of later operations, if and only if they are undone when the block
has ended. Inside the block the interface and other transactions may be used as well. -/
theorem block_never_durable_iff_undone (before : List (Call R)) (tx : ℕ) (turn : ℕ → Turn)
    (value : Fetched R)
    (entered : (step (run step connected before) (.enter tx turn)).1 = .ok value)
    (block calls : List (Call R)) (within : ∀ call ∈ block, Within tx call)
    (uncommitted : ∀ call ∈ calls, Uncommitted tx call) (raised : Bool)
    (rolledBack close : Except Fault Unit) :
    let s := run step (step (run step connected before) (.enter tx turn : Call R)).2 block
    let ending := calls ++ [Call.exit tx raised rolledBack close]
    (∀ n ∈ statements tx s ending, ∀ later : List (Call R),
      n ∉ (run step (run step s ending) later).db.durable) ↔
      Undone tx (.connect ∉ block.flatMap Call.settles) ending := by
  intro s ending
  have numbered : Numbered s.db :=
    numbered_run (numbered_step (numbered_run (s := connected) numbered_start before) _) block
  obtain ⟨cur, le, same⟩ := run_within within (Nat.le_refl _)
  have undone := statements_never_durable_iff numbered (cur.trans (cur_of_entered entered)) le
    uncommitted raised rolledBack close
  rwa [propext same, eq_self, true_and] at undone

theorem block_never_durable_iff_undone_raised :
    let s := (step connected (.enter 0 fun _ => ⟨.ok (), true⟩ : Call Unit)).2
    let ending : List (Call Unit) :=
      [.statement 0 .nothing .quiet, .exit 0 true (.ok ()) (.ok ())]
    (∀ n ∈ statements 0 s ending, ∀ later : List (Call Unit),
      n ∉ (run step (run step s ending) later).db.durable) ↔
      Undone 0 (.connect ∉ ([] : List (Call Unit)).flatMap Call.settles) ending :=
  block_never_durable_iff_undone [] 0 (fun _ => ⟨.ok (), true⟩) .nothing rfl []
    [.statement 0 .nothing .quiet] (by simp) (by simp [Uncommitted, Within]) true (.ok ()) (.ok ())

/-- After a normal end the next query that commits makes the statement durable. -/
theorem normal_exit_leaves_statement :
    ¬ ∀ (before : List (Call Unit)) (tx : ℕ) (turn : ℕ → Turn) (value : Fetched Unit),
      (step (run step connected before) (.enter tx turn)).1 = .ok value →
      ∀ block calls : List (Call Unit), (∀ call ∈ block, Within tx call) →
      (∀ call ∈ calls, Uncommitted tx call) →
      ∀ (raised : Bool) (rolledBack close : Except Fault Unit),
      let s := run step (step (run step connected before) (.enter tx turn : Call Unit)).2 block
      let ending := calls ++ [Call.exit tx raised rolledBack close]
      ∀ n ∈ statements tx s ending, ∀ later : List (Call Unit),
        n ∉ (run step (run step s ending) later).db.durable := by
  intro all
  have lost := all [] 0 (fun _ => ⟨.ok (), true⟩) .nothing rfl [] [.statement 0 .nothing .quiet]
    (by simp) (by simp [Uncommitted, Within]) false (.ok ()) (.ok ()) 0 (by decide)
    [.query true .nothing 2 fun _ => .quiet]
  exact absurd lost (by decide)

end KhCommon.Sql
