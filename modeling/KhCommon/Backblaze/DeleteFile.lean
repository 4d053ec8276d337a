import KhCommon.Backblaze.FileInfo
import Mathlib.Data.List.Sort
import Mathlib.Order.Basic

/-! `b2_delete_file_async` over a server with a bucket: one listing of at most five
versions, and for each one of the file some tries to delete it. What no try deletes is
only logged, and what is listed behind the five is never seen, so the answer True says
that something was deleted, not that nothing is left. -/

namespace KhCommon.Backblaze

variable {Name : Type*} [LinearOrder Name]

/-- What the server keeps: versions in the order of their names, each with its own id. -/
structure Bucket (Name : Type*) [LinearOrder Name] where
  versions : List (Version Name)
  sorted : versions.Pairwise fun v w => v.fileName ≤ w.fileName
  distinct : (versions.map Version.fileId).Nodup

namespace Bucket

def listFileVersions (bucket : Bucket Name) (startFileName : Name) (maxFileCount : ℕ) :
    List (Version Name) :=
  (bucket.versions.filter fun v => startFileName ≤ v.fileName).take maxFileCount

/-- `b2_delete_file_version`, when it succeeds. -/
def deleteFileVersion (bucket : Bucket Name) (fileId : ℕ) : Bucket Name where
  versions := bucket.versions.filter fun v => v.fileId ≠ fileId
  sorted := bucket.sorted.filter _
  distinct := bucket.distinct.sublist (List.filter_sublist.map Version.fileId)

def versionsOf (bucket : Bucket Name) (filename : Name) : List (Version Name) :=
  bucket.versions.filter fun v => v.fileName = filename

variable {bucket : Bucket Name} {filename : Name} {v w : Version Name}

theorem eq_of_fileId (hv : v ∈ bucket.versions) (hw : w ∈ bucket.versions)
    (same : v.fileId = w.fileId) : v = w :=
  List.inj_on_of_nodup_map bucket.distinct hv hw same

theorem nodup_versionsOf (bucket : Bucket Name) (filename : Name) :
    (bucket.versionsOf filename).Nodup :=
  (List.Nodup.of_map _ bucket.distinct).filter _

theorem mem_versionsOf : v ∈ bucket.versionsOf filename ↔
    v ∈ bucket.versions ∧ v.fileName = filename := by
  simp [versionsOf]

theorem filter_le_of_sorted {versions : List (Version Name)}
    (sorted : versions.Pairwise fun v w => v.fileName ≤ w.fileName) (filename : Name) :
    versions.filter (fun v => filename ≤ v.fileName) =
      versions.filter (fun v => v.fileName = filename) ++
        versions.filter fun v => filename < v.fileName := by
  induction versions with
  | nil => rfl
  | cons v versions ih =>
    rw [List.pairwise_cons] at sorted
    rcases lt_trichotomy v.fileName filename with lt | same | gt
    · simp [lt.not_ge, lt.ne, lt.asymm, ih sorted.2]
    · simp [same, ih sorted.2]
    · have none : versions.filter (fun w => w.fileName = filename) = [] := by
        rw [List.filter_eq_nil_iff]
        intro w hw named
        rw [decide_eq_true_eq] at named
        exact absurd (sorted.1 w hw) (by simp [named, gt])
      have rest := ih sorted.2
      rw [none, List.nil_append] at rest
      simp [gt, gt.le, gt.ne', none, rest]

theorem getElem?_listFileVersions (bucket : Bucket Name) (filename : Name) (count i : ℕ)
    (v : Version Name) :
    (bucket.listFileVersions filename count)[i]? = some v ∧ v.fileName = filename ↔
      i < count ∧ (bucket.versionsOf filename)[i]? = some v := by
  rw [listFileVersions, filter_le_of_sorted bucket.sorted, List.getElem?_take,
    List.getElem?_append, versionsOf]
  split_ifs with inside front
  · refine ⟨fun h => ⟨inside, h.1⟩, fun h => ⟨h.2, ?_⟩⟩
    simpa using (List.mem_filter.mp (List.mem_of_getElem? h.2)).2
  · refine iff_of_false (fun h => ?_) fun h => ?_
    · have later := (List.mem_filter.mp (List.mem_of_getElem? h.1)).2
      rw [h.2, decide_eq_true_eq] at later
      exact lt_irrefl _ later
    · exact front (List.getElem?_eq_some_iff.mp h.2).1
  · exact iff_of_false nofun fun h => inside h.1

end Bucket

inductive ListRequest
  | raises
  | unauthorized
  | refused
  | answered
  deriving DecidableEq

/-- What comes of the requests: of the `i`-th one for a listing, of those for an authorization after
it, and whether the `k`-th one to delete the `j`-th listed version succeeds. -/
structure Requests where
  list : ℕ → ListRequest
  authorize : ℕ → ℕ → Reply
  delete : ℕ → ℕ → Bool

end KhCommon.Backblaze

namespace KhCommon.B2Interface

open Attempts Backblaze

variable {Name : Type*} [LinearOrder Name] (self : B2Interface) (requests : Requests)
  (bucket : Bucket Name) (filename : Name)

/-! ## The listing -/

def listAttempt (i : ℕ) (account : Account) : Attempt Account (List (Version Name) × Account) :=
  match requests.list i with
  | .raises => .again account
  | .unauthorized => .again (self.b2Authorize (requests.authorize i) account).2
  | .refused => .again account
  | .answered => .done (bucket.listFileVersions filename 5, account)

/-! ## The deletions -/

structure Deleting (Name : Type*) [LinearOrder Name] where
  bucket : Bucket Name
  deletes : ℕ := 0

def Deleting.delete (s : Deleting Name) (file : Version Name) : Deleting Name :=
  ⟨s.bucket.deleteFileVersion file.fileId, s.deletes + 1⟩

def deleteVersion (j : ℕ) (file : Version Name) (s : Deleting Name) : Deleting Name :=
  let attempt (k : ℕ) (s : Deleting Name) : Attempt (Deleting Name) (Deleting Name) :=
    if requests.delete j k then .done (s.delete file) else .again s
  match loop attempt self.b2MaxRetries 0 s with
  | .done s => s
  | .again s => s

/-- `for file in files`, from the `j`-th one on. -/
def deleteVersions : (j : ℕ) → (files : List (Version Name)) → Deleting Name → Deleting Name
  | _, [], s => s
  | j, file :: files, s =>
    deleteVersions (j + 1) files
      (if file.fileName ≠ filename then s else self.deleteVersion requests j file s)

/-- The answer, the account and the bucket; `assert files` fails without a listing and for an empty
one. -/
def b2DeleteFileAsync (account : Account) : Except Fault Bool × Account × Bucket Name :=
  match loop (self.listAttempt requests bucket filename) self.b2MaxRetries 0 account with
  | .again account => (.error .assertionError, account, bucket)
  | .done (files, account) =>
    if files = [] then (.error .assertionError, account, bucket) else
      let s := self.deleteVersions requests filename 0 files { bucket }
      (.ok (s.deletes ≠ 0), account, s.bucket)

/-! ## What is deleted -/

variable {self requests bucket filename} {account : Account} {j : ℕ} {s : Deleting Name}
  {files : List (Version Name)}

def Deletable (self : B2Interface) (requests : Requests) (j : ℕ) : Prop :=
  ∃ k < self.b2MaxRetries, requests.delete j k

theorem deleteVersion_of_deletable (h : self.Deletable requests j) (file : Version Name)
    (s : Deleting Name) : self.deleteVersion requests j file s = s.delete file := by
  obtain ⟨k, inside, hk⟩ := h
  rw [deleteVersion, loop_until_of_exists ⟨k, inside, by rwa [Nat.zero_add]⟩]

theorem deleteVersion_of_not_deletable (h : ¬self.Deletable requests j) (file : Version Name)
    (s : Deleting Name) : self.deleteVersion requests j file s = s := by
  rw [deleteVersion, loop_until_of_forall]
  intro k inside hk
  exact h ⟨k, inside, by rwa [Nat.zero_add] at hk⟩

def Deleted (self : B2Interface) (requests : Requests) (filename : Name) (j : ℕ)
    (files : List (Version Name)) (file : Version Name) : Prop :=
  ∃ i, files[i]? = some file ∧ file.fileName = filename ∧ self.Deletable requests (j + i)

omit [LinearOrder Name] in
theorem not_deleted_nil (file : Version Name) : ¬self.Deleted requests filename j [] file := by
  rintro ⟨i, listed, -⟩
  cases listed

omit [LinearOrder Name] in
theorem deleted_cons_iff {first file : Version Name} :
    self.Deleted requests filename j (first :: files) file ↔
      (file = first ∧ first.fileName = filename ∧ self.Deletable requests j) ∨
        self.Deleted requests filename (j + 1) files file := by
  constructor
  · rintro ⟨i, listed, named, deletable⟩
    cases i with
    | zero =>
      cases listed
      exact .inl ⟨rfl, named, deletable⟩
    | succ i => exact .inr ⟨i, listed, named, by rwa [Nat.add_right_comm]⟩
  · rintro (⟨rfl, named, deletable⟩ | ⟨i, listed, named, deletable⟩)
    · exact ⟨0, rfl, named, deletable⟩
    · exact ⟨i + 1, listed, named, by rwa [Nat.add_right_comm] at deletable⟩

theorem deleteVersions_cons (self : B2Interface) (requests : Requests) (filename : Name) (j : ℕ)
    (file : Version Name) (files : List (Version Name)) (s : Deleting Name) :
    (file.fileName = filename ∧ self.Deletable requests j ∧
      self.deleteVersions requests filename j (file :: files) s =
        self.deleteVersions requests filename (j + 1) files (s.delete file)) ∨
    (¬(file.fileName = filename ∧ self.Deletable requests j) ∧
      self.deleteVersions requests filename j (file :: files) s =
        self.deleteVersions requests filename (j + 1) files s) := by
  rw [deleteVersions]
  by_cases named : file.fileName = filename
  · rw [if_neg (not_not_intro named)]
    by_cases deletable : self.Deletable requests j
    · exact .inl ⟨named, deletable, by rw [deleteVersion_of_deletable deletable]⟩
    · exact .inr ⟨fun both => deletable both.2, by rw [deleteVersion_of_not_deletable deletable]⟩
  · exact .inr ⟨fun both => named both.1, by rw [if_pos named]⟩

theorem mem_deleteVersions {v : Version Name} :
    v ∈ (self.deleteVersions requests filename j files s).bucket.versions ↔
      v ∈ s.bucket.versions ∧
        ∀ file, self.Deleted requests filename j files file → v.fileId ≠ file.fileId := by
  induction files generalizing j s with
  | nil => simp [deleteVersions, not_deleted_nil]
  | cons first files ih =>
    simp only [deleted_cons_iff]
    rcases self.deleteVersions_cons requests filename j first files s with
      ⟨named, deletable, run⟩ | ⟨kept, run⟩
    · have deletes : v ∈ (s.delete first).bucket.versions ↔
          v ∈ s.bucket.versions ∧ v.fileId ≠ first.fileId := by
        simp [Deleting.delete, Bucket.deleteFileVersion]
      rw [run, ih, deletes, and_assoc]
      simp [named, deletable, or_imp, forall_and]
    · rw [run, ih]
      simp [kept]

theorem deletes_deleteVersions : (self.deleteVersions requests filename j files s).deletes ≠ 0 ↔
    s.deletes ≠ 0 ∨ ∃ file, self.Deleted requests filename j files file := by
  induction files generalizing j s with
  | nil => simp [deleteVersions, not_deleted_nil]
  | cons first files ih =>
    simp only [deleted_cons_iff]
    rcases self.deleteVersions_cons requests filename j first files s with
      ⟨named, deletable, run⟩ | ⟨kept, run⟩
    · rw [run, ih]
      simp [named, deletable, Deleting.delete]
    · rw [run, ih]
      simp [kept]

/-! ## The whole call -/

def Listed (self : B2Interface) (requests : Requests) : Prop :=
  ∃ i < self.b2MaxRetries, requests.list i = .answered

theorem reads_list (self : B2Interface) (requests : Requests) (bucket : Bucket Name)
    (filename : Name) :
    Reads (self.listAttempt requests bucket filename)
      (fun i => if requests.list i = .answered then some (bucket.listFileVersions filename 5)
        else none) Prod.fst (fun _ => (none : Option Unit)) fun _ => () := by
  refine .of_attempt fun i account => ?_
  simp only [listAttempt]
  cases requests.list i with
  | answered => rfl
  | _ => exact ⟨rfl, trivial⟩

theorem b2DeleteFileAsync_cases (self : B2Interface) (requests : Requests) (bucket : Bucket Name)
    (filename : Name) (account : Account) :
    let result := self.b2DeleteFileAsync requests bucket filename account
    let s := self.deleteVersions requests filename 0 (bucket.listFileVersions filename 5) { bucket }
    (self.Listed requests ∧ result.1 = .ok (s.deletes ≠ 0) ∧ result.2.2 = s.bucket) ∨
    (result.1 = .error .assertionError ∧ result.2.2 = bucket ∧
      (self.Listed requests → bucket.listFileVersions filename 5 = [])) := by
  intro result s
  have run := (reads_list self requests bucket filename).loop self.b2MaxRetries account
  have unfolded : result = self.b2DeleteFileAsync requests bucket filename account := rfl
  rw [b2DeleteFileAsync] at unfolded
  cases ended : loop (self.listAttempt requests bucket filename) self.b2MaxRetries 0 account with
  | again account' =>
    rw [ended] at run unfolded
    refine .inr ⟨by rw [unfolded], by rw [unfolded], fun ⟨i, inside, answered⟩ => ?_⟩
    have none := run.1 i inside
    simp [answered] at none
  | done listing =>
    obtain ⟨files, account'⟩ := listing
    rw [ended] at run unfolded
    obtain ⟨i, inside, ends, -⟩ := run
    dsimp only at ends unfolded
    split_ifs at ends with answered
    cases ends
    by_cases empty : bucket.listFileVersions filename 5 = []
    · rw [if_pos empty] at unfolded
      exact .inr ⟨by rw [unfolded], by rw [unfolded], fun _ => empty⟩
    · rw [if_neg empty] at unfolded
      exact .inl ⟨⟨i, inside, answered⟩, by rw [unfolded], by rw [unfolded]⟩

theorem deleted_listed_iff {file : Version Name} :
    self.Deleted requests filename 0 (bucket.listFileVersions filename 5) file ↔
      ∃ j < 5, (bucket.versionsOf filename)[j]? = some file ∧ self.Deletable requests j := by
  constructor
  · rintro ⟨i, listed, named, deletable⟩
    obtain ⟨inside, there⟩ :=
      (bucket.getElem?_listFileVersions filename 5 i file).mp ⟨listed, named⟩
    exact ⟨i, inside, there, by rwa [Nat.zero_add] at deletable⟩
  · rintro ⟨j, inside, there, deletable⟩
    obtain ⟨listed, named⟩ :=
      (bucket.getElem?_listFileVersions filename 5 j file).mpr ⟨inside, there⟩
    exact ⟨j, listed, named, by rwa [Nat.zero_add]⟩

theorem exists_deleted_listed_iff :
    (∃ file, self.Deleted requests filename 0 (bucket.listFileVersions filename 5) file) ↔
      ∃ j < 5, j < (bucket.versionsOf filename).length ∧ self.Deletable requests j := by
  simp only [deleted_listed_iff]
  constructor
  · rintro ⟨file, j, inside, there, deletable⟩
    exact ⟨j, inside, (List.getElem?_eq_some_iff.mp there).1, deletable⟩
  · rintro ⟨j, inside, short, deletable⟩
    exact ⟨_, j, inside, List.getElem?_eq_getElem short, deletable⟩

theorem deletable_of_gone {j : ℕ} (inside : j < (bucket.versionsOf filename).length)
    (gone : (bucket.versionsOf filename)[j] ∉ (self.deleteVersions requests filename 0
      (bucket.listFileVersions filename 5) { bucket }).bucket.versions) :
    j < 5 ∧ self.Deletable requests j := by
  obtain ⟨mem, -⟩ := Bucket.mem_versionsOf.mp (List.getElem_mem inside)
  rw [mem_deleteVersions, not_and] at gone
  have deleted := gone mem
  push Not at deleted
  obtain ⟨file, deleted, id⟩ := deleted
  obtain ⟨i, first, there, deletable⟩ := deleted_listed_iff.mp deleted
  obtain ⟨listed, -⟩ := Bucket.mem_versionsOf.mp (List.mem_of_getElem? there)
  obtain ⟨short, there⟩ := List.getElem?_eq_some_iff.mp there
  have index : i = j := (bucket.nodup_versionsOf filename).getElem_inj_iff.mp
    (there.trans (Bucket.eq_of_fileId mem listed id).symm)
  exact index ▸ ⟨first, deletable⟩

/-- Nothing else is removed, and after the answer True nothing of the file is left. -/
structure DeletesFile (bucket : Bucket Name) (filename : Name)
    (result : Except Fault Bool × Account × Bucket Name) : Prop where
  keeps : ∀ v ∈ bucket.versions, v.fileName ≠ filename → v ∈ result.2.2.versions
  complete : result.1 = .ok true → ∀ v ∈ result.2.2.versions, v.fileName ≠ filename

theorem b2DeleteFileAsync_keeps (self : B2Interface) (requests : Requests) (bucket : Bucket Name)
    (filename : Name) (account : Account) {v : Version Name} (mem : v ∈ bucket.versions)
    (other : v.fileName ≠ filename) :
    v ∈ (self.b2DeleteFileAsync requests bucket filename account).2.2.versions := by
  rcases self.b2DeleteFileAsync_cases requests bucket filename account with
    ⟨-, -, after⟩ | ⟨-, after, -⟩
  · rw [after, mem_deleteVersions]
    refine ⟨mem, fun file deleted same => other ?_⟩
    obtain ⟨j, -, there, -⟩ := deleted_listed_iff.mp deleted
    obtain ⟨listed, named⟩ := Bucket.mem_versionsOf.mp (List.mem_of_getElem? there)
    rw [Bucket.eq_of_fileId mem listed same, named]
  · rwa [after]

/-- The call deletes the file, all of it and nothing else, exactly if no listing is obtained, or
none of its first five versions can be deleted, or it has at most five and all can. -/
theorem b2DeleteFileAsync_deletesFile_iff (self : B2Interface) (requests : Requests)
    (bucket : Bucket Name) (filename : Name) (account : Account) :
    DeletesFile bucket filename (self.b2DeleteFileAsync requests bucket filename account) ↔
      (self.Listed requests →
        (∃ j < 5, j < (bucket.versionsOf filename).length ∧ self.Deletable requests j) →
        (bucket.versionsOf filename).length ≤ 5 ∧
          ∀ j < (bucket.versionsOf filename).length, self.Deletable requests j) := by
  have run := self.b2DeleteFileAsync_cases requests bucket filename account
  set result := self.b2DeleteFileAsync requests bucket filename account
  constructor
  · intro deletes listed some
    rcases run with ⟨-, answer, after⟩ | ⟨-, -, empty⟩
    · have true : result.1 = .ok true := by
        rw [answer, decide_eq_true (deletes_deleteVersions.mpr
          (.inr (exists_deleted_listed_iff.mpr some)))]
      have all : ∀ j < (bucket.versionsOf filename).length, j < 5 ∧ self.Deletable requests j := by
        refine fun j inside => deletable_of_gone inside fun left => ?_
        obtain ⟨-, same⟩ := Bucket.mem_versionsOf.mp (List.getElem_mem inside)
        exact deletes.complete true _ (after ▸ left) same
      refine ⟨?_, fun j inside => (all j inside).2⟩
      by_contra more
      exact absurd (all 5 (by omega)).1 (by omega)
    · obtain ⟨file, i, there, -⟩ := exists_deleted_listed_iff.mpr some
      rw [empty listed] at there
      cases there
  · intro condition
    refine ⟨fun v mem other => self.b2DeleteFileAsync_keeps _ _ _ _ mem other,
      fun true v mem same => ?_⟩
    rcases run with ⟨listed, answer, after⟩ | ⟨answer, -, -⟩
    · rw [answer, Except.ok.injEq, decide_eq_true_eq, deletes_deleteVersions] at true
      have some := exists_deleted_listed_iff.mp (true.resolve_left fun started => started rfl)
      obtain ⟨few, all⟩ := condition listed some
      rw [after, mem_deleteVersions] at mem
      obtain ⟨j, there⟩ := List.mem_iff_getElem?.mp (Bucket.mem_versionsOf.mpr ⟨mem.1, same⟩)
      have inside := (List.getElem?_eq_some_iff.mp there).1
      have deleted := deleted_listed_iff.mpr ⟨j, inside.trans_le few, there, all j inside⟩
      exact mem.2 v deleted rfl
    · rw [answer] at true
      cases true

/-- Two versions, of which the second one cannot be deleted. -/
theorem b2DeleteFileAsync_leaves :
    ¬ ∀ (self : B2Interface) (requests : Requests) (bucket : Bucket ℕ) (filename : ℕ)
      (account : Account), DeletesFile bucket filename
        (self.b2DeleteFileAsync requests bucket filename account) := by
  intro all
  let bucket : Bucket ℕ := ⟨[⟨0, 0⟩, ⟨0, 1⟩], by decide, by decide⟩
  let requests : Requests := ⟨fun _ => .answered, fun _ _ => .raises none, fun j _ => j = 0⟩
  have complete := (all (init 1 ∅) requests bucket 0 ⟨.null, .null, .null, .null⟩).complete rfl
  exact complete ⟨0, 1⟩ (.head _) rfl

end KhCommon.B2Interface
