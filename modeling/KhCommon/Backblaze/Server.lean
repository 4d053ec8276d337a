import KhCommon.Backblaze.DeleteFile

/-! The server over time: a version that is stored comes before the older versions of its
file, so a listing that starts at the name of a file begins with its newest version. -/

namespace KhCommon.Backblaze

variable {Name : Type*} [LinearOrder Name]

/-- A bucket, the newest version of each file first, and the id of the version that is stored
next. -/
structure Server (Name : Type*) [LinearOrder Name] extends Bucket Name where
  next : ℕ
  newest : versions.Pairwise fun v w => v.fileName = w.fileName → w.fileId < v.fileId
  below : ∀ v ∈ versions, v.fileId < next

namespace Server

/-- A version that is stored goes before the first one whose name is not smaller. -/
def place (new : Version Name) (versions : List (Version Name)) : List (Version Name) :=
  versions.orderedInsert (fun v w => v.fileName ≤ w.fileName) new

section Place

variable {new v : Version Name} {versions : List (Version Name)}

theorem mem_place : v ∈ place new versions ↔ v = new ∨ v ∈ versions := List.mem_orderedInsert _

theorem sorted_place (sorted : versions.Pairwise fun v w => v.fileName ≤ w.fileName) :
    (place new versions).Pairwise fun v w => v.fileName ≤ w.fileName := by
  have total : Std.Total fun v w : Version Name => v.fileName ≤ w.fileName :=
    ⟨fun v w => le_total v.fileName w.fileName⟩
  have trans : IsTrans (Version Name) fun v w => v.fileName ≤ w.fileName := ⟨fun _ _ _ => le_trans⟩
  exact sorted.orderedInsert new versions

theorem distinct_place (distinct : (versions.map Version.fileId).Nodup)
    (fresh : ∀ v ∈ versions, v.fileId < new.fileId) :
    ((place new versions).map Version.fileId).Nodup := by
  rw [place, ((List.perm_orderedInsert _ new versions).map Version.fileId).nodup_iff, List.map_cons,
    List.nodup_cons]
  refine ⟨fun mem => ?_, distinct⟩
  obtain ⟨v, old, same⟩ := List.mem_map.mp mem
  exact (fresh v old).ne same

theorem newest_place
    (newest : versions.Pairwise fun v w => v.fileName = w.fileName → w.fileId < v.fileId)
    (fresh : ∀ v ∈ versions, v.fileId < new.fileId) :
    (place new versions).Pairwise fun v w => v.fileName = w.fileName → w.fileId < v.fileId := by
  induction versions with
  | nil => exact List.pairwise_singleton _ _
  | cons v versions ih =>
    by_cases before : new.fileName ≤ v.fileName
    · have first : place new (v :: versions) = new :: v :: versions :=
        List.orderedInsert_cons_of_le _ _ before
      rw [first, List.pairwise_cons]
      exact ⟨fun w old _ => fresh w old, newest⟩
    · have later : place new (v :: versions) = v :: place new versions :=
        List.orderedInsert_of_not_le _ _ before
      rw [List.pairwise_cons] at newest
      rw [List.forall_mem_cons] at fresh
      rw [later, List.pairwise_cons]
      refine ⟨fun w mem same => ?_, ih newest.2 fresh.2⟩
      rcases mem_place.mp mem with rfl | old
      · exact absurd same.ge before
      · exact newest.1 w old same

end Place

def put (server : Server Name) (fileName : Name) : Server Name where
  versions := place ⟨fileName, server.next⟩ server.versions
  next := server.next + 1
  sorted := sorted_place server.sorted
  distinct := distinct_place server.distinct server.below
  newest := newest_place server.newest server.below
  below v mem := by
    rcases mem_place.mp mem with rfl | old
    · exact Nat.lt_succ_self _
    · exact (server.below v old).trans (Nat.lt_succ_self _)

def delete (server : Server Name) (fileId : ℕ) : Server Name where
  toBucket := server.deleteFileVersion fileId
  next := server.next
  newest := server.newest.filter _
  below v mem := server.below v (List.mem_filter.mp mem).1

variable {server : Server Name} {fileName : Name} {v w : Version Name}

theorem mem_put : v ∈ (server.put fileName).versions ↔
    v = ⟨fileName, server.next⟩ ∨ v ∈ server.versions := mem_place

theorem mem_delete {fileId : ℕ} :
    v ∈ (server.delete fileId).versions ↔ v ∈ server.versions ∧ v.fileId ≠ fileId := by
  simp [delete, Bucket.deleteFileVersion]

theorem le_of_head? (newest : (server.versionsOf fileName).head? = some v) :
    v ∈ server.versions ∧ v.fileName = fileName ∧
      ∀ w ∈ server.versions, w.fileName = fileName → w.fileId ≤ v.fileId := by
  obtain ⟨mem, named⟩ := Bucket.mem_versionsOf.mp (List.mem_of_head? newest)
  refine ⟨mem, named, fun w old same => ?_⟩
  have order := server.newest.filter (fun v => v.fileName = fileName)
  obtain ⟨older, versions⟩ := List.head?_eq_some_iff.mp newest
  have listed : w ∈ server.versionsOf fileName := Bucket.mem_versionsOf.mpr ⟨old, same⟩
  rw [Bucket.versionsOf] at versions listed
  rw [versions] at order listed
  rcases List.mem_cons.mp listed with rfl | later
  · exact le_rfl
  · exact ((List.pairwise_cons.mp order).1 w later (named.trans same.symm)).le

theorem find?_listFileVersions (server : Server Name) {named : Version Name → Bool}
    (named_iff : ∀ v, named v ↔ v.fileName = fileName) {count : ℕ} (some : 0 < count) :
    (server.listFileVersions fileName count).find? named = (server.versionsOf fileName).head? := by
  obtain ⟨count, rfl⟩ := Nat.exists_eq_succ_of_ne_zero some.ne'
  rw [Bucket.listFileVersions, Bucket.filter_le_of_sorted server.sorted, ← Bucket.versionsOf]
  cases versions : server.versionsOf fileName with
  | nil =>
    rw [List.nil_append, List.head?_nil, List.find?_eq_none]
    intro v listed
    have later := (List.mem_filter.mp (List.mem_of_mem_take listed)).2
    exact (named_iff v).not.mpr (of_decide_eq_true later).ne'
  | cons v older =>
    have mem : v ∈ server.versionsOf fileName := by simp [versions]
    have here : named v := (named_iff v).mpr (Bucket.mem_versionsOf.mp mem).2
    rw [List.cons_append, List.take_succ_cons, List.find?_cons_of_pos here, List.head?_cons]

end Server

end KhCommon.Backblaze
