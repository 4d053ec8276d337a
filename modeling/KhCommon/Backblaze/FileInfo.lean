import KhCommon.Backblaze.Interface

/-! `b2_get_file_info`: the first listed version with the name of the file. A listing
without one ends the lookup in the handler of `StopIteration`, which names an exception
that is not bound there, so the loop goes on after every failure but this one. -/

namespace KhCommon.Backblaze

structure Version (Name : Type*) where
  fileName : Name
  fileId : ℕ
  deriving DecidableEq

/-- What comes of a request for a listing: an exception, a status of 401, another response, which
has no files, or the files. -/
inductive Listing (Name : Type*)
  | raises
  | unauthorized
  | refused
  | files (files : List (Version Name))

def Listing.files? {Name : Type*} : Listing Name → Option (List (Version Name))
  | .files versions => some versions
  | _ => none

theorem Listing.files?_eq_some {Name : Type*} {reply : Listing Name}
    {versions : List (Version Name)} : reply.files? = some versions ↔ reply = .files versions := by
  cases reply <;> simp [Listing.files?]

end KhCommon.Backblaze

namespace KhCommon.B2Interface

open Attempts Backblaze

variable {Name : Type*} [DecidableEq Name] (self : B2Interface)

/-- The first version of the file, as `next` finds it; the handler of its `StopIteration` raises an
`UnboundLocalError`. -/
def firstVersion (filename : Name) (files : List (Version Name)) :
    Except Fault (Option (Version Name)) :=
  match files.find? fun file => file.fileName = filename with
  | some file => .ok (some file)
  | none => .error .unboundLocalError

/-- A turn of the loop; what `_b2_authorize` raises, and the `KeyError` of a response without files,
are caught with the rest. -/
def fileInfoAttempt (listing : ℕ → Listing Name) (authorize : ℕ → ℕ → Reply) (filename : Name)
    (i : ℕ) (account : Account) :
    Attempt Account (Except Fault (Option (Version Name)) × Account) :=
  match listing i with
  | .raises => .again account
  | .unauthorized => .again (self.b2Authorize (authorize i) account).2
  | .refused => .again account
  | .files files => .done (firstVersion filename files, account)

def b2GetFileInfo (listing : ℕ → Listing Name) (authorize : ℕ → ℕ → Reply) (account : Account)
    (filename : Name) : Except Fault (Option (Version Name)) × Account :=
  match loop (self.fileInfoAttempt listing authorize filename) self.b2MaxRetries 0 account with
  | .done result => result
  | .again account => (.ok none, account)

variable {self} {listing : ℕ → Listing Name} {authorize : ℕ → ℕ → Reply} {account : Account}
  {filename : Name} {n : ℕ}

/-! ## Every sequence of replies -/

/-- The first version in the first listing that has one, or None if none has; nothing is raised. -/
structure LooksUp (listing : ℕ → Listing Name) (filename : Name) (n : ℕ)
    (result : Except Fault (Option (Version Name))) : Prop where
  found : ∀ k < n, ∀ files file, listing k = .files files →
    files.find? (fun file => file.fileName = filename) = some file →
    (∀ j < k, ∀ files, listing j = .files files → ∀ file ∈ files, file.fileName ≠ filename) →
    result = .ok (some file)
  absent : (∀ k < n, ∀ files, listing k = .files files → ∀ file ∈ files, file.fileName ≠ filename) →
    result = .ok none
  returns : ∃ file, result = .ok file

theorem firstVersion_of_absent {files : List (Version Name)}
    (absent : ∀ file ∈ files, file.fileName ≠ filename) :
    firstVersion filename files = .error .unboundLocalError := by
  have none : files.find? (fun file => file.fileName = filename) = none := by simpa using absent
  rw [firstVersion, none]

theorem firstVersion_of_mem {files : List (Version Name)}
    (some : ∃ file ∈ files, file.fileName = filename) :
    ∃ file, firstVersion filename files = .ok (.some file) := by
  have found : (files.find? fun file => file.fileName = filename).isSome := by
    simpa [List.find?_isSome] using some
  obtain ⟨file, first⟩ := Option.isSome_iff_exists.mp found
  exact ⟨file, by rw [firstVersion, first]⟩

theorem reads_fileInfo (self : B2Interface) (listing : ℕ → Listing Name)
    (authorize : ℕ → ℕ → Reply) (filename : Name) :
    Reads (self.fileInfoAttempt listing authorize filename)
      (fun i => (listing i).files?.map (firstVersion filename)) Prod.fst
      (fun _ => (none : Option Unit)) fun _ => () := by
  refine .of_attempt fun i account => ?_
  simp only [fileInfoAttempt]
  cases listing i with
  | files files => rfl
  | _ => exact ⟨rfl, trivial⟩

theorem firstEnd_files {result : Except Fault (Option (Version Name))}
    (h : FirstEnd (fun i => (listing i).files?.map (firstVersion filename)) n result) :
    ∃ files, FirstEnd (fun i => (listing i).files?) n files ∧
      firstVersion filename files = result := by
  obtain ⟨k, inside, ends, before⟩ := h
  obtain ⟨files, answered, found⟩ := Option.map_eq_some_iff.mp ends
  refine ⟨files, ⟨k, inside, answered, fun j earlier => ?_⟩, found⟩
  exact Option.map_eq_none_iff.mp (before j earlier)

theorem b2GetFileInfo_cases (self : B2Interface) (listing : ℕ → Listing Name)
    (authorize : ℕ → ℕ → Reply) (account : Account) (filename : Name) :
    (∃ files, FirstEnd (fun i => (listing i).files?) self.b2MaxRetries files ∧
      (self.b2GetFileInfo listing authorize account filename).1 = firstVersion filename files) ∨
    ((∀ i < self.b2MaxRetries, (listing i).files? = none) ∧
      (self.b2GetFileInfo listing authorize account filename).1 = .ok none) := by
  have run := (reads_fileInfo self listing authorize filename).loop self.b2MaxRetries account
  unfold b2GetFileInfo
  cases ended : loop (self.fileInfoAttempt listing authorize filename) self.b2MaxRetries 0
    account with
  | done result =>
    rw [ended] at run
    obtain ⟨files, first, found⟩ := firstEnd_files run
    exact .inl ⟨files, first, found.symm⟩
  | again account' =>
    rw [ended] at run
    exact .inr ⟨fun i inside => Option.map_eq_none_iff.mp (run.1 i inside), rfl⟩

/-- The lookup does what it is for exactly if the first listing that is obtained, if any is, has a
version of the file. -/
theorem b2GetFileInfo_looksUp_iff (self : B2Interface) (listing : ℕ → Listing Name)
    (authorize : ℕ → ℕ → Reply) (account : Account) (filename : Name) :
    LooksUp listing filename self.b2MaxRetries
        (self.b2GetFileInfo listing authorize account filename).1 ↔
      ∀ files, FirstEnd (fun i => (listing i).files?) self.b2MaxRetries files →
        ∃ file ∈ files, file.fileName = filename := by
  have run := self.b2GetFileInfo_cases listing authorize account filename
  constructor
  · intro looksUp files first
    by_contra absent
    push Not at absent
    obtain ⟨file, returned⟩ := looksUp.returns
    rcases run with ⟨files', first', came⟩ | ⟨unanswered, -⟩
    · rw [first'.unique first, firstVersion_of_absent absent, returned] at came
      cases came
    · exact first.not_none unanswered
  · intro contains
    rcases run with ⟨files, first, came⟩ | ⟨unanswered, came⟩
    · obtain ⟨k, inside, answered, before⟩ := first
      have listed : listing k = .files files := Listing.files?_eq_some.mp answered
      have some := contains files ⟨k, inside, answered, before⟩
      refine ⟨fun k' inside' files' file answered' found earlier => ?_, fun absent => ?_, ?_⟩
      · rcases Nat.lt_trichotomy k' k with lt | rfl | lt
        · have none := before k' lt
          simp [answered', Listing.files?] at none
        · rw [answered', Listing.files.injEq] at listed
          rw [came, ← listed, firstVersion, found]
        · obtain ⟨named, mem, same⟩ := some
          exact absurd same (earlier k lt files listed named mem)
      · obtain ⟨named, mem, same⟩ := some
        exact absurd same (absent k inside files listed named mem)
      · obtain ⟨file, ok⟩ := firstVersion_of_mem some
        exact ⟨_, came.trans ok⟩
    · refine ⟨fun k inside files file answered => ?_, fun _ => came, _, came⟩
      have none := unanswered k inside
      simp [answered, Listing.files?] at none

/-- A listing without the file is obtained. -/
theorem b2GetFileInfo_raises :
    ¬ ∀ (self : B2Interface) (listing : ℕ → Listing ℕ) (authorize : ℕ → ℕ → Reply)
      (account : Account) (filename : ℕ), 1 ≤ self.b2MaxRetries →
      LooksUp listing filename self.b2MaxRetries
        (self.b2GetFileInfo listing authorize account filename).1 := by
  intro all
  have looksUp := all (init 1 ∅) (fun _ => .files [⟨2, 0⟩]) (fun _ _ => .raises none)
    ⟨.null, .null, .null, .null⟩ 1 (Nat.le_refl 1)
  obtain ⟨file, returned⟩ := looksUp.returns
  cases returned

end KhCommon.B2Interface
