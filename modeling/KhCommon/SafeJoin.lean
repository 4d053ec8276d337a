import KhCommon.Lib.Path
import KhCommon.Lib.Python

/-! `safeJoin`: a path that is served has the text of the working directory in front,
which a sibling such as `/srv/app-secret` of `/srv/app` has as well. The file system
is a parameter: what `os.path.realpath` makes of a path, through whatever links, and
which paths exist. The working directory is what `os.getcwd` returned. -/

namespace KhCommon.SafeJoin

open Python

def slash : CodePoint := .ofChar '/'

/-- An absolute path without links and dots. -/
structure RealPath extends Path.Absolute slash where
  plain : ∀ name ∈ names, name ≠ literal "." ∧ name ≠ literal ".."

def RealPath.text (path : RealPath) : Str := path.toAbsolute.text

structure FileSystem where
  realpath : Str → RealPath
  «exists» : Str → Bool

inductive Exc
  | typeError
  | notFound (message : String)
  deriving DecidableEq

/-! ## The function -/

/-- One more argument of `os.path.join`: an absolute one starts anew. -/
def joinOne (path b : Str) : Str :=
  if b.head? = some slash then b
  else if path = [] ∨ path.getLast? = some slash then path ++ b
  else path ++ slash :: b

/-- `os.path.join`, which requires an argument. -/
def join : List Str → Except Exc Str
  | [] => .error .typeError
  | a :: p => .ok (p.foldl joinOne a)

/-- `secureFolders`, from what the file has; none when `open` or `json.load` raises. The result is
kept for 15 minutes. -/
def secureFolders (folders : Option (List Str)) : List Str :=
  folders.getD [literal "credentials"]

def unavailable : Exc := .notFound "The requested resource is not available."

def safeJoin (fs : FileSystem) (cwd : RealPath) (folders args : List Str) : Except Exc Str :=
  match join args with
  | .error e => .error e
  | .ok joined =>
    let path := (fs.realpath joined).text
    if cwd.text <+: path ∧ (∀ folder ∈ folders, ¬folder <:+: path) ∧ fs.exists path then .ok path
    else .error unavailable

/-! ## What is served -/

variable {cwd path : RealPath} {folders args : List Str}

def Served (cwd : RealPath) (folders : List Str) (path : Str) : Prop :=
  (path = cwd.text ∨ cwd.text ++ [slash] <+: path) ∧ ∀ folder ∈ folders, ¬folder <:+: path

def Safe (cwd : RealPath) (folders : List Str) : Except Exc Str → Prop
  | .ok path => Served cwd folders path
  | .error e => e = unavailable

def Beside (cwd path : RealPath) : Prop :=
  ∃ c rest, path.text = cwd.text ++ c :: rest ∧ c ≠ slash

theorem beside_iff (h : cwd.names ≠ []) : Beside cwd path ↔
    ∃ front name more others, cwd.names = front ++ [name] ∧ more ≠ [] ∧
      path.names = front ++ (name ++ more) :: others :=
  Path.Absolute.beside_iff h

theorem served_iff (h : cwd.names ≠ []) : Served cwd folders path.text ↔
    cwd.names <+: path.names ∧ ∀ folder ∈ folders, ¬folder <:+: path.text :=
  and_congr_left' (Path.Absolute.within_iff h)

theorem within_or_beside (begins : cwd.text <+: path.text) :
    (path.text = cwd.text ∨ cwd.text ++ [slash] <+: path.text) ↔ ¬Beside cwd path := by
  obtain ⟨rest, same⟩ := begins
  rw [Beside, ← same]
  cases rest with
  | nil => exact iff_of_true (.inl (List.append_nil _)) (by simp)
  | cons c rest =>
    have follows : cwd.text ++ [slash] <+: cwd.text ++ c :: rest ↔ c = slash := by
      rw [List.prefix_append_right_inj, List.cons_prefix_cons]
      simp [eq_comm]
    have longer : cwd.text ++ c :: rest ≠ cwd.text := by simp
    rw [follows]
    simp [longer]

/-- `safeJoin` keeps its promise exactly if it is given a path and that does not lead beside the
directory, to something that exists and has no name of a secure folder in it. -/
theorem safeJoin_safe_iff (fs : FileSystem) (cwd : RealPath) (folders args : List Str) :
    Safe cwd folders (safeJoin fs cwd folders args) ↔
      args ≠ [] ∧ ∀ joined, join args = .ok joined → Beside cwd (fs.realpath joined) →
        fs.exists (fs.realpath joined).text → ∃ folder ∈ folders,
          folder <:+: (fs.realpath joined).text := by
  cases args with
  | nil => simp [safeJoin, join, Safe, unavailable]
  | cons a p =>
    have joined : join (a :: p) = .ok (p.foldl joinOne a) := rfl
    simp only [safeJoin, joined, Except.ok.injEq, forall_eq', ne_eq, reduceCtorEq,
      not_false_eq_true, true_and]
    generalize fs.realpath (p.foldl joinOne a) = path
    split_ifs with passes
    · obtain ⟨begins, clean, found⟩ := passes
      have never : ¬∃ folder ∈ folders, folder <:+: path.text := by
        rintro ⟨folder, mem, inside⟩
        exact clean folder mem inside
      simp only [Safe, Served, within_or_beside begins, found, never, imp_false, not_true_eq_false]
      exact and_iff_left clean
    · refine iff_of_true rfl fun beside found => ?_
      obtain ⟨c, rest, same, -⟩ := beside
      by_contra clean
      rw [not_exists] at clean
      exact passes ⟨⟨c :: rest, same.symm⟩, fun folder mem inside => clean folder ⟨mem, inside⟩,
        found⟩

theorem safeJoin_below {fs : FileSystem} {joined : Str} (h : cwd.names ≠ [])
    (given : join args = .ok joined) (besides : ¬Beside cwd (fs.realpath joined)) {text : Str}
    (served : safeJoin fs cwd folders args = .ok text) :
    text = (fs.realpath joined).text ∧ cwd.names <+: (fs.realpath joined).names := by
  simp only [safeJoin, given] at served
  split_ifs at served with passes
  cases served
  exact ⟨rfl, (Path.Absolute.within_iff h).mp ((within_or_beside passes.1).mpr besides)⟩

def pathOf (names : List String) (h : ∀ name ∈ names.map literal,
    Path.IsName slash name ∧ name ≠ literal "." ∧ name ≠ literal "..") : RealPath :=
  ⟨⟨names.map literal, fun name mem => (h name mem).1⟩, fun name mem => (h name mem).2⟩

/-- Asked for `../app-secret` in `/srv/app`, it serves that sibling. -/
theorem safeJoin_not_safe :
    ¬ ∀ (fs : FileSystem) (cwd : RealPath) (folders args : List Str),
      Safe cwd folders (safeJoin fs cwd folders args) := by
  intro all
  let cwd := pathOf ["srv", "app"] (by decide)
  let sibling := pathOf ["srv", "app-secret"] (by decide)
  let fs : FileSystem := ⟨fun _ => sibling, fun _ => true⟩
  have joined : join [literal "../app-secret"] = .ok (literal "../app-secret") := rfl
  have served : safeJoin fs cwd (secureFolders none) [literal "../app-secret"] =
      .ok sibling.text := by
    simp only [safeJoin, joined]
    exact if_pos (by decide)
  have safe := all fs cwd (secureFolders none) [literal "../app-secret"]
  rw [served] at safe
  have below : cwd.names <+: sibling.names := ((served_iff (by decide)).mp safe).1
  exact absurd below (by decide)

end KhCommon.SafeJoin
