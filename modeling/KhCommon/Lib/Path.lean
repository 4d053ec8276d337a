import Mathlib.Data.List.Infix
import Mathlib.Data.List.TakeWhile
import Mathlib.Tactic.TypeStar

/-! Absolute normalised paths: a list of names, each of which is not empty and free of
the separator, and the text that puts a separator in front of each name. A path lies
in a directory when the names of the directory are the first of its own; of the texts
this says that the directory's is a prefix and a separator or nothing follows. Without
what follows, the last name of the directory may go on in the path. -/

namespace Path

variable {α : Type*} {sep : α}

def IsName (sep : α) (name : List α) : Prop := name ≠ [] ∧ sep ∉ name

instance [DecidableEq α] (sep : α) (name : List α) : Decidable (IsName sep name) :=
  inferInstanceAs (Decidable (name ≠ [] ∧ sep ∉ name))

structure Absolute (sep : α) where
  names : List (List α)
  isName : ∀ name ∈ names, IsName sep name

def render (sep : α) (names : List (List α)) : List α := names.flatMap (sep :: ·)

namespace Absolute

def text (path : Absolute sep) : List α :=
  if path.names = [] then [sep] else render sep path.names

end Absolute

/-! ## Texts that begin alike -/

/-- Nothing, or a separator and more: what may follow a name. -/
def Ends (sep : α) (rest : List α) : Prop := rest = [] ∨ ∃ more, rest = sep :: more

theorem ends_render (names : List (List α)) : Ends sep (render sep names) := by
  cases names with
  | nil => exact .inl rfl
  | cons name names => exact .inr ⟨name ++ render sep names, rfl⟩

@[simp] theorem render_nil : render sep ([] : List (List α)) = [] := rfl

@[simp] theorem render_cons (name : List α) (names : List (List α)) :
    render sep (name :: names) = sep :: (name ++ render sep names) := rfl

theorem render_append (names names' : List (List α)) :
    render sep (names ++ names') = render sep names ++ render sep names' :=
  List.flatMap_append

theorem Ends.append_render {rest : List α} (h : Ends sep rest) (names : List (List α)) :
    Ends sep (render sep names ++ rest) := by
  cases names with
  | nil => exact h
  | cons name names => exact .inr ⟨name ++ render sep names ++ rest, by simp⟩

theorem cut_eq {name name' rest rest' : List α} (free : sep ∉ name) (free' : sep ∉ name')
    (ends : Ends sep rest) (ends' : Ends sep rest') (same : name ++ rest = name' ++ rest') :
    name = name' ∧ rest = rest' := by
  induction name generalizing name' with
  | nil =>
    cases name' with
    | nil => exact ⟨rfl, same⟩
    | cons y ys =>
      rcases ends with rfl | ⟨more, rfl⟩
      · cases same
      · obtain ⟨rfl, -⟩ := List.cons.inj same
        exact absurd List.mem_cons_self free'
  | cons x xs ih =>
    rw [List.mem_cons, not_or] at free
    cases name' with
    | nil =>
      rcases ends' with rfl | ⟨more, rfl⟩
      · cases same
      · obtain ⟨rfl, -⟩ := List.cons.inj same
        exact absurd rfl free.1
    | cons y ys =>
      rw [List.mem_cons, not_or] at free'
      obtain ⟨rfl, tails⟩ := List.cons.inj same
      obtain ⟨rfl, rest_eq⟩ := ih free.2 free'.2 tails
      exact ⟨rfl, rest_eq⟩

theorem names_prefix_of_render {names names' : List (List α)} (free : ∀ name ∈ names, sep ∉ name)
    (free' : ∀ name ∈ names', sep ∉ name) {rest : List α} (ends : Ends sep rest)
    (same : render sep names ++ rest = render sep names') :
    ∃ others, names' = names ++ others ∧ rest = render sep others := by
  induction names generalizing names' with
  | nil => exact ⟨names', rfl, same⟩
  | cons name names ih =>
    rw [List.forall_mem_cons] at free
    cases names' with
    | nil => cases same
    | cons name' names' =>
      rw [List.forall_mem_cons] at free'
      rw [render_cons, render_cons, List.cons_append, List.append_assoc] at same
      obtain ⟨rfl, tails⟩ := cut_eq free.1 free'.1 (ends.append_render names) (ends_render names')
        (List.cons.inj same).2
      obtain ⟨others, rfl, rest_eq⟩ := ih free.2 free'.2 tails
      exact ⟨others, rfl, rest_eq⟩

theorem prefix_of_prefix_append {name other rest : List α} (named : sep ∉ name)
    (ends : Ends sep rest) (begins : name <+: other ++ rest) : name <+: other := by
  rcases List.prefix_or_prefix_of_prefix begins (List.prefix_append other rest) with h | ⟨more, rfl⟩
  · exact h
  · rw [List.prefix_append_right_inj] at begins
    rcases ends with rfl | ⟨after, rfl⟩
    · rw [List.prefix_nil.mp begins, List.append_nil]
    · cases more with
      | nil => rw [List.append_nil]
      | cons x more =>
        obtain ⟨rfl, -⟩ := List.cons_prefix_cons.mp begins
        simp at named

theorem prefix_render_iff {front names : List (List α)} {name : List α}
    (free : ∀ other ∈ front, sep ∉ other) (named : sep ∉ name)
    (free' : ∀ other ∈ names, sep ∉ other) :
    render sep (front ++ [name]) <+: render sep names ↔
      ∃ more others, names = front ++ (name ++ more) :: others := by
  constructor
  · rintro ⟨rest, same⟩
    rw [render_append, List.append_assoc] at same
    obtain ⟨others, rfl, behind⟩ := names_prefix_of_render free free'
      (.inr ⟨name ++ rest, by simp⟩) same
    cases others with
    | nil => cases behind
    | cons other others =>
      rw [render_cons, render_cons, render_nil, List.append_nil, List.cons_append] at behind
      obtain ⟨more, rfl⟩ := prefix_of_prefix_append named (ends_render others)
        ⟨rest, (List.cons.inj behind).2⟩
      exact ⟨more, others, rfl⟩
  · rintro ⟨more, others, rfl⟩
    exact ⟨more ++ render sep others, by simp [render_append]⟩

/-! ## Paths in a directory -/

namespace Absolute

variable {directory path : Absolute sep}

theorem text_of_ne_root (h : path.names ≠ []) : path.text = render sep path.names := if_neg h

theorem free (path : Absolute sep) : ∀ name ∈ path.names, sep ∉ name :=
  fun name hname => (path.isName name hname).2

theorem ne_root_of_begins (h : directory.names ≠ []) (begins : directory.text <+: path.text) :
    path.names ≠ [] := by
  intro root
  obtain ⟨name, names, hnames⟩ := List.exists_cons_of_ne_nil h
  have length := begins.length_le
  rw [text_of_ne_root h, hnames, render_cons, text, if_pos root] at length
  have named := (directory.isName name (hnames ▸ List.mem_cons_self)).1
  have positive := List.length_pos_of_ne_nil named
  simp only [List.length_cons, List.length_append, List.length_nil] at length
  omega

theorem within_iff (h : directory.names ≠ []) :
    path.text = directory.text ∨ directory.text ++ [sep] <+: path.text ↔
      directory.names <+: path.names := by
  constructor
  · intro within
    have begins : directory.text <+: path.text := by
      rcases within with same | begins
      · exact same ▸ List.prefix_rfl
      · exact (List.prefix_append _ _).trans begins
    rw [text_of_ne_root h, text_of_ne_root (ne_root_of_begins h begins)] at within
    obtain ⟨rest, ends, same⟩ : ∃ rest, Ends sep rest ∧
        render sep directory.names ++ rest = render sep path.names := by
      rcases within with same | ⟨rest, same⟩
      · exact ⟨[], .inl rfl, by rw [List.append_nil, same]⟩
      · exact ⟨sep :: rest, .inr ⟨rest, rfl⟩, by rw [← same, List.append_cons]⟩
    obtain ⟨others, names, -⟩ := names_prefix_of_render directory.free path.free ends same
    exact ⟨others, names.symm⟩
  · rintro ⟨others, names⟩
    have other : path.names ≠ [] := by
      rw [← names]
      simp [h]
    rw [text_of_ne_root h, text_of_ne_root other, ← names, render_append]
    cases others with
    | nil => exact .inl (by rw [render_nil, List.append_nil])
    | cons name others => exact .inr ⟨name ++ render sep others, by simp⟩

theorem beside_iff (h : directory.names ≠ []) :
    (∃ c rest, path.text = directory.text ++ c :: rest ∧ c ≠ sep) ↔
      ∃ front name more others, directory.names = front ++ [name] ∧ more ≠ [] ∧
        path.names = front ++ (name ++ more) :: others := by
  constructor
  · rintro ⟨c, rest, same, other⟩
    have begins : directory.text <+: path.text := ⟨c :: rest, same.symm⟩
    rw [text_of_ne_root (ne_root_of_begins h begins), text_of_ne_root h] at same begins
    obtain ⟨front, name, split⟩ := (List.eq_nil_or_concat directory.names).resolve_left h
    have frees := directory.free
    rw [List.concat_eq_append] at split
    rw [split] at same begins frees
    obtain ⟨more, others, names⟩ := (prefix_render_iff
      (fun name mem => frees name (List.mem_append_left _ mem)) (frees name (by simp))
      path.free).mp begins
    refine ⟨front, name, more, others, split, ?_, names⟩
    rintro rfl
    -- with nothing in between, a separator would follow
    have follows : render sep others = c :: rest := by
      rw [names] at same
      simpa [render_append] using same
    cases others with
    | nil => cases follows
    | cons name others => exact other (List.cons.inj follows).1.symm
  · rintro ⟨front, name, more, others, split, goes_on, names⟩
    obtain ⟨c, more, rfl⟩ := List.exists_cons_of_ne_nil goes_on
    refine ⟨c, more ++ render sep others, ?_, ?_⟩
    · rw [text_of_ne_root h, text_of_ne_root (by simp [names]), split, names]
      simp [render_append]
    · rintro rfl
      exact path.free (name ++ c :: more) (by simp [names]) (by simp)

end Absolute

end Path
