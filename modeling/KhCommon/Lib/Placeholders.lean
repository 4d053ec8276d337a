import Mathlib.Data.String.Basic
import Mathlib.Tactic.TypeStar

/-! Texts with `%s` placeholders and the parameters that go with them. `fill`
replaces the placeholders from the left to the right and fails when the numbers
differ. `Stands written text params out` says that `params` fill `text` to `out`
wherever the text is placed; it composes along concatenation, so a text and its
parameters that are collected by two traversals can be compared piece by piece. -/

namespace Placeholders

variable {P : Type*}

def countChars : List Char → ℕ
  | '%' :: 's' :: cs => countChars cs + 1
  | _ :: cs => countChars cs
  | [] => 0

def count (text : String) : ℕ := countChars text.toList

def fillChars (written : P → String) : List Char → List P → Option (List Char)
  | '%' :: 's' :: cs, ps =>
    match ps with
    | p :: ps => (fillChars written cs ps).map ((written p).toList ++ ·)
    | [] => none
  | c :: cs, ps => (fillChars written cs ps).map (c :: ·)
  | [], ps => if ps.isEmpty then some [] else none

/-- Each `%s` replaced by the next parameter; nothing may be left over. -/
def fill (written : P → String) (text : String) (params : List P) : Option String :=
  (fillChars written text.toList params).map String.ofList

def Plain (text : String) : Prop := '%' ∉ text.toList

instance (text : String) : Decidable (Plain text) := inferInstanceAs (Decidable (¬ _))

@[simp] theorem plain_append {s t : String} : Plain (s ++ t) ↔ Plain s ∧ Plain t := by
  simp [Plain]

def Stands (written : P → String) (text : String) (params : List P) (out : String) : Prop :=
  ∀ rest later, fillChars written (text.toList ++ rest) (params ++ later) =
    (fillChars written rest later).map (out.toList ++ ·)

inductive StandsAll (written : P → String) : List String → List P → List String → Prop
  | nil : StandsAll written [] [] []
  | cons {text : String} {params : List P} {out : String} {texts : List String}
      {later : List P} {outs : List String} : Stands written text params out →
      StandsAll written texts later outs →
      StandsAll written (text :: texts) (params ++ later) (out :: outs)

variable {written : P → String}

theorem fillChars_plain {cs : List Char} (h : '%' ∉ cs) (rest : List Char) (ps : List P) :
    fillChars written (cs ++ rest) ps = (fillChars written rest ps).map (cs ++ ·) := by
  induction cs with
  | nil => simp
  | cons c cs ih =>
    rw [List.mem_cons, not_or] at h
    have hc : c ≠ '%' := fun e => h.1 e.symm
    rw [List.cons_append, fillChars, ih h.2, Option.map_map]
    · rfl
    · exact fun _ percent _ => hc percent

theorem countChars_of_fillChars {cs : List Char} {ps : List P} {out : List Char}
    (h : fillChars written cs ps = some out) : countChars cs = ps.length := by
  induction cs using countChars.induct generalizing ps out with
  | case1 cs ih =>
    cases ps with
    | nil => simp only [fillChars, reduceCtorEq] at h
    | cons p ps =>
      simp only [fillChars] at h
      obtain ⟨rest, hrest, -⟩ := Option.map_eq_some_iff.mp h
      rw [countChars, ih hrest, List.length_cons]
  | case2 c cs other ih =>
    rw [fillChars] at h
    · obtain ⟨rest, hrest, -⟩ := Option.map_eq_some_iff.mp h
      rw [countChars, ih hrest]
      exact other
    · exact other
  | case3 =>
    cases ps with
    | nil => rfl
    | cons p ps => cases h

theorem count_of_fill {text out : String} {params : List P}
    (h : fill written text params = some out) : count text = params.length := by
  obtain ⟨cs, hcs, -⟩ := Option.map_eq_some_iff.mp h
  exact countChars_of_fillChars hcs

theorem stands_of_plain {text : String} (h : Plain text) : Stands written text [] text :=
  fun rest later => fillChars_plain h rest later

theorem stands_slot (p : P) : Stands written "%s" [p] (written p) := fun _ _ => rfl

theorem Stands.append {s t u v : String} {ps qs : List P} (hs : Stands written s ps u)
    (ht : Stands written t qs v) : Stands written (s ++ t) (ps ++ qs) (u ++ v) := by
  intro rest later
  simp only [String.toList_append, List.append_assoc, hs _ (qs ++ later), ht rest later,
    Option.map_map]
  rfl

theorem Stands.append_plain {s t u : String} {ps : List P} (hs : Stands written s ps u)
    (ht : Plain t) : Stands written (s ++ t) ps (u ++ t) := by
  simpa only [List.append_nil] using hs.append (stands_of_plain ht)

theorem Stands.plain_append {s t v : String} {qs : List P} (hs : Plain s)
    (ht : Stands written t qs v) : Stands written (s ++ t) qs (s ++ v) := by
  simpa only [List.nil_append] using (stands_of_plain hs).append ht

theorem StandsAll.intercalate {sep : String} (hsep : Plain sep) {texts outs : List String}
    {params : List P} (h : StandsAll written texts params outs) :
    Stands written (sep.intercalate texts) params (sep.intercalate outs) := by
  induction h with
  | nil => exact stands_of_plain (by simp [Plain])
  | @cons text params out texts later outs first rest ih =>
    cases rest with
    | nil => simpa using first
    | cons second rest =>
      rw [String.intercalate_cons_cons, String.intercalate_cons_cons]
      exact (first.append_plain hsep).append ih

theorem standsAll_of_plain {texts : List String} (h : ∀ text ∈ texts, Plain text) :
    StandsAll written texts [] texts := by
  induction texts with
  | nil => exact .nil
  | cons text texts ih =>
    rw [List.forall_mem_cons] at h
    have first : Stands written text [] text := stands_of_plain h.1
    exact .cons first (ih h.2)

theorem Stands.fill {text out : String} {params : List P} (h : Stands written text params out) :
    fill written text params = some out := by
  have all := h [] []
  simp only [List.append_nil] at all
  simp [Placeholders.fill, all, fillChars]

end Placeholders
