import KhCommon.Lib.Repeats
import KhCommon.Lib.Split
import KhCommon.Lib.Trim

/-! `kh_common.crawling`: a tag is joined at its white space and its separators with
single underscores, stripped of them, put into lower case, and then every block of word
characters that is repeated more than three times is cut down to three. Tags are ASCII. -/

namespace KhCommon.Crawling

open Repeats Split Trim

abbrev Ascii := Fin 128

def dash : Ascii := ⟨45, by decide⟩

def underscore : Ascii := ⟨95, by decide⟩

def isSpace (c : Ascii) : Bool := (9 ≤ c.val ∧ c.val ≤ 13) ∨ (28 ≤ c.val ∧ c.val ≤ 32)

/-- `[-_]`. -/
def isSep (c : Ascii) : Bool := c = dash ∨ c = underscore

/-- `\w`. -/
def isWord (c : Ascii) : Bool :=
  (48 ≤ c.val ∧ c.val ≤ 57) ∨ (65 ≤ c.val ∧ c.val ≤ 90) ∨ c = underscore ∨
    (97 ≤ c.val ∧ c.val ≤ 122)

def lower (c : Ascii) : Ascii :=
  if h : 65 ≤ c.val ∧ c.val ≤ 90 then ⟨c.val + 32, by omega⟩ else c

/-- `_tagReplaceRegex.sub('_', s)`; `inside` a run, its underscore stands already. -/
def tagReplace : (inside : Bool) → List Ascii → List Ascii
  | _, [] => []
  | inside, c :: s =>
    if isSep c then
      if inside then tagReplace true s else underscore :: tagReplace true s
    else c :: tagReplace false s

def clean (tag : List Ascii) : List Ascii :=
  (trim isSep (tagReplace false ([underscore].intercalate (words isSpace tag)))).map lower

def repetitionCount : ℕ := 3

def normalizeTag (tag : List Ascii) : List Ascii :=
  shorten isWord repetitionCount (clean tag)

/-! ## Clean tags -/

/-- No white space, no dash and no upper case; underscores stand alone, and inside. -/
structure Clean (s : List Ascii) : Prop where
  plain : ∀ c ∈ s, isSpace c = false ∧ c ≠ dash ∧ lower c = c
  apart : s.IsChain fun a b => isSep a → isSep b = false
  head : ∀ c ∈ s.head?, isSep c = false
  last : ∀ c ∈ s.getLast?, isSep c = false

theorem lower_lower (c : Ascii) : lower (lower c) = lower c := by
  revert c
  decide

theorem isSpace_lower (c : Ascii) : isSpace (lower c) = isSpace c := by
  revert c
  decide

theorem isSep_lower (c : Ascii) : isSep (lower c) = isSep c := by
  revert c
  decide

theorem lower_eq_dash_iff (c : Ascii) : lower c = dash ↔ c = dash := by
  revert c
  decide

theorem eq_underscore {c : Ascii} (sep : isSep c) (other : c ≠ dash) : c = underscore := by
  rw [isSep, decide_eq_true_eq] at sep
  exact sep.resolve_left other

theorem mem_joined {c : Ascii} {ws : List (List Ascii)} (h : c ∈ [underscore].intercalate ws) :
    c = underscore ∨ ∃ w ∈ ws, c ∈ w := by
  induction ws with
  | nil => simp at h
  | cons w ws ih =>
    cases ws with
    | nil => exact .inr ⟨w, List.mem_cons_self, by simpa using h⟩
    | cons v vs =>
      rw [List.intercalate_cons_cons, List.mem_append, List.mem_append, List.mem_singleton] at h
      rcases h with (here | here) | later
      · exact .inr ⟨w, List.mem_cons_self, here⟩
      · exact .inl here
      · exact (ih later).imp_right fun ⟨u, hu, hc⟩ => ⟨u, List.mem_cons_of_mem w hu, hc⟩

theorem mem_tagReplace {inside : Bool} {s : List Ascii} {c : Ascii}
    (h : c ∈ tagReplace inside s) : c = underscore ∨ c ∈ s ∧ isSep c = false := by
  induction s generalizing inside with
  | nil => simp [tagReplace] at h
  | cons d s ih =>
    rw [tagReplace] at h
    have later {inside : Bool} (h : c ∈ tagReplace inside s) :
        c = underscore ∨ c ∈ d :: s ∧ isSep c = false :=
      (ih h).imp_right fun ⟨mem, other⟩ => ⟨List.mem_cons_of_mem d mem, other⟩
    split_ifs at h with sep there
    · exact later h
    · exact (List.mem_cons.mp h).elim .inl later
    · rcases List.mem_cons.mp h with rfl | h
      · exact .inr ⟨List.mem_cons_self, Bool.eq_false_iff.mpr sep⟩
      · exact later h

theorem head?_tagReplace {s : List Ascii} {c : Ascii} (h : c ∈ (tagReplace true s).head?) :
    isSep c = false := by
  induction s with
  | nil => simp [tagReplace] at h
  | cons d s ih =>
    by_cases sep : isSep d
    · rw [tagReplace, if_pos sep, if_pos rfl] at h
      exact ih h
    · rw [tagReplace, if_neg sep] at h
      cases h
      exact Bool.eq_false_iff.mpr sep

theorem apart_tagReplace (inside : Bool) (s : List Ascii) :
    (tagReplace inside s).IsChain fun a b => isSep a → isSep b = false := by
  induction s generalizing inside with
  | nil => exact .nil
  | cons d s ih =>
    rw [tagReplace]
    split_ifs with sep there
    · exact ih true
    · exact List.isChain_cons.mpr ⟨fun c hc _ => head?_tagReplace hc, ih true⟩
    · exact List.isChain_cons.mpr ⟨fun c _ hd => absurd hd sep, ih false⟩

theorem tagReplace_of_clean {s : List Ascii} (h : Clean s) : tagReplace false s = s := by
  have keep : ∀ s : List Ascii, (∀ c ∈ s, c ≠ dash) →
      (s.IsChain fun a b => isSep a → isSep b = false) → ∀ inside : Bool,
      (inside → ∀ c ∈ s.head?, isSep c = false) → tagReplace inside s = s := by
    intro s
    induction s with
    | nil => exact fun _ _ _ _ => rfl
    | cons d s ih =>
      intro plain apart inside first
      rw [List.forall_mem_cons] at plain
      rw [List.isChain_cons] at apart
      rw [tagReplace]
      split_ifs with sep there
      · exact absurd sep (by simp [first there d rfl])
      · rw [ih plain.2 apart.2 true fun _ c hc => apart.1 c hc sep, eq_underscore sep plain.1]
      · rw [ih plain.2 apart.2 false nofun]
  exact keep s (fun c hc => (h.plain c hc).2.1) h.apart false nofun

theorem clean_clean (tag : List Ascii) : Clean (clean tag) := by
  set replaced := tagReplace false ([underscore].intercalate (words isSpace tag)) with hreplaced
  have plain : ∀ c ∈ replaced, isSpace c = false ∧ c ≠ dash := by
    intro c hc
    rcases mem_tagReplace hc with rfl | ⟨hc, other⟩
    · decide
    · refine ⟨?_, fun eq => absurd other (by rw [eq]; decide)⟩
      rcases mem_joined hc with rfl | ⟨w, hw, hc⟩
      · decide
      · exact solid_of_mem_words hw c hc
  constructor
  · intro c hc
    obtain ⟨d, hd, rfl⟩ := List.mem_map.mp hc
    obtain ⟨space, other⟩ := plain d ((trim_isInfix replaced).subset hd)
    exact ⟨(isSpace_lower d).trans space, (lower_eq_dash_iff d).not.mpr other, lower_lower d⟩
  · rw [clean, List.isChain_map]
    simp only [isSep_lower]
    obtain ⟨front, back, split⟩ : trim isSep replaced <:+: replaced := trim_isInfix replaced
    have chain : replaced.IsChain fun a b => isSep a → isSep b = false := apart_tagReplace false _
    rw [← split] at chain
    exact chain.left_of_append.right_of_append
  · intro c hc
    rw [clean, List.head?_map, Option.mem_def, Option.map_eq_some_iff] at hc
    obtain ⟨d, hd, rfl⟩ := hc
    exact (isSep_lower d).trans (head?_trim hd)
  · intro c hc
    rw [clean, List.getLast?_map, Option.mem_def, Option.map_eq_some_iff] at hc
    obtain ⟨d, hd, rfl⟩ := hc
    exact (isSep_lower d).trans (getLast?_trim hd)

theorem Clean.clean_eq {s : List Ascii} (h : Clean s) : clean s = s := by
  have joined : [underscore].intercalate (words isSpace s) = s := by
    rcases List.eq_nil_or_concat s with rfl | ⟨_, _, hs⟩
    · rfl
    · have nonempty : s ≠ [] := by simp [hs]
      rw [words_of_solid nonempty fun c hc => (h.plain c hc).1, List.intercalate_singleton]
  rw [clean, joined, tagReplace_of_clean h, trim_eq_self h.head h.last]
  exact (List.map_congr_left fun c hc => (h.plain c hc).2.2).trans (List.map_id' s)

theorem Clean.shortens {s t : List Ascii} {keep : ℕ} (h : Clean s) (pos : 0 < keep)
    (shortens : Shortens isWord keep s t) : Clean t where
  plain c hc := h.plain c (shortens.mem hc)
  apart := shortens.isChain pos h.apart
  head := shortens.head?_eq pos ▸ h.head
  last := shortens.getLast?_eq pos ▸ h.last

theorem clean_normalizeTag (tag : List Ascii) : Clean (normalizeTag tag) :=
  (clean_clean tag).shortens (by decide) (shorten_shortens isWord repetitionCount _)

/-! ## Normalising again -/

/-- Nothing that the pattern of `_repetitionRegex` matches. -/
abbrev Unrepetitive (s : List Ascii) : Prop := Free isWord repetitionCount s

theorem normalizeTag_of_clean {s : List Ascii} (h : Clean s) :
    normalizeTag s = shorten isWord repetitionCount s := by
  rw [normalizeTag, h.clean_eq]

theorem normalizeTag_iterate (tag : List Ascii) (n : ℕ) :
    normalizeTag^[n + 1] tag = (shorten isWord repetitionCount)^[n] (normalizeTag tag) ∧
      Clean (normalizeTag^[n + 1] tag) := by
  induction n with
  | zero => exact ⟨rfl, clean_normalizeTag tag⟩
  | succ n ih =>
    rw [Function.iterate_succ_apply', Function.iterate_succ_apply' (shorten isWord _), ← ih.1]
    exact ⟨normalizeTag_of_clean ih.2, clean_normalizeTag _⟩

/-- Normalising a normalised tag only shortens repetitions once more: it changes the tag
exactly if a block is repeated more than three times in it, which a first pass can bring
about but never if there was none in the clean tag. Repeated, it comes to an end. -/
theorem normalizeTag_normalizeTag (tag : List Ascii) :
    normalizeTag (normalizeTag tag) = shorten isWord repetitionCount (normalizeTag tag) ∧
    (normalizeTag (normalizeTag tag) = normalizeTag tag ↔ Unrepetitive (normalizeTag tag)) ∧
    (Unrepetitive (clean tag) → normalizeTag (normalizeTag tag) = normalizeTag tag) ∧
    ∃ n ≤ (normalizeTag tag).length,
      normalizeTag (normalizeTag^[n + 1] tag) = normalizeTag^[n + 1] tag := by
  have again := normalizeTag_of_clean (clean_normalizeTag tag)
  refine ⟨again, by rw [again, shorten_eq_iff], fun free => ?_, ?_⟩
  · have same : normalizeTag tag = clean tag := shorten_eq_iff.mpr free
    rw [again, shorten_eq_iff, same]
    exact free
  · obtain ⟨n, bound, free⟩ := exists_iterate_free isWord repetitionCount (normalizeTag tag)
    obtain ⟨run, end_clean⟩ := normalizeTag_iterate tag n
    refine ⟨n, bound, ?_⟩
    rw [normalizeTag_of_clean end_clean, shorten_eq_iff, run]
    exact free

/-- `aaaabababab`: when `aaaa` is cut down, `ab` stands four times in a row. -/
def nested : List Ascii := [97, 97, 97, 97, 98, 97, 98, 97, 98, 97, 98]

theorem normalizeTag_not_idempotent :
    normalizeTag (normalizeTag nested) ≠ normalizeTag nested := by
  decide

end KhCommon.Crawling
