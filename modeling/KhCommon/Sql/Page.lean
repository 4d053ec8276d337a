import KhCommon.Lib.Machine
import KhCommon.Sql.Query
import Mathlib.Tactic.Linarith

/-! The pages of a query. `page` overwrites the offset, so one object may be asked for
one page after another; the offset of the first page is 0, which is left out of the
statement. What a database makes of `LIMIT` and `OFFSET` is a parameter. -/

namespace KhCommon.Sql

open Machine

variable {V R : Type}

def Query.bare (query : Query V) : Query V := { query with _limit := none, _offset := none }

/-- Of the statement with these parameters, `LIMIT` gives that many of the rows, and `OFFSET` leaves
out that many before. -/
structure Windows (rows : String → List (Param V) → List R) (text : String)
    (params : List (Param V)) : Prop where
  limit : ∀ n : ℤ, 0 < n → rows (text ++ " LIMIT %s;") (params ++ [.records n]) =
    (rows (text ++ ";") params).take n.toNat
  offset : ∀ n m : ℤ, 0 < n → 0 < m →
    rows (text ++ " LIMIT %s OFFSET %s;") (params ++ [.records n, .records m]) =
      ((rows (text ++ ";") params).drop m.toNat).take n.toNat

/-- What a query that is asked for a page and executed gives, and the object it leaves; none when an
`assert` fails. -/
def pageStep (rows : String → List (Param V) → List R) (query : Query V) (page : ℤ) :
    Option (List R) × Query V :=
  match query.page page with
  | none => (none, query)
  | some query => (query.build.map fun built => rows built.1 built.2, query)

/-! ## The statement of a page -/

theorem queryText_window (table : Table) (select : List Field) (joins wheres : List String)
    (group : List Field) (having : List String) (order : List (Field × Order))
    (limit offset : Option String) :
    queryText table select joins wheres group having order limit offset =
      queryText table select joins wheres group having order none none ++
        clause " LIMIT " "" limit.toList ++ clause " OFFSET " "" offset.toList := by
  have limits : clause " LIMIT " "" (Option.toList none) = "" := rfl
  have offsets : clause " OFFSET " "" (Option.toList none) = "" := rfl
  -- an equation of the function is slow to derive, with so many strings in it
  delta queryText
  rw [limits, offsets, String.append_empty, String.append_empty]

def Query.windowText (query : Query V) : String :=
  clause " LIMIT " "" ((truthy query._limit).map fun _ => "%s").toList ++
    clause " OFFSET " "" ((truthy query._offset).map fun _ => "%s").toList

def Query.windowParams (query : Query V) : List (Param V) :=
  (truthy query._limit).toList.map .records ++ (truthy query._offset).toList.map .records

theorem Query.buildQuery_bare (query : Query V) :
    query.buildQuery = query.bare.buildQuery.map (· ++ query.windowText) := by
  obtain ⟨table, joins, select, wheres, having, group, order, limit, offset, function⟩ := query
  have nothing : truthy none = none := rfl
  simp only [bare, buildQuery, windowText, nothing, Option.map_none]
  split_ifs
  · rfl
  cases Join.strs joins with
  | none => rfl
  | some joins =>
    cases Where.strs wheres with
    | none => rfl
    | some wheres =>
      cases Where.strs having with
      | none => rfl
      | some having =>
        simp [queryText_window _ _ _ _ _ _ _ (Option.map _ (truthy limit)), String.append_assoc]

theorem Query.params_bare (query : Query V) :
    query.params = query.bare.params.map (· ++ query.windowParams) := by
  obtain ⟨table, joins, select, wheres, having, group, order, limit, offset, function⟩ := query
  have nothing : truthy none = none := rfl
  simp only [bare, params, windowParams, nothing]
  split_ifs
  · rfl
  cases Join.paramsAll joins with
  | none => rfl
  | some joins =>
    cases Where.paramsAll wheres with
    | none => rfl
    | some wheres =>
      cases Where.paramsAll having with
      | none => rfl
      | some having => simp

theorem Query.build_window {query : Query V} {text : String} {params : List (Param V)}
    (built : query.bare.build = some (text ++ ";", params)) :
    query.build = some (text ++ query.windowText ++ ";", params ++ query.windowParams) := by
  obtain ⟨bareText, hText, built⟩ := Option.bind_eq_some_iff.mp built
  obtain ⟨bareParams, hParams, built⟩ := Option.bind_eq_some_iff.mp built
  have same : bareText ++ ";" = text ++ ";" ∧ bareParams = params := by simpa using built
  obtain rfl : bareText = text := by simpa using same.1
  obtain rfl := same.2
  simp [build, buildQuery_bare query, params_bare query, hText, hParams]

/-! ## The rows of a page -/

def pageOf (all : List R) (records page : ℤ) : Option (List R) :=
  if 0 < page then some ((all.drop (records * (page - 1)).toNat).take records.toNat) else none

variable {rows : String → List (Param V) → List R} {text : String} {params : List (Param V)}

theorem Windows.rows_build (windows : Windows rows text params) {query : Query V}
    (built : query.bare.build = some (text ++ ";", params)) {records offset : ℤ}
    (limited : query._limit = some records) (positive : 0 < records)
    (starts : query._offset = some offset) (after : 0 ≤ offset) :
    (query.build.map fun built => rows built.1 built.2) =
      some (((rows (text ++ ";") params).drop offset.toNat).take records.toNat) := by
  have one : truthy (some records) = some records := by simp [truthy, positive.ne']
  have written (before : String) : clause before "" (some "%s").toList = before ++ "%s" := rfl
  rw [Query.build_window built, Option.map_some, Query.windowText, Query.windowParams, limited,
    starts, one, Option.map_some, written]
  rcases after.eq_or_lt with rfl | later
  · have first := windows.limit records positive
    have none : truthy (some 0) = none := rfl
    have text_eq : text ++ (" LIMIT " ++ "%s" ++ "") ++ ";" = text ++ " LIMIT %s;" := by
      rw [String.append_assoc]
      rfl
    have nothing : clause " OFFSET " "" (Option.toList Option.none) = "" := rfl
    rw [none, Option.map_none, nothing, text_eq, Int.toNat_zero, List.drop_zero]
    simpa using first
  · have next := windows.offset records offset positive later
    have some : truthy (some offset) = some offset := by simp [truthy, later.ne']
    have text_eq : text ++ (" LIMIT " ++ "%s" ++ (" OFFSET " ++ "%s")) ++ ";" =
        text ++ " LIMIT %s OFFSET %s;" := by
      rw [String.append_assoc]
      rfl
    rw [some, Option.map_some, written, text_eq]
    simpa using next

theorem pageStep_spec (windows : Windows rows text params) {query base : Query V} {records : ℤ}
    (positive : 0 < records) (built : base.bare.build = some (text ++ ";", params))
    (h : query.bare = base.bare ∧ query._limit = some records) (page : ℤ) :
    (pageStep rows query page).1 = pageOf (rows (text ++ ";") params) records page ∧
      (pageStep rows query page).2.bare = base.bare ∧
      (pageStep rows query page).2._limit = some records := by
  obtain ⟨same, limited⟩ := h
  by_cases asked : 0 < page
  · have paged : query.page page = some { query with _offset := some (records * (page - 1)) } := by
      simp [Query.page, asked, limited, positive]
    have starts : 0 ≤ records * (page - 1) := mul_nonneg positive.le (by linarith)
    rw [pageStep, paged, pageOf, if_pos asked]
    refine ⟨?_, same, limited⟩
    have bare : ({ query with _offset := some (records * (page - 1)) } : Query V).bare =
        query.bare := rfl
    rw [← same, ← bare] at built
    exact windows.rows_build built limited positive rfl starts
  · have refused : query.page page = none := by simp [Query.page, asked]
    rw [pageStep, refused, pageOf, if_neg asked]
    exact ⟨rfl, same, limited⟩

theorem flatten_pages (all : List R) {records : ℤ} (positive : 0 < records) (n : ℕ) :
    ∃ parts : List (List R), (List.range n).map (fun i : ℕ => pageOf all records ((i : ℤ) + 1)) =
        parts.map some ∧
      parts.flatten = all.take (n * records.toNat) ∧
      ∀ part ∈ parts, part.length ≤ records.toNat := by
  induction n with
  | zero => exact ⟨[], by simp⟩
  | succ n ih =>
    obtain ⟨parts, given, whole, short⟩ := ih
    have starts : (records * n).toNat = n * records.toNat := by
      obtain ⟨k, rfl⟩ := Int.eq_ofNat_of_zero_le positive.le
      rw [mul_comm]
      norm_cast
    have next : pageOf all records (n + 1) =
        some ((all.drop (n * records.toNat)).take records.toNat) := by
      rw [pageOf, if_pos (by positivity), add_sub_cancel_right, starts]
    refine ⟨parts ++ [(all.drop (n * records.toNat)).take records.toNat], ?_, ?_, ?_⟩
    · rw [List.range_succ, List.map_append, given, List.map_append, List.map_singleton, next]
      rfl
    · rw [List.flatten_append, whole, List.flatten_singleton, add_mul, one_mul, List.take_add]
    · intro part mem
      rcases List.mem_append.mp mem with mem | mem
      · exact short part mem
      · rw [List.mem_singleton.mp mem]
        exact List.length_take_le ..

/-- One query, asked for pages in any order and any number of times: each request gives the rows of
that page whatever was asked before, or fails when the page is not positive. The first `n` pages
put together are the first rows of the query without a limit, each once and in order, and no page
has more rows than the limit; so enough pages have them all. -/
theorem pages_tile (rows : String → List (Param V) → List R) (query : Query V) {records : ℤ}
    (limited : query._limit = some records) (positive : 0 < records) {text : String}
    {params : List (Param V)} (built : query.bare.build = some (text ++ ";", params))
    (windows : Windows rows text params) :
    let all := rows (text ++ ";") params
    (∀ pages, outputs (pageStep rows) query pages = pages.map (pageOf all records)) ∧
    ∀ n : ℕ, ∃ parts : List (List R),
      outputs (pageStep rows) query ((List.range n).map fun i : ℕ => (i : ℤ) + 1) =
        parts.map some ∧
      parts.flatten = all.take (n * records.toNat) ∧
      ∀ part ∈ parts, part.length ≤ records.toNat := by
  intro all
  have each (pages : List ℤ) :
      outputs (pageStep rows) query pages = pages.map (pageOf all records) :=
    outputs_eq_map (I := fun s => s.bare = query.bare ∧ s._limit = some records)
      (fun s page _ h => pageStep_spec windows positive built h page) ⟨rfl, limited⟩
  refine ⟨each, fun n => ?_⟩
  obtain ⟨parts, given, whole, short⟩ := flatten_pages all positive n
  refine ⟨parts, ?_, whole, short⟩
  rw [each, List.map_map, ← given]
  rfl

theorem pages_tile_five :
    let rows := fun (_ : String) (params : List (Param ℕ)) =>
      match params with
      | [.records n] => [1, 2, 3, 4, 5].take n.toNat
      | [.records n, .records m] => ([1, 2, 3, 4, 5].drop m.toNat).take n.toNat
      | _ => [1, 2, 3, 4, 5]
    let table : Table := ⟨"kheina.public.a", none, by decide, by decide⟩
    let query : Query ℕ := ⟨table, [], [⟨"a", "b", none⟩], [], [], [], [], some 2, none, none⟩
    outputs (pageStep rows) query [3, 1] = [some [5], some [1, 2]] := by
  intro rows table query
  have built : query.bare.build = some ("SELECT a.b FROM kheina.public.a" ++ ";", []) := rfl
  have windows : Windows rows "SELECT a.b FROM kheina.public.a" [] :=
    ⟨fun n _ => rfl, fun n m _ _ => rfl⟩
  rw [(pages_tile rows query rfl two_pos built windows).1]
  rfl

end KhCommon.Sql
