import KhCommon.Sql.Query

/-! The text and the parameters of a built query belong together. `render` writes
every value, limit and offset in place, by one traversal of the tree; filling the
placeholders of `build` from the left to the right gives the same text. It rests
on names that are free of `%`, so that every `%s` of the text is a placeholder. -/

namespace KhCommon.Sql

open Placeholders

variable {V : Type}

/-! ## Rendering in place -/

def Value.render (written : Param V → String) (value : Value V) : String :=
  if nameOf value.function = "" then written (.value value.value)
  else nameOf value.function ++ "(" ++ written (.value value.value) ++ ")"

mutual

def Operand.render (written : Param V → String) : Operand V → String
  | .field field => field.str
  | .value value => value.render written
  | .query query => parenthesize query._function (Query.render written query)

def Where.render (written : Param V → String) : Where V → String
  | ⟨field, operator, value⟩ => operator.format (field.render written) (value.render written)

def Where.renders (written : Param V → String) : List (Where V) → List String
  | [] => []
  | w :: ws => w.render written :: Where.renders written ws

def Join.render (written : Param V → String) : Join V → String
  | ⟨joinType, table, wheres⟩ => joinText joinType table (Where.renders written wheres)

def Join.renders (written : Param V → String) : List (Join V) → List String
  | [] => []
  | join :: joins => join.render written :: Join.renders written joins

def Query.render (written : Param V → String) : Query V → String
  | ⟨table, joins, select, wheres, having, group, order, limit, offset, _⟩ =>
    queryText table select (Join.renders written joins) (Where.renders written wheres) group
      (Where.renders written having) order ((truthy limit).map (written ∘ .records))
      ((truthy offset).map (written ∘ .records))

end

/-! ## Proper queries -/

def Field.Plain (field : Field) : Prop :=
  Placeholders.Plain field.table ∧ Placeholders.Plain field.column ∧
    Placeholders.Plain (nameOf field.function)

def Table.Plain (table : Table) : Prop :=
  Placeholders.Plain table.string ∧ Placeholders.Plain (nameOf table.«alias»)

mutual

def Operand.Proper : Operand V → Prop
  | .field field => field.Plain
  | .value value => Placeholders.Plain (nameOf value.function)
  | .query query => Query.Proper query

def Where.Proper : Where V → Prop
  | ⟨field, _, value⟩ => field.Proper ∧ value.Proper

def Where.AllProper : List (Where V) → Prop
  | [] => True
  | w :: ws => w.Proper ∧ Where.AllProper ws

def Join.Proper : Join V → Prop
  | ⟨_, table, wheres⟩ => table.Plain ∧ wheres ≠ [] ∧ Where.AllProper wheres

def Join.AllProper : List (Join V) → Prop
  | [] => True
  | join :: joins => join.Proper ∧ Join.AllProper joins

/-- Names are free of `%`, and no list that an `assert` looks at is empty. -/
def Query.Proper : Query V → Prop
  | ⟨table, joins, select, wheres, having, group, order, _, _, function⟩ =>
    table.Plain ∧ Join.AllProper joins ∧ select ≠ [] ∧ (∀ field ∈ select, field.Plain) ∧
      Where.AllProper wheres ∧ Where.AllProper having ∧ (∀ field ∈ group, field.Plain) ∧
      (∀ x ∈ order, x.1.Plain) ∧ Placeholders.Plain (nameOf function)

end

theorem Field.plain_str {field : Field} (h : field.Plain) : Placeholders.Plain field.str := by
  obtain ⟨htable, hcolumn, hfunction⟩ := h
  unfold Field.str
  split_ifs <;> simp only [plain_append, htable, hcolumn, hfunction] <;> decide

theorem Table.plain_str {table : Table} (h : table.Plain) : Placeholders.Plain table.str := by
  unfold Table.str
  split_ifs
  · exact h.1
  · simp only [plain_append, h.1, h.2]
    decide

theorem JoinType.plain_value (joinType : JoinType) : Placeholders.Plain joinType.value := by
  cases joinType <;> decide

theorem Order.plain_value (order : Order) : Placeholders.Plain order.value := by
  cases order <;> decide

variable {written : Param V → String}

theorem Value.stands {value : Value V} (h : Placeholders.Plain (nameOf value.function)) :
    Stands written value.str [.value value.value] (value.render written) := by
  unfold Value.str Value.render
  split_ifs
  · exact stands_slot _
  · have slot : Stands written ("%s" ++ ")") [.value value.value]
        (written (.value value.value) ++ ")") := (stands_slot _).append_plain (by decide)
    have opened := slot.plain_append (show Placeholders.Plain "(" by decide)
    have text : "(%s)" = "(" ++ ("%s" ++ ")") := by decide
    simpa only [String.append_assoc, text] using opened.plain_append h

theorem Operator.stands_binary {operator : Operator} (h : operator.isUnary = false)
    {field field' value value' : String} {ps qs : List (Param V)}
    (hfield : Stands written field ps field') (hvalue : Stands written value qs value') :
    Stands written (operator.format field value) (ps ++ qs) (operator.format field' value') := by
  cases operator with
  | isNull => cases h
  | isNotNull => cases h
  | _ => exact (hfield.append_plain (by decide)).append hvalue

theorem Operator.stands_unary {operator : Operator} (h : operator.isUnary = true)
    {field field' : String} {ps : List (Param V)} (hfield : Stands written field ps field')
    (value value' : String) :
    Stands written (operator.format field value) ps (operator.format field' value') := by
  cases operator with
  | isNull => exact hfield.append_plain (by decide)
  | isNotNull => exact hfield.append_plain (by decide)
  | _ => cases h

theorem stands_clause (before sep : String) (hbefore : Placeholders.Plain before)
    (hsep : Placeholders.Plain sep) {items outs : List String} {params : List (Param V)}
    (h : StandsAll written items params outs) :
    Stands written (clause before sep items) params (clause before sep outs) := by
  unfold clause
  cases h with
  | nil => exact stands_of_plain (show Placeholders.Plain "" by decide)
  | cons first rest => exact (StandsAll.cons first rest).intercalate hsep |>.plain_append hbefore

theorem standsAll_records (records : Option ℤ) :
    StandsAll written (records.map fun _ => "%s").toList (records.toList.map .records)
      (records.map (written ∘ .records)).toList := by
  cases records with
  | none => exact .nil
  | some n => exact .cons (stands_slot (Param.records n)) .nil

theorem stands_joinText (joinType : JoinType) {table : Table} (htable : table.Plain)
    {texts outs : List String} {params : List (Param V)} (h : StandsAll written texts params outs) :
    Stands written (joinText joinType table texts) params (joinText joinType table outs) := by
  refine (h.intercalate (by decide)).plain_append ?_
  simp only [plain_append, joinType.plain_value, Table.plain_str htable]
  decide

theorem stands_parenthesize {function : Option String} (h : Placeholders.Plain (nameOf function))
    {text out : String} {params : List (Param V)} (htext : Stands written text params out) :
    Stands written (parenthesize function text) params (parenthesize function out) := by
  refine (htext.plain_append ?_).append_plain (by decide)
  simp only [plain_append, h]
  decide

theorem stands_queryText {table : Table} {select group : List Field} {order : List (Field × Order)}
    (htable : table.Plain) (hselect : ∀ field ∈ select, field.Plain)
    (hgroup : ∀ field ∈ group, field.Plain) (horder : ∀ x ∈ order, x.1.Plain)
    {joins wheres having joins' wheres' having' : List String} {js ws hs : List (Param V)}
    (hjoins : StandsAll written joins js joins') (hwheres : StandsAll written wheres ws wheres')
    (hhaving : StandsAll written having hs having') (limit offset : Option ℤ) :
    Stands written
      (queryText table select joins wheres group having order
        (limit.map fun _ => "%s") (offset.map fun _ => "%s"))
      (js ++ ws ++ hs ++ limit.toList.map .records ++ offset.toList.map .records)
      (queryText table select joins' wheres' group having' order
        (limit.map (written ∘ .records)) (offset.map (written ∘ .records))) := by
  have fields : ∀ fs : List Field, (∀ field ∈ fs, field.Plain) →
      StandsAll written (fs.map Field.str) [] (fs.map Field.str) := by
    intro fs hfs
    refine standsAll_of_plain fun text htext => ?_
    obtain ⟨field, hfield, rfl⟩ := List.mem_map.mp htext
    exact Field.plain_str (hfs field hfield)
  have orders : StandsAll written (order.map fun x => x.1.str ++ " " ++ x.2.value) []
      (order.map fun x => x.1.str ++ " " ++ x.2.value) := by
    refine standsAll_of_plain fun text htext => ?_
    obtain ⟨x, hx, rfl⟩ := List.mem_map.mp htext
    simp only [plain_append, Field.plain_str (horder x hx), Order.plain_value]
    decide
  have head : Stands written ("SELECT " ++ ",".intercalate (select.map Field.str) ++ " FROM " ++
      table.str) [] ("SELECT " ++ ",".intercalate (select.map Field.str) ++ " FROM " ++
      table.str) :=
    ((((fields select hselect).intercalate (by decide)).plain_append (by decide)).append_plain
      (by decide)).append_plain (Table.plain_str htable)
  have body := head.append (stands_clause " " " " (by decide) (by decide) hjoins)
    |>.append (stands_clause " WHERE " " AND " (by decide) (by decide) hwheres)
    |>.append (stands_clause " GROUP BY " "," (by decide) (by decide) (fields group hgroup))
    |>.append (stands_clause " HAVING " " AND " (by decide) (by decide) hhaving)
    |>.append (stands_clause " ORDER BY " "," (by decide) (by decide) orders)
    |>.append (stands_clause " LIMIT " "" (by decide) (by decide) (standsAll_records limit))
    |>.append (stands_clause " OFFSET " "" (by decide) (by decide) (standsAll_records offset))
  simp only [List.nil_append, List.append_nil] at body
  exact body

/-! ## The two traversals agree -/

/-- A traversal gave a text, another gave parameters, and these fill the text to `out`. -/
def Agree (written : Param V → String) (text : Option String) (params : Option (List (Param V)))
    (out : String) : Prop :=
  ∃ t ps, text = some t ∧ params = some ps ∧ Stands written t ps out

def AgreeAll (written : Param V → String) (texts : Option (List String))
    (params : Option (List (Param V))) (outs : List String) : Prop :=
  ∃ ts ps, texts = some ts ∧ params = some ps ∧ StandsAll written ts ps outs

mutual

theorem Operand.agree : ∀ operand : Operand V, operand.Proper →
    Agree written operand.str operand.params (operand.render written)
  | .field field, h => ⟨_, _, rfl, rfl, stands_of_plain (Field.plain_str h)⟩
  | .value value, h => ⟨_, _, rfl, rfl, Value.stands h⟩
  | .query query, h => by
    obtain ⟨text, params, htext, hparams, hstands⟩ := Query.agree query h
    have hfunction : Placeholders.Plain (nameOf query._function) := by
      cases query
      simp only [Operand.Proper, Query.Proper] at h
      exact h.2.2.2.2.2.2.2.2
    refine ⟨_, _, ?_, ?_, stands_parenthesize hfunction hstands⟩
    · rw [Operand.str, htext, Option.map_some]
    · rw [Operand.params, hparams]

theorem Where.agree : ∀ w : Where V, w.Proper → Agree written w.str w.params (w.render written)
  | ⟨field, operator, value⟩, h => by
    rw [Where.Proper] at h
    obtain ⟨field', ps, hfield, hps, stands⟩ := Operand.agree field h.1
    obtain ⟨value', qs, hvalue, hqs, stands'⟩ := Operand.agree value h.2
    rw [Where.str, Where.params, Where.render, hfield, hps, hvalue, hqs]
    cases unary : operator.isUnary with
    | true => exact ⟨_, _, by simp, by simp, Operator.stands_unary unary stands "" _⟩
    | false => exact ⟨_, _, by simp, by simp, Operator.stands_binary unary stands stands'⟩

theorem Where.agreeAll : ∀ ws : List (Where V), Where.AllProper ws →
    AgreeAll written (Where.strs ws) (Where.paramsAll ws) (Where.renders written ws)
  | [], _ => ⟨_, _, rfl, rfl, .nil⟩
  | w :: ws, h => by
    rw [Where.AllProper] at h
    obtain ⟨text, ps, htext, hps, stands⟩ := Where.agree w h.1
    obtain ⟨texts, qs, htexts, hqs, later⟩ := Where.agreeAll ws h.2
    rw [Where.strs, Where.paramsAll, Where.renders, htext, hps, htexts, hqs]
    exact ⟨_, _, rfl, rfl, .cons stands later⟩

theorem Join.agree : ∀ join : Join V, join.Proper →
    Agree written join.str join.params (join.render written)
  | ⟨joinType, table, wheres⟩, h => by
    rw [Join.Proper] at h
    obtain ⟨texts, ps, htexts, hps, stands⟩ := Where.agreeAll wheres h.2.2
    rw [Join.str, Join.params, Join.render, htexts, hps, if_neg (by simpa using h.2.1)]
    exact ⟨_, _, rfl, rfl, stands_joinText joinType h.1 stands⟩

theorem Join.agreeAll : ∀ joins : List (Join V), Join.AllProper joins →
    AgreeAll written (Join.strs joins) (Join.paramsAll joins) (Join.renders written joins)
  | [], _ => ⟨_, _, rfl, rfl, .nil⟩
  | join :: joins, h => by
    rw [Join.AllProper] at h
    obtain ⟨text, ps, htext, hps, stands⟩ := Join.agree join h.1
    obtain ⟨texts, qs, htexts, hqs, later⟩ := Join.agreeAll joins h.2
    rw [Join.strs, Join.paramsAll, Join.renders, htext, hps, htexts, hqs]
    exact ⟨_, _, rfl, rfl, .cons stands later⟩

theorem Query.agree : ∀ query : Query V, query.Proper →
    Agree written query.buildQuery query.params (query.render written)
  | ⟨table, joins, select, wheres, having, group, order, limit, offset, function⟩, h => by
    rw [Query.Proper] at h
    obtain ⟨htable, hjoins, hselect, hfields, hwheres, hhaving, hgroup, horder, -⟩ := h
    obtain ⟨js, ps, hjs, hps, stands⟩ := Join.agreeAll joins hjoins
    obtain ⟨ws, qs, hws, hqs, stands'⟩ := Where.agreeAll wheres hwheres
    obtain ⟨hs, rs, hhs, hrs, stands''⟩ := Where.agreeAll having hhaving
    rw [Query.buildQuery, Query.params, Query.render, hjs, hps, hws, hqs, hhs, hrs,
      if_neg (by simpa using hselect)]
    exact ⟨_, _, rfl, by rw [if_neg (by simpa using hselect)]; rfl,
      stands_queryText htable hfields hgroup horder stands stands' stands'' _ _⟩

end

/-- `build` returns as many parameters as placeholders, and the parameters written in place of
the placeholders from the left to the right give the query rendered directly. -/
theorem Query.build_fills (written : Param V → String) (query : Query V) (h : query.Proper) :
    ∃ text params, query.build = some (text, params) ∧
      Placeholders.count text = params.length ∧
      Placeholders.fill written text params = some (query.render written ++ ";") := by
  have agree : Agree written query.buildQuery query.params (query.render written) :=
    Query.agree query h
  obtain ⟨text, params, htext, hparams, stands⟩ := agree
  have filled := (stands.append_plain (show Placeholders.Plain ";" by decide)).fill
  exact ⟨_, _, by rw [Query.build, htext, hparams]; rfl, count_of_fill filled, filled⟩

theorem Query.build_fills_nested :
    let table : Table := ⟨"kheina.public.users", none, by decide, by decide⟩
    let field : Field := ⟨"users", "id", none⟩
    let inner : Query ℕ := ((Query.init table).select [field]).where
      [⟨.value ⟨1, none⟩, .equal, .value ⟨2, some "lower"⟩⟩]
    let query : Query ℕ := ((Query.init table).select [field]).where
      [⟨.field field, .within, .query inner⟩, ⟨.value ⟨3, none⟩, .isNull, .value ⟨4, none⟩⟩]
    ∃ text params, query.build = some (text, params) ∧
      Placeholders.count text = params.length ∧
      Placeholders.fill (fun _ => "x") text params = some (query.render (fun _ => "x") ++ ";") := by
  intro table field inner query
  exact Query.build_fills (fun _ => "x") query (by
    simp [query, inner, field, table, Query.init, Query.select, Query.where, Query.Proper,
      Join.AllProper, Where.AllProper, Where.Proper, Operand.Proper, Table.Plain, Field.Plain,
      nameOf, Placeholders.Plain])

/-- The repository's own test of `build`, cut to a join, a nested query and a limit. -/
example :
    let table (name : String) (h₁ : "kheina.".toList <+: name.toList)
      (h₂ : name.toList.count '.' = 2) : Table := ⟨name, none, h₁, h₂⟩
    let value (n : ℕ) : Operand ℕ := .value ⟨n, none⟩
    let inner := (((Query.init (table "kheina.test.test3" (by decide) (by decide))).select
      [⟨"test3", "test", none⟩]).where [⟨value 8, .within, value 9⟩]).function (some "all")
    let join := (Join.init .left (table "kheina.test.test2" (by decide) (by decide))).where
      [⟨value 7, .notEqual, .query inner⟩]
    (((((Query.init (table "kheina.test.test" (by decide) (by decide))).select
      [⟨"test", "test", none⟩]).where [⟨value 1, .notIn, value 2⟩]).join [join]).limit 12).bind
        Query.build =
      some ("SELECT test.test FROM kheina.test.test LEFT JOIN kheina.test.test2 ON %s != " ++
        "all(SELECT test3.test FROM kheina.test.test3 WHERE %s IN %s) " ++
        "WHERE %s NOT IN %s LIMIT %s;",
        [.value 7, .value 8, .value 9, .value 1, .value 2, .records 12]) := by
  decide +kernel

end KhCommon.Sql
