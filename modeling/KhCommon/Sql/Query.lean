import KhCommon.Lib.Placeholders
import Mathlib.Data.List.Infix

/-! `kh_common.sql.query`: the tree a query is built as, the builder methods, and
the two traversals that `build` returns, the text and the parameters. A failed
`assert` is `none`; the asserts on types are the types here. A value is whatever
the driver takes, `limit` and `offset` are parameters too. `None` and the empty
string are both falsy where a function or an alias is tested. -/

namespace KhCommon.Sql

variable {V : Type}

inductive Order
  | ascending | ascendingNullsFirst | ascendingNullsLast
  | descending | descendingNullsFirst | descendingNullsLast

def Order.value : Order → String
  | ascending => "ASC"
  | ascendingNullsFirst => "ASC NULLS FIRST"
  | ascendingNullsLast => "ASC NULLS LAST"
  | descending => "DESC"
  | descendingNullsFirst => "DESC NULLS FIRST"
  | descendingNullsLast => "DESC NULLS LAST"

inductive JoinType
  | inner | outer | cross | left | right

def JoinType.value : JoinType → String
  | inner => "INNER JOIN"
  | outer => "FULL OUTER JOIN"
  | cross => "CROSS JOIN"
  | left => "LEFT JOIN"
  | right => "RIGHT JOIN"

inductive Operator
  | equal | notEqual | greaterThan | greaterThanEqualTo | lessThan | lessThanEqualTo
  | like | notLike | within | notIn | isNull | isNotNull

def Operator.isUnary : Operator → Bool
  | isNull => true
  | isNotNull => true
  | _ => false

/-- `operator.value.format(field, value)`; the templates of unary operators take the field alone. -/
def Operator.format : Operator → (field value : String) → String
  | equal, field, value => field ++ " = " ++ value
  | notEqual, field, value => field ++ " != " ++ value
  | greaterThan, field, value => field ++ " > " ++ value
  | greaterThanEqualTo, field, value => field ++ " >= " ++ value
  | lessThan, field, value => field ++ " < " ++ value
  | lessThanEqualTo, field, value => field ++ " <= " ++ value
  | like, field, value => field ++ " LIKE " ++ value
  | notLike, field, value => field ++ " NOT LIKE " ++ value
  | within, field, value => field ++ " IN " ++ value
  | notIn, field, value => field ++ " NOT IN " ++ value
  | isNull, field, _ => field ++ " IS NULL"
  | isNotNull, field, _ => field ++ " IS NOT NULL"

structure Value (V : Type) where
  value : V
  function : Option String

structure Field where
  table : String
  column : String
  function : Option String

/-- A table; `__init__` accepts names of the form `kheina.schema.table` only. -/
structure Table where
  string : String
  «alias» : Option String
  kheina : "kheina.".toList <+: string.toList
  dots : string.toList.count '.' = 2

mutual

inductive Operand (V : Type)
  | field (field : Field)
  | value (value : Value V)
  | query (query : Query V)

structure Where (V : Type) where
  field : Operand V
  operator : Operator
  value : Operand V

structure Join (V : Type) where
  _joinType : JoinType
  _table : Table
  _where : List (Where V)

structure Query (V : Type) where
  _table : Table
  _joins : List (Join V)
  _select : List Field
  _where : List (Where V)
  _having : List (Where V)
  _group : List Field
  _order : List (Field × Order)
  _limit : Option ℤ
  _offset : Option ℤ
  _function : Option String

end

/-! ## Builder methods -/

def Table.init (string : String) («alias» : Option String) : Option Table :=
  if h : "kheina.".toList <+: string.toList ∧ string.toList.count '.' = 2 then
    some ⟨string, «alias», h.1, h.2⟩
  else none

def Join.init (joinType : JoinType) (table : Table) : Join V := ⟨joinType, table, []⟩

def Join.«where» (join : Join V) (w : List (Where V)) : Join V :=
  { join with _where := join._where ++ w }

namespace Query

def init (table : Table) : Query V := ⟨table, [], [], [], [], [], [], none, none, none⟩

def select (query : Query V) (field : List Field) : Query V :=
  { query with _select := query._select ++ field }

def join (query : Query V) (join : List (Join V)) : Query V :=
  { query with _joins := query._joins ++ join }

def «where» (query : Query V) (w : List (Where V)) : Query V :=
  { query with _where := query._where ++ w }

def group (query : Query V) (field : List Field) : Query V :=
  { query with _group := query._group ++ field }

def having (query : Query V) (having : List (Where V)) : Query V :=
  { query with _having := query._having ++ having }

def order (query : Query V) (field : Field) (order : Order) : Query V :=
  { query with _order := query._order ++ [(field, order)] }

def limit (query : Query V) (records : ℤ) : Option (Query V) :=
  if records > 0 then some { query with _limit := some records } else none

def offset (query : Query V) (records : ℤ) : Option (Query V) :=
  if records > 0 then some { query with _offset := some records } else none

def page (query : Query V) (page : ℤ) : Option (Query V) :=
  if page > 0 then
    match query._limit with
    | some limit =>
      if limit > 0 then some { query with _offset := some (limit * (page - 1)) } else none
    | none => none
  else none

def function (query : Query V) (function : Option String) : Query V :=
  { query with _function := function }

end Query

/-! ## The text -/

/-- The name tested by `if self.function`; empty when there is none. -/
def nameOf (function : Option String) : String := function.getD ""

def Table.str (table : Table) : String :=
  if nameOf table.«alias» = "" then table.string else table.string ++ " AS " ++ nameOf table.«alias»

def Field.str (field : Field) : String :=
  if nameOf field.function = "" then field.table ++ "." ++ field.column
  else nameOf field.function ++ "(" ++ field.table ++ "." ++ field.column ++ ")"

def Value.str (value : Value V) : String :=
  if nameOf value.function = "" then "%s" else nameOf value.function ++ "(%s)"

def clause (before sep : String) (items : List String) : String :=
  if items.isEmpty then "" else before ++ sep.intercalate items

def joinText (joinType : JoinType) (table : Table) (wheres : List String) : String :=
  joinType.value ++ " " ++ table.str ++ " ON " ++ " AND ".intercalate wheres

def queryText (table : Table) (select : List Field) (joins wheres : List String)
    (group : List Field) (having : List String) (order : List (Field × Order))
    (limit offset : Option String) : String :=
  "SELECT " ++ ",".intercalate (select.map Field.str) ++ " FROM " ++ table.str ++
    clause " " " " joins ++
    clause " WHERE " " AND " wheres ++
    clause " GROUP BY " "," (group.map Field.str) ++
    clause " HAVING " " AND " having ++
    clause " ORDER BY " "," (order.map fun x => x.1.str ++ " " ++ x.2.value) ++
    clause " LIMIT " "" limit.toList ++
    clause " OFFSET " "" offset.toList

/-- `__str__` of a query, from the text of its `__build_query__`. -/
def parenthesize (function : Option String) (text : String) : String :=
  nameOf function ++ "(" ++ text ++ ")"

def truthy (records : Option ℤ) : Option ℤ := records.filter (· ≠ 0)

mutual

def Operand.str : Operand V → Option String
  | .field field => some field.str
  | .value value => some value.str
  | .query query => (Query.buildQuery query).map (parenthesize query._function)

def Where.str : Where V → Option String
  | ⟨field, operator, value⟩ => do
    let field ← field.str
    if operator.isUnary then return operator.format field ""
    let value ← value.str
    return operator.format field value

def Where.strs : List (Where V) → Option (List String)
  | [] => some []
  | w :: ws => do
    let text ← w.str
    let texts ← Where.strs ws
    return text :: texts

def Join.str : Join V → Option String
  | ⟨joinType, table, wheres⟩ =>
    if wheres.isEmpty then none else do
      let wheres ← Where.strs wheres
      return joinText joinType table wheres

def Join.strs : List (Join V) → Option (List String)
  | [] => some []
  | join :: joins => do
    let text ← join.str
    let texts ← Join.strs joins
    return text :: texts

def Query.buildQuery : Query V → Option String
  | ⟨table, joins, select, wheres, having, group, order, limit, offset, _⟩ =>
    if select.isEmpty then none else do
      let joins ← Join.strs joins
      let wheres ← Where.strs wheres
      let having ← Where.strs having
      return queryText table select joins wheres group having order
        ((truthy limit).map fun _ => "%s") ((truthy offset).map fun _ => "%s")

end

/-! ## The parameters -/

inductive Param (V : Type)
  | value (value : V)
  | records (records : ℤ)
  deriving DecidableEq

mutual

def Operand.params : Operand V → Option (List (Param V))
  | .field _ => some []
  | .value value => some [.value value.value]
  | .query query => query.params

def Where.params : Where V → Option (List (Param V))
  | ⟨field, operator, value⟩ => do
    let field ← field.params
    if operator.isUnary then return field
    let value ← value.params
    return field ++ value

def Where.paramsAll : List (Where V) → Option (List (Param V))
  | [] => some []
  | w :: ws => do
    let params ← w.params
    let later ← Where.paramsAll ws
    return params ++ later

def Join.params : Join V → Option (List (Param V))
  | ⟨_, _, wheres⟩ => Where.paramsAll wheres

def Join.paramsAll : List (Join V) → Option (List (Param V))
  | [] => some []
  | join :: joins => do
    let params ← join.params
    let later ← Join.paramsAll joins
    return params ++ later

def Query.params : Query V → Option (List (Param V))
  | ⟨_, joins, select, wheres, having, _, _, limit, offset, _⟩ =>
    if select.isEmpty then none else do
      let joins ← Join.paramsAll joins
      let wheres ← Where.paramsAll wheres
      let having ← Where.paramsAll having
      return joins ++ wheres ++ having ++ (truthy limit).toList.map .records ++
        (truthy offset).toList.map .records

end

def Query.build (query : Query V) : Option (String × List (Param V)) := do
  let text ← query.buildQuery
  let params ← query.params
  return (text ++ ";", params)

end KhCommon.Sql
