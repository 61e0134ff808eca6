import Mathlib
import Neuralbase.Library.StableSort
import Neuralbase.Query.Eval

namespace Neuralbase.Query

open Neuralbase.Library

/-! Whole queries (`execute_query_inner` of `query_executor.rs`): common table expressions, set
operations, ORDER BY, LIMIT and OFFSET, around the SELECT bodies `S`. -/

structure OrderByExpr (F Q : Type) where
  expr : Expr F Q
  asc : Option Bool

inductive SetOperator where
  | union
  | intersect
  | except
deriving DecidableEq

inductive SetQuantifier where
  | all
  | distinct
  | byName
  | allByName
  | distinctByName
  | none
deriving DecidableEq

def SetQuantifier.isAll : SetQuantifier → Bool
  | .all | .allByName => true
  | _ => false

mutual

inductive SetExpr (F S Q : Type) where
  | select (select : S)
  | query (query : QueryExpr F S Q)
  | setOperation (op : SetOperator) (quantifier : SetQuantifier) (left right : SetExpr F S Q)
  | other (text : String)

inductive QueryExpr (F S Q : Type) where
  | mk (ctes : CteTables F S Q) (body : SetExpr F S Q) (orderBy : List (OrderByExpr F Q)) (limit offset : Option (Expr F Q))

inductive CteTables (F S Q : Type) where
  | nil
  | cons (name : String) (query : QueryExpr F S Q) (rest : CteTables F S Q)

end

abbrev Values (F : Type) := List (ScalarVal F)

abbrev QueryCatalog (F : Type) := String → Option (List (Row F))

/-- What whole queries are built on: the SELECT bodies, lower case and the sort of the standard library. -/
structure QueryExecutor (F S : Type) where
  executeSelectBare : S → QueryCatalog F → Row F → Evaluated F (QueryResult F)
  lowercase : String → String
  sortBy : (Values F → Values F → Ordering) → List (Values F) → List (Values F)

section Order

variable {F Q : Type} [Floats F]

def eqIgnoreAsciiCase (left right : String) : Bool :=
  left.toList.map Char.toLower == right.toList.map Char.toLower

/-- The result column that an element of ORDER BY stands for.  Only names and numbers do. -/
def orderIndex (columns : List String) : Expr F Q → Option Nat
  | .identifier name => columns.findIdx? fun column => eqIgnoreAsciiCase column name
  | .value (.number raw) => (parseNat 64 raw).bind fun n => if 0 < n then some (n - 1) else none
  | _ => none

def directed (asc : Option Bool) (order : Ordering) : Ordering :=
  if asc = some false then order.swap else order

/-- Values without an order count as equal, and an element that stands for no column is passed over. -/
def orderCmp (columns : List String) : List (OrderByExpr F Q) → Values F → Values F → Ordering
  | [], _, _ => .eq
  | item :: rest, left, right =>
    match orderIndex columns item.expr with
    | none => orderCmp columns rest left right
    | some i =>
      (directed item.asc (((left[i]?.getD .null).cmpVal (right[i]?.getD .null)).getD .eq)).then
        (orderCmp columns rest left right)

def applyOrderBy {S : Type} (exec : QueryExecutor F S) (result : QueryResult F) (order : List (OrderByExpr F Q)) : QueryResult F :=
  { result with rows := exec.sortBy (orderCmp result.columns order) result.rows }

end Order

section Slices

variable {F Q : Type}

def literalCount : Expr F Q → Option Nat
  | .value (.number raw) => parseNat 64 raw
  | _ => none

def applyLimitOffset (result : QueryResult F) (limit offset : Option (Expr F Q)) : QueryResult F :=
  let rows := result.rows.drop ((offset.bind literalCount).getD 0)
  { result with
    rows := match limit.bind literalCount with
      | some n => rows.take n
      | none => rows }

end Slices

section SetOperations

variable {F : Type} [Floats F]

/-- The derived `==` of two rows of values. -/
def sameRow (left right : Values F) : Bool :=
  left.length = right.length && (left.zip right).all fun pair => pair.1.equals pair.2

def retainNew (seen : List (Values F)) : List (Values F) → List (Values F)
  | [] => []
  | row :: rest =>
    if seen.any fun other => sameRow other row then retainNew seen rest
    else row :: retainNew (seen ++ [row]) rest

def combineRows (left right : List (Values F)) : SetOperator → List (Values F)
  | .union => left ++ right
  | .intersect => left.filter fun row => right.any fun other => sameRow other row
  | .except => left.filter fun row => !right.any fun other => sameRow other row

def combine (op : SetOperator) (quantifier : SetQuantifier) (left right : QueryResult F) : QueryResult F :=
  let rows := combineRows left.rows right.rows op
  { columns := left.columns, rows := if quantifier.isAll then rows else retainNew [] rows }

end SetOperations

section Execution

variable {F S Q : Type} [Floats F] (exec : QueryExecutor F S)

def finish (orderBy : List (OrderByExpr F Q)) (limit offset : Option (Expr F Q)) (result : QueryResult F) : QueryResult F :=
  applyLimitOffset (if orderBy.isEmpty then result else applyOrderBy exec result orderBy) limit offset

def cteRows (name : String) (result : QueryResult F) : List (Row F) :=
  result.rows.map fun values => (result.columns.zip values).map fun pair => (name ++ "." ++ pair.1, pair.2)

mutual

def executeQueryInner : QueryExpr F S Q → QueryCatalog F → Row F → Evaluated F (QueryResult F)
  | .mk ctes body orderBy limit offset, catalog, outerRow => do
    let catalog ← extendCatalog ctes catalog outerRow
    executeBody body orderBy limit offset catalog outerRow

/-- A query in parentheses is executed as it is: what stands behind the parentheses is dropped. -/
def executeBody : SetExpr F S Q → List (OrderByExpr F Q) → Option (Expr F Q) → Option (Expr F Q) →
    QueryCatalog F → Row F → Evaluated F (QueryResult F)
  | .select select, orderBy, limit, offset, catalog, outerRow => do
    let result ← exec.executeSelectBare select catalog outerRow
    pure (finish exec orderBy limit offset result)
  | .query inner, _, _, _, catalog, outerRow => executeQueryInner inner catalog outerRow
  | .setOperation op quantifier left right, orderBy, limit, offset, catalog, outerRow => do
    let leftResult ← executeSetexpr left catalog outerRow
    let rightResult ← executeSetexpr right catalog outerRow
    pure (finish exec orderBy limit offset (combine op quantifier leftResult rightResult))
  | .other _, _, _, _, _, _ => .error (.unsupported "set expression type")

def executeSetexpr : SetExpr F S Q → QueryCatalog F → Row F → Evaluated F (QueryResult F)
  | .select select, catalog, outerRow => exec.executeSelectBare select catalog outerRow
  | .query inner, catalog, outerRow => executeQueryInner inner catalog outerRow
  | .setOperation op quantifier left right, catalog, outerRow => do
    let leftResult ← executeSetexpr left catalog outerRow
    let rightResult ← executeSetexpr right catalog outerRow
    pure (finish exec ([] : List (OrderByExpr F Q)) none none (combine op quantifier leftResult rightResult))
  | .other _, _, _ => .error (.unsupported "set expression in combination query")

def extendCatalog : CteTables F S Q → QueryCatalog F → Row F → Evaluated F (QueryCatalog F)
  | .nil, catalog, _ => pure catalog
  | .cons name query rest, catalog, outerRow => do
    let result ← executeQueryInner query catalog outerRow
    extendCatalog rest (Function.update catalog (exec.lowercase name) (some (cteRows (exec.lowercase name) result))) outerRow

end

end Execution

section Plain

def plainExecutor : QueryExecutor Int (QueryResult Int) where
  executeSelectBare select _ _ := .ok select
  lowercase := id
  sortBy := insertionSortBy

end Plain

end Neuralbase.Query
