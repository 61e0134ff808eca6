import Neuralbase.Query.Eval

namespace Neuralbase.Query

/-! The FROM clause of the row-oriented executor (`resolve_from` of `query_executor.rs`): the parts
of the WHERE that mention one table are applied to its rows before they are joined, and an equality
of two columns chooses a hash join. -/

def crossJoinBudget : Nat := 50000

def intermediateRowsBudget : Nat := 200000

inductive TableFactor (Q : Type) where
  | table (name : String) (label : Option String)
  | derived (subquery : Q) (label : Option String)
  | other

inductive JoinConstraint (F Q : Type) where
  | on (expr : Expr F Q)
  | other

inductive JoinOperator (F Q : Type) where
  | inner (constraint : JoinConstraint F Q)
  | leftOuter (constraint : JoinConstraint F Q)
  | other

def JoinConstraint.onExpr {F Q : Type} : JoinConstraint F Q → Option (Expr F Q)
  | .on expr => some expr
  | .other => none

def JoinOperator.onExpr {F Q : Type} : JoinOperator F Q → Option (Expr F Q)
  | .inner constraint | .leftOuter constraint => constraint.onExpr
  | .other => none

def JoinOperator.isLeftOuter {F Q : Type} : JoinOperator F Q → Bool
  | .leftOuter _ => true
  | .inner _ | .other => false

structure Join (F Q : Type) where
  relation : TableFactor Q
  joinOperator : JoinOperator F Q

structure TableWithJoins (F Q : Type) where
  relation : TableFactor Q
  joins : List (Join F Q)

/-- What a FROM clause is resolved against. -/
structure Executor (F Q : Type) extends Env F Q where
  tables : String → Option (List (Row F))
  toLowercase : String → String
  /-- `format!("{f:.10}")`. -/
  formatFloat : F → String
  /-- The order in which the members of a hash set come out. -/
  setOrder : List (String × String) → List (String × String)

section Names

/-- What follows the last dot. -/
def afterDot (name : String) : Option String :=
  if '.' ∈ name.toList then some (String.ofList (name.toList.reverse.takeWhile (· ≠ '.')).reverse) else none

def colMatches (name qualified : String) : Bool :=
  name = qualified || afterDot qualified = some name

def qualifyRow {F : Type} (row : Row F) (label : String) : Row F :=
  row.map fun entry => (label ++ "." ++ (afterDot entry.1).getD entry.1, entry.2)

/-- The column names of rows are those of the first one. -/
def columnsOf {F : Type} (rows : List (Row F)) : List String :=
  (rows.head?.map fun row => row.map Prod.fst).getD []

def nullRow {F : Type} (columns : List String) : Row F := columns.map fun column => (column, .null)

end Names

section EquiPairs

variable {F Q : Type} (executor : Executor F Q)

def exprColRef : Expr F Q → Option String
  | .identifier name => some (executor.toLowercase name)
  | .compoundIdentifier parts => some (qualifiedName (parts.map executor.toLowercase))
  | _ => none

def canonicalPair (pair : String × String) : String × String :=
  if pair.1 ≤ pair.2 then pair else (pair.2, pair.1)

/-- `v.sort(); v.dedup()`. -/
def sortDedup (pairs : List (String × String)) : List (String × String) :=
  (pairs.insertionSort fun left right => left.1 < right.1 ∨ (left.1 = right.1 ∧ left.2 ≤ right.2)).destutter (· ≠ ·)

/-- The pairs of columns that are equal wherever the condition holds. -/
def extractEquiPairs : Expr F Q → List (String × String)
  | .binaryOp left .eq right =>
    match exprColRef executor left, exprColRef executor right with
    | some left, some right => [(left, right)]
    | _, _ => []
  | .binaryOp left .and right => sortDedup (extractEquiPairs left ++ extractEquiPairs right)
  | .binaryOp left .or right =>
    let leftSet := ((extractEquiPairs left).map canonicalPair).dedup
    let rightSet := (extractEquiPairs right).map canonicalPair
    executor.setOrder (leftSet.filter (· ∈ rightSet))
  | .nested inner => extractEquiPairs inner
  | _ => []

def joinKeyOf (resultColumns newColumns : List String) (left right : String) : Option (String × String) :=
  match resultColumns.find? (colMatches left), newColumns.find? (colMatches right) with
  | some leftKey, some rightKey => some (leftKey, rightKey)
  | _, _ => none

/-- The first pair with one side among the columns of the result and the other among the new ones. -/
def findJoinKey (result newRows : List (Row F)) (equiPairs : List (String × String)) : Option (String × String) :=
  equiPairs.findSome? fun pair =>
    (joinKeyOf (columnsOf result) (columnsOf newRows) pair.1 pair.2).or
      (joinKeyOf (columnsOf result) (columnsOf newRows) pair.2 pair.1)

end EquiPairs

section HashJoin

variable {F Q : Type} (executor : Executor F Q)

def scalarHashKey : ScalarVal F → String
  | .int value => "i" ++ toString value
  | .float value => "f" ++ executor.formatFloat value
  | .text text => "t" ++ text
  | .date days => "d" ++ toString days
  | .bool value => "b" ++ toString value
  | .null => "null"

/-- The row is in the index under the key: a NULL is in no index. -/
def indexedUnder (rightKey key : String) (row : Row F) : Bool :=
  match rowGet row rightKey with
  | some .null | none => false
  | some value => scalarHashKey executor value = key

/-- Whether the index finds the right row for the left one. -/
def probe (leftKey rightKey : String) (leftRow rightRow : Row F) : Bool :=
  (rowGet leftRow leftKey).any fun value => indexedUnder executor rightKey (scalarHashKey executor value) rightRow

/-- A row is pushed only below the budget. -/
def pushRow (operation : String) (out : List (Row F)) (row : Row F) : Evaluated F (List (Row F)) :=
  if intermediateRowsBudget ≤ out.length then
    .error (.unsupported s!"{operation} output exceeds budget ({intermediateRowsBudget})")
  else .ok (out ++ [row])

def hashJoinKeyed (left right : List (Row F)) (leftKey rightKey : String) : Evaluated F (List (Row F)) :=
  left.foldlM (fun out leftRow => ((right.filter (probe executor leftKey rightKey leftRow)).map (leftRow ++ ·)).foldlM
    (pushRow "hash join") out) []

def crossProduct (left right : List (Row F)) : Evaluated F (List (Row F)) :=
  left.foldlM (fun out leftRow => (right.map (leftRow ++ ·)).foldlM (pushRow "cross product") out) []

end HashJoin

section Predicates

variable {F Q : Type}

def splitConjuncts : Expr F Q → List (Expr F Q)
  | .binaryOp left .and right => splitConjuncts left ++ splitConjuncts right
  | expr => [expr]

mutual

/-- Every column that the expression mentions is one of the row.  Subqueries, casts, EXTRACT and TRIM
are not looked into. -/
def exprRefsOnlyRow (row : Row F) : Expr F Q → Bool
  | .identifier name => (rowGet row name).isSome
  | .compoundIdentifier parts => (rowGet row (qualifiedName parts)).isSome
  | .binaryOp left _ right => exprRefsOnlyRow row left && exprRefsOnlyRow row right
  | .unaryOp _ inner => exprRefsOnlyRow row inner
  | .nested inner => exprRefsOnlyRow row inner
  | .between inner _ low high => exprRefsOnlyRow row inner && exprRefsOnlyRow row low && exprRefsOnlyRow row high
  | .like inner pattern _ _ => exprRefsOnlyRow row inner && exprRefsOnlyRow row pattern
  | .isNull inner => exprRefsOnlyRow row inner
  | .isNotNull inner => exprRefsOnlyRow row inner
  | .inList inner list _ => exprRefsOnlyRow row inner && exprsRefOnlyRow row list
  | .case operand branches elseResult =>
    optionRefsOnlyRow row operand && branchesRefOnlyRow row branches && optionRefsOnlyRow row elseResult
  | .function _ args => exprsRefOnlyRow row args
  | .value _ => true
  | .scalar _ => true
  | .typedString _ _ => true
  | .subquery _ => false
  | .existsQuery _ _ => false
  | .inSubquery _ _ _ => false
  | .cast _ _ => false
  | .extract _ _ => false
  | .trim _ => false
  | .other _ => false

def exprsRefOnlyRow (row : Row F) : List (Expr F Q) → Bool
  | [] => true
  | expr :: rest => exprRefsOnlyRow row expr && exprsRefOnlyRow row rest

def optionRefsOnlyRow (row : Row F) : Option (Expr F Q) → Bool
  | none => true
  | some expr => exprRefsOnlyRow row expr

def branchesRefOnlyRow (row : Row F) : List (Expr F Q × Expr F Q) → Bool
  | [] => true
  | (condition, result) :: rest =>
    exprRefsOnlyRow row condition && exprRefsOnlyRow row result && branchesRefOnlyRow row rest

end

end Predicates

section From

variable {F Q : Type} [Floats F] (executor : Executor F Q) (outerRow : Row F)

/-- Whether the row passes an ON or a WHERE that may be absent. -/
def passes (condition : Option (Expr F Q)) (row : Row F) : Bool :=
  condition.all fun expr => keeps executor.toEnv outerRow expr row

/-- One conjunct of the WHERE on the rows of a table.  Which columns there are is read off the first
row, and without one nothing is left to do. -/
def applyConjunct (rows : List (Row F)) (conjunct : Expr F Q) : List (Row F) :=
  match rows with
  | [] => []
  | first :: rest =>
    if exprRefsOnlyRow first conjunct then (first :: rest).filter (keeps executor.toEnv outerRow conjunct)
    else first :: rest

def applySingleTablePredicates (rows : List (Row F)) (whereExpr : Option (Expr F Q)) : List (Row F) :=
  match whereExpr with
  | none => rows
  | some expr => (splitConjuncts expr).foldl (applyConjunct executor outerRow) rows

def innerJoin (left right : List (Row F)) (on : Option (Expr F Q)) : Evaluated F (List (Row F)) :=
  if crossJoinBudget < left.length * right.length then
    .error (.unsupported
      s!"explicit cross-join of {left.length} x {right.length} rows exceeds budget ({crossJoinBudget})")
  else do
    let combined ← crossProduct left right
    pure (combined.filter (passes executor outerRow on))

/-- The rows of the right side in turn, with the output so far and whether one has matched. -/
def matchRight (on : Option (Expr F Q)) (leftRow : Row F) (state : List (Row F) × Bool) (rightRow : Row F) :
    Evaluated F (List (Row F) × Bool) :=
  if intermediateRowsBudget ≤ state.1.length then
    .error (.unsupported s!"left outer join output exceeds budget ({intermediateRowsBudget})")
  else if passes executor outerRow on (leftRow ++ rightRow) then .ok (state.1 ++ [leftRow ++ rightRow], true)
  else .ok state

/-- A left row against every right row, and padded where none of them matched. -/
def joinLeftRow (right : List (Row F)) (on : Option (Expr F Q)) (out : List (Row F)) (leftRow : Row F) :
    Evaluated F (List (Row F)) := do
  let state ← right.foldlM (matchRight executor outerRow on leftRow) (out, false)
  -- the padding has the columns of the first right row: none at all if there is no right row
  pure (if state.2 then state.1 else state.1 ++ [leftRow ++ nullRow (columnsOf right)])

def leftOuterJoin (left right : List (Row F)) (on : Option (Expr F Q)) : Evaluated F (List (Row F)) :=
  left.foldlM (joinLeftRow executor outerRow right on) []

def resolveTableFactor : TableFactor Q → Evaluated F (List (Row F))
  | .table name label =>
    let tableName := executor.toLowercase name
    match executor.tables tableName with
    | none => .error (.tableNotFound tableName)
    | some rows => .ok (rows.map (qualifyRow · (label.getD tableName)))
  | .derived subquery label => do
      let result ← executor.executeQuery subquery outerRow
      pure (result.rows.map fun values =>
        (result.columns.zip values).map fun entry => (label.getD "derived" ++ "." ++ entry.1, entry.2))
  | .other => .error (.unsupported "table factor type")

/-- How a join step finds its rows. -/
inductive JoinKind where
  | hash
  | nested
  | leftOuter
deriving DecidableEq

/-- The sizes of the relations of one join step. -/
structure JoinStep where
  kind : JoinKind
  left : Nat
  right : Nat
  out : Nat
deriving DecidableEq

/-- The relation so far, with the steps that produced it. -/
structure Progress (F : Type) where
  rows : List (Row F)
  steps : List JoinStep

def Progress.after {F : Type} (progress : Progress F) (kind : JoinKind) (right out : List (Row F)) : Progress F where
  rows := out
  steps := progress.steps ++ [{ kind, left := progress.rows.length, right := right.length, out := out.length }]

/-- A table of the list itself; `none` is the state before the first one. -/
def joinTable (equiPairs : List (String × String)) (whereExpr : Option (Expr F Q))
    (result : Option (Progress F)) (relation : TableFactor Q) : Evaluated F (Progress F) := do
  let rows ← resolveTableFactor executor outerRow relation
  let tableRows := applySingleTablePredicates executor outerRow rows whereExpr
  match result with
  | none => pure { rows := tableRows, steps := [] }
  | some result =>
    match findJoinKey result.rows tableRows equiPairs with
    | some (leftKey, rightKey) => do
        let out ← hashJoinKeyed executor result.rows tableRows leftKey rightKey
        pure (result.after .hash tableRows out)
    | none =>
      if crossJoinBudget < result.rows.length * tableRows.length then
        .error (.unsupported s!"implicit cross-join of {result.rows.length} x {tableRows.length} rows exceeds budget ({crossJoinBudget}); no equi-join predicate found")
      else do
        let out ← crossProduct result.rows tableRows
        pure (result.after .nested tableRows out)

/-- An explicit join. -/
def joinOn (whereExpr : Option (Expr F Q)) (result : Progress F) (join : Join F Q) : Evaluated F (Progress F) := do
  let rows ← resolveTableFactor executor outerRow join.relation
  let joinRows := applySingleTablePredicates executor outerRow rows whereExpr
  let on := join.joinOperator.onExpr
  if join.joinOperator.isLeftOuter then do
    let out ← leftOuterJoin executor outerRow result.rows joinRows on
    pure (result.after .leftOuter joinRows out)
  else
    match findJoinKey result.rows joinRows ((on.map (extractEquiPairs executor)).getD []) with
    | some (leftKey, rightKey) => do
        let combined ← hashJoinKeyed executor result.rows joinRows leftKey rightKey
        pure (result.after .hash joinRows (combined.filter (passes executor outerRow on)))
    | none => do
        let out ← innerJoin executor outerRow result.rows joinRows on
        pure (result.after .nested joinRows out)

/-- One entry of the FROM list. -/
def joinEntry (equiPairs : List (String × String)) (whereExpr : Option (Expr F Q)) (result : Option (Progress F))
    (entry : TableWithJoins F Q) : Evaluated F (Option (Progress F)) := do
  let progress ← joinTable executor outerRow equiPairs whereExpr result entry.relation
  let progress ← entry.joins.foldlM (joinOn executor outerRow whereExpr) progress
  pure (some progress)

def resolveFrom (source : List (TableWithJoins F Q)) (equiPairs : List (String × String))
    (whereExpr : Option (Expr F Q)) : Evaluated F (Progress F) :=
  if source.isEmpty then .ok { rows := [[]], steps := [] }
  else do
    let result ← source.foldlM (joinEntry executor outerRow equiPairs whereExpr) none
    pure (result.getD { rows := [], steps := [] })

end From

end Neuralbase.Query
