import Neuralbase.Library.Decimal
import Neuralbase.Sql.Ast

namespace Neuralbase.Sql

open Neuralbase.Library

/-! The binder: statements against the catalog (`binder.rs`), behind its safety layer
(`binder_safety.rs`). -/

/-- A literal after coercion.  A float is kept as the text that it prints as. -/
inductive SqlValue where
  | int (value : Int)
  | float (text : String)
  | text (text : String)
  | date (days : Int)
  | null
deriving DecidableEq

def SqlValue.toStorageString : SqlValue → Option String
  | .int value => some (toString value)
  | .float value => some value
  | .text value => some value
  | .date days => some (toString days)
  | .null => none

inductive DmlCmpOp where
  | eq
  | neq
  | gt
  | lt
  | gtEq
  | ltEq
deriving DecidableEq

structure DmlPredicate where
  column : String
  op : DmlCmpOp
  value : SqlValue
deriving DecidableEq

structure InsertPlan where
  table : TableSchema
  columns : List String
  rows : List (List SqlValue)
deriving DecidableEq

structure UpdatePlan where
  table : TableSchema
  assignments : List (String × SqlValue)
  predicate : Option DmlPredicate
deriving DecidableEq

structure DeletePlan where
  table : TableSchema
  predicate : Option DmlPredicate
deriving DecidableEq

structure CreateTablePlan where
  name : String
  columns : List ColumnDef
  ifNotExists : Bool
deriving DecidableEq

def CreateTablePlan.toTableSchema (plan : CreateTablePlan) : TableSchema :=
  { name := plan.name, columns := plan.columns }

inductive BoundPlan where
  | selectConstI64 (value : Int)
  | selectFromTable (table : TableSchema) (projection : List String) (whereClause : Option DmlPredicate)
      (limit : Option Nat) (queryFingerprint : String)
  | selectQuery (query : Query)
  | insert (plan : InsertPlan)
  | update (plan : UpdatePlan)
  | delete (plan : DeletePlan)
  | createTable (plan : CreateTablePlan)
  | dropTable (name : String)
  | createUser (username password : String)
  | alterUser (username newPassword : String)
  | dropUser (username : String) (ifExists : Bool)
  | explain (query : Query) (analyze : Bool)
deriving DecidableEq

inductive BindError where
  | tableNotFound (table : String)
  | unsupportedSelect
  | columnNotFound (table column : String)
  | columnCountMismatch (expected actual : Nat)
  | typeCoercionFailed (column reason : String)
  | unsupported
deriving DecidableEq

/-- What the binder takes from the standard library and the parser: upper case, floats (by
the text they print as), and printed expressions and literals. -/
structure SqlText where
  uppercase : String → String
  parseF64 : String → Option String
  negF64 : String → String
  display : Expr → String
  displayValue : Value → String

def plainText : SqlText where
  uppercase s := String.ofList (s.toList.map Char.toUpper)
  parseF64 _ := none
  negF64 text := text
  display _ := ""
  displayValue _ := ""

def eqIgnoreAsciiCase (left right : String) : Bool :=
  left.toList.map Char.toLower == right.toList.map Char.toLower

/-- `str::contains`. -/
def containsText (text part : String) : Bool :=
  text.toList.tails.any fun rest => part.toList.isPrefixOf rest

section Dates

def wrapI32 (value : Int) : Int := value.bmod (2 ^ 32)

def civilToEpochDays (y : Int) (m d : Nat) : Int :=
  let y := if m ≤ 2 then wrapI32 (y - 1) else y
  let era := if 0 ≤ y then y.tdiv 400 else (wrapI32 (y - 399)).tdiv 400
  let yoe : Int := (y - era * 400) % 2 ^ 32
  let moy := if 2 < m then m - 3 else m + 9
  let doy := (153 * moy + 2) / 5 + d - 1
  -- only sums and products follow, which may wrap around at the end
  let doe : Int := yoe * 365 + yoe / 4 - yoe / 100 + doy
  wrapI32 (era * 146097 + doe - 719468)

def dateStrToEpochDays (text : String) : Option Int :=
  match text.toList.splitOn '-' with
  | [year, month, day] => do
      let y ← parseInt 32 (String.ofList year)
      let m ← parseNat 32 (String.ofList month)
      let d ← parseNat 32 (String.ofList day)
      if 1 ≤ m ∧ m ≤ 12 ∧ 1 ≤ d ∧ d ≤ 31 then some (civilToEpochDays y m d) else none
  | _ => none

end Dates

section Coercion

variable (text : SqlText)

open BindError

def isIntType (dataType : String) : Bool :=
  containsText (text.uppercase dataType) "INT" || containsText (text.uppercase dataType) "BOOL"

def isFloatType (dataType : String) : Bool :=
  ["DOUBLE", "FLOAT", "REAL", "DECIMAL", "NUMERIC"].any (containsText (text.uppercase dataType))

def isDateType (dataType : String) : Bool := containsText (text.uppercase dataType) "DATE"

def coerced {α : Type} (column : ColumnDef) (reason : String) (make : α → SqlValue) :
    Option α → Except BindError SqlValue
  | some value => .ok (make value)
  | none => .error (typeCoercionFailed column.name reason)

def coerceText (s : String) (column : ColumnDef) : Except BindError SqlValue :=
  if isDateType text column.dataType then
    coerced column ("cannot parse '" ++ s ++ "' as ISO date (YYYY-MM-DD)") .date (dateStrToEpochDays s)
  else .ok (.text s)

def coerceValue (value : Value) (column : ColumnDef) : Except BindError SqlValue :=
  match value with
  | .null => .ok .null
  | .number s =>
    if isIntType text column.dataType then
      coerced column ("cannot parse '" ++ s ++ "' as integer") .int (parseInt 64 s)
    else if isFloatType text column.dataType then
      coerced column ("cannot parse '" ++ s ++ "' as float") .float (text.parseF64 s)
    else if isDateType text column.dataType then
      coerced column ("cannot parse '" ++ s ++ "' as date integer") .date (parseInt 32 s)
    else .ok (.text s)
  | .singleQuotedString s | .doubleQuotedString s => coerceText text s column
  | .boolean value =>
    if containsText (text.uppercase column.dataType) "INT" then .ok (.int (if value then 1 else 0))
    else .ok (.text (if value then "true" else "false"))
  | .other _ =>
    .error (typeCoercionFailed column.name ("unsupported literal type: " ++ text.displayValue value))

def coerceExprToValue (expr : Expr) (column : ColumnDef) : Except BindError SqlValue :=
  match expr with
  | .value value => coerceValue text value column
  | .unaryOp .minus (.value value) => do
      match ← coerceValue text value column with
      | .int n => pure (.int (-n))
      | .float f => pure (.float (text.negF64 f))
      | _ => throw (typeCoercionFailed column.name "unary minus on non-numeric")
  | .unaryOp .minus _ => .error (typeCoercionFailed column.name "unsupported unary expression")
  | expr => .error (typeCoercionFailed column.name ("unsupported expression: " ++ text.display expr))

end Coercion

section Predicates

variable (text : SqlText)

def findColumn (columns : List ColumnDef) (name : String) : Option ColumnDef :=
  columns.find? fun column => eqIgnoreAsciiCase column.name name

def extractIdentifier : Expr → Option String
  | .identifier name => some name
  | .compoundIdentifier parts => parts.getLast?
  | _ => none

def cmpOp : BinaryOperator → Option DmlCmpOp
  | .eq => some .eq
  | .notEq => some .neq
  | .gt => some .gt
  | .lt => some .lt
  | .gtEq => some .gtEq
  | .ltEq => some .ltEq
  | .other _ => none

/-- A comparison of a column with a literal.  Anything else gives no predicate. -/
def parseSimplePredicate (expr : Expr) (table : TableSchema) : Option DmlPredicate :=
  match expr with
  | .binaryOp left op right => do
      let name ← extractIdentifier left
      let column ← findColumn table.columns name
      let op ← cmpOp op
      let value ← (coerceExprToValue text right column).toOption
      pure { column := column.name, op, value }
  | _ => none

end Predicates

section Bind

variable (codec : SchemaCodec) (text : SqlText) (catalog : InMemoryCatalog)

open BindError

def projectionColumns (select : Select) (table : TableSchema) : List String :=
  if select.projection.any (· = .wildcard) then table.columns.map ColumnDef.name
  else select.projection.filterMap fun
    | .unnamedExpr (.identifier name) => some name
    | .exprWithAlias _ label => some label
    | _ => none

def literalLimit : Option Expr → Option Nat
  | some (.value (.number s)) => parseNat 64 s
  | _ => none

def bindQuery (query : Query) : BoundPlan :=
  match query.body with
  | .other _ _ => .selectQuery query
  | .select select =>
    match select.source with
    | [] =>
      match select.projection with
      | [.unnamedExpr (.value (.number s))] =>
        match parseInt 64 s with
        | some n => .selectConstI64 n
        | none => .selectQuery query
      | _ => .selectQuery query
    | [{ relation := .table name, joins := [] }] =>
      match catalog.getTable codec name with
      | none => .selectQuery query
      | some table =>
        .selectFromTable table (projectionColumns select table)
          (select.selection.bind fun expr => parseSimplePredicate text expr table)
          (literalLimit query.limit) query.display
    | _ => .selectQuery query

def findTable (name : String) : Except BindError TableSchema :=
  (catalog.getTable codec name).elim (.error (tableNotFound name)) .ok

def requireColumn (tableName : String) (columns : List ColumnDef) (name : String) : Except BindError ColumnDef :=
  (findColumn columns name).elim (.error (columnNotFound tableName name)) .ok

def bindRow (table : TableSchema) (tableName : String) (columns : List String) (row : List Expr) :
    Except BindError (List SqlValue) := do
  if row.length ≠ columns.length then throw (columnCountMismatch columns.length row.length)
  (row.zip columns).mapM fun (expr, name) => do
    let column ← requireColumn tableName table.columns name
    coerceExprToValue text expr column

def bindInsert (insert : Insert) : Except BindError BoundPlan := do
  let table ← findTable codec catalog insert.tableName
  let columns := if insert.columns = [] then table.columns.map ColumnDef.name else insert.columns
  forM columns fun name => (requireColumn insert.tableName table.columns name).map fun _ => ()
  match insert.values with
  | none => throw unsupported
  | some values =>
    let rows ← values.mapM (bindRow text table insert.tableName columns)
    pure (.insert { table, columns, rows })

def bindUpdate (table : TableFactor) (assignments : List Assignment) (selection : Option Expr) :
    Except BindError BoundPlan :=
  match table with
  | .other _ => .error unsupportedSelect
  | .table name => do
      let schema ← findTable codec catalog name
      let bound ← assignments.mapM fun assignment => do
        let column ← requireColumn name schema.columns (assignment.id.getLast?.getD "")
        let value ← coerceExprToValue text assignment.value column
        pure (column.name, value)
      pure (.update
        { table := schema, assignments := bound
          predicate := selection.bind fun expr => parseSimplePredicate text expr schema })

def bindDelete (tables : List TableFactor) (selection : Option Expr) : Except BindError BoundPlan :=
  match tables with
  | [.table name] => do
      let schema ← findTable codec catalog (codec.lowercase name)
      pure (.delete
        { table := schema, predicate := selection.bind fun expr => parseSimplePredicate text expr schema })
  | _ => .error unsupported

def sqlDataTypeToStr : DataType → String
  | .int | .integer | .int4 => "INT"
  | .bigInt | .int8 => "BIGINT"
  | .float | .double | .real | .decimal | .numeric => "DOUBLE"
  | .date => "DATE"
  | .varchar | .text | .char => "TEXT"
  | .boolean => "INT"
  | .other text => text

def bindCreateTable (name : String) (columns : List ColumnSpec) (ifNotExists : Bool) : BoundPlan :=
  .createTable
    { name := codec.lowercase name
      columns := columns.map fun column => ⟨column.name, sqlDataTypeToStr column.dataType⟩
      ifNotExists }

def bindLegacy : Statement → Except BindError BoundPlan
  | .query query => .ok (bindQuery codec text catalog query)
  | .insert insert => bindInsert codec text catalog insert
  | .update table assignments selection => bindUpdate codec text catalog table assignments selection
  | .delete tables selection => bindDelete codec text catalog tables selection
  | .createTable name columns ifNotExists _ => .ok (bindCreateTable codec name columns ifNotExists)
  | .drop isTable names => if isTable then .ok (.dropTable (names.headD "")) else .error unsupported
  | .explain analyze (.query query) => .ok (.explain query analyze)
  | .explain _ _ | .other _ => .error unsupported

end Bind

section Safety

open BindError

def SetExpr.windows : SetExpr → WindowUse
  | .select body =>
    let parts := body.projection.map SelectItem.windows ++
      (body.selection.toList ++ body.having.toList).map Expr.windows
    (parts.foldl WindowUse.max .none).max (if body.namedWindow = [] then .none else .refused)
  | .other _ windows => windows

def Query.windows (query : Query) : WindowUse := query.ctes.foldl WindowUse.max query.body.windows

def validateStatementSemantics : Statement → Except BindError Unit
  | .createTable _ columns _ constraints =>
    if columns.any (fun column => column.options ≠ []) ∨ constraints ≠ [] then .error unsupported else .ok ()
  | .query query => if query.windows = .refused then .error unsupported else .ok ()
  | .explain _ statement => validateStatementSemantics statement
  | _ => .ok ()

/-- A WHERE that the binder could not bind must not become a change of the whole table. -/
def validatePersistentDmlPredicate : Statement → BoundPlan → Except BindError Unit
  | .update _ _ (some _), .update plan => if plan.predicate = none then .error unsupported else .ok ()
  | .delete _ (some _), .delete plan => if plan.predicate = none then .error unsupported else .ok ()
  | _, _ => .ok ()

variable (codec : SchemaCodec) (text : SqlText) (catalog : InMemoryCatalog)

def bindStatement (statement : Statement) : Except BindError BoundPlan := do
  validateStatementSemantics statement
  match statement with
  | .query query =>
    if query.windows ≠ .none then pure (.selectQuery query)
    else bindLegacy codec text catalog statement
  | _ => do
      let plan ← bindLegacy codec text catalog statement
      validatePersistentDmlPredicate statement plan
      pure plan

def bindNbStatement : NbStatement → Except BindError BoundPlan
  | .sql statement => bindStatement codec text catalog statement
  | .createUser username password => .ok (.createUser username password)
  | .alterUser username newPassword => .ok (.alterUser username newPassword)
  | .dropUser username ifExists => .ok (.dropUser username ifExists)

end Safety

end Neuralbase.Sql
