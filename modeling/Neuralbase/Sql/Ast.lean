import Neuralbase.Catalog

namespace Neuralbase.Sql

/-! Parsed statements (`sql.rs`), down to what the binder looks at.  Names of objects are
their printed form, which keeps the quotes of a quoted name.  Everything that no function
of the binder takes apart is kept as text. -/

/-- The window functions inside an expression: none, some that are supported, or one with a
named window or a frame. -/
inductive WindowUse where
  | none
  | supported
  | refused
deriving DecidableEq

def WindowUse.max : WindowUse → WindowUse → WindowUse
  | .refused, _ | _, .refused => .refused
  | .supported, _ | _, .supported => .supported
  | .none, .none => .none

inductive Value where
  | number (text : String)
  | singleQuotedString (text : String)
  | doubleQuotedString (text : String)
  | boolean (value : Bool)
  | null
  | other (text : String)
deriving DecidableEq

inductive UnaryOperator where
  | minus
  | other (text : String)
deriving DecidableEq

inductive BinaryOperator where
  | eq
  | notEq
  | gt
  | lt
  | gtEq
  | ltEq
  | other (text : String)
deriving DecidableEq

inductive Expr where
  | identifier (name : String)
  | compoundIdentifier (parts : List String)
  | value (value : Value)
  | unaryOp (op : UnaryOperator) (expr : Expr)
  | binaryOp (left : Expr) (op : BinaryOperator) (right : Expr)
  | nested (expr : Expr)
  | other (text : String) (windows : WindowUse)
deriving DecidableEq

def Expr.windows : Expr → WindowUse
  | .identifier _ | .compoundIdentifier _ | .value _ => .none
  | .unaryOp _ expr | .nested expr => expr.windows
  | .binaryOp left _ right => left.windows.max right.windows
  | .other _ windows => windows

inductive SelectItem where
  | unnamedExpr (expr : Expr)
  | exprWithAlias (expr : Expr) (label : String)
  | wildcard
  | qualifiedWildcard (name : String)
deriving DecidableEq

def SelectItem.windows : SelectItem → WindowUse
  | .unnamedExpr expr | .exprWithAlias expr _ => expr.windows
  | .wildcard | .qualifiedWildcard _ => .none

inductive TableFactor where
  | table (name : String)
  | other (text : String)
deriving DecidableEq

structure TableWithJoins where
  relation : TableFactor
  joins : List String
deriving DecidableEq

structure OrderByExpr where
  expr : Expr
  asc : Option Bool
deriving DecidableEq

structure Select where
  distinct : Bool
  projection : List SelectItem
  source : List TableWithJoins
  selection : Option Expr
  groupBy : List Expr
  having : Option Expr
  namedWindow : List String
deriving DecidableEq

inductive SetExpr where
  | select (select : Select)
  | other (text : String) (windows : WindowUse)
deriving DecidableEq

structure Query where
  /-- The window functions of the common table expressions. -/
  ctes : List WindowUse
  body : SetExpr
  orderBy : List OrderByExpr
  limit : Option Expr
  offset : Option Expr
  /-- The query as text. -/
  display : String
deriving DecidableEq

structure Insert where
  tableName : String
  columns : List String
  /-- The rows of a VALUES list, if that is the source. -/
  values : Option (List (List Expr))
deriving DecidableEq

structure Assignment where
  id : List String
  value : Expr
deriving DecidableEq

inductive DataType where
  | int
  | integer
  | int4
  | bigInt
  | int8
  | float
  | double
  | real
  | decimal
  | numeric
  | date
  | varchar
  | text
  | char
  | boolean
  /-- Any other type, by its text. -/
  | other (text : String)
deriving DecidableEq

structure ColumnSpec where
  name : String
  dataType : DataType
  options : List String
deriving DecidableEq

inductive Statement where
  | query (query : Query)
  | insert (insert : Insert)
  | update (table : TableFactor) (assignments : List Assignment) (selection : Option Expr)
  | delete (tables : List TableFactor) (selection : Option Expr)
  | createTable (name : String) (columns : List ColumnSpec) (ifNotExists : Bool) (constraints : List String)
  | drop (isTable : Bool) (names : List String)
  | explain (analyze : Bool) (statement : Statement)
  | other (text : String)
deriving DecidableEq

inductive NbStatement where
  | sql (statement : Statement)
  | createUser (username password : String)
  | alterUser (username newPassword : String)
  | dropUser (username : String) (ifExists : Bool)
deriving DecidableEq

end Neuralbase.Sql
