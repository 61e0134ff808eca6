import Neuralbase.Library.Decimal

namespace Neuralbase.Query

open Neuralbase.Library

/-! Values, rows and expressions of the query executors (`query_executor.rs`,
`query_executor_semantics.rs`). -/

/-- What the executors use of `f64`. -/
class Floats (F : Type) where
  parse : String → Option F
  ofInt : Int → F
  zero : F
  add : F → F → F
  sub : F → F → F
  mul : F → F → F
  div : F → F → F
  rem : F → F → F
  neg : F → F
  partialCmp : F → F → Option Ordering
  /-- `r as i64`, where `r` has no fraction and a magnitude below that of `i64::MAX as f64`. -/
  integral : F → Option Int

inductive ScalarVal (F : Type) where
  | int (value : Int)
  | float (value : F)
  | text (value : String)
  | date (value : Int)
  | bool (value : Bool)
  | null
deriving DecidableEq

def ScalarVal.truthy {F : Type} : ScalarVal F → Bool
  | .null => false
  | .bool value => value
  | _ => true

inductive QueryError (F : Type) where
  | tableNotFound (name : String)
  | columnNotFound (name : String)
  | typeError (reason : String)
  | nonNumeric (value : ScalarVal F)
  | subqueryMultipleRows
  | unsupported (feature : String)
  | divisionByZero
  /-- What stops the thread instead of returning. -/
  | overflowPanic
deriving DecidableEq

abbrev Evaluated (F : Type) := Except (QueryError F)

abbrev Row (F : Type) := List (String × ScalarVal F)

structure QueryResult (F : Type) where
  columns : List String
  rows : List (List (ScalarVal F))

inductive Value where
  | number (raw : String)
  | string (text : String)
  | boolean (value : Bool)
  | null
  | placeholder (name : String)
  | other (text : String)
deriving DecidableEq

inductive UnaryOperator where
  | plus
  | minus
  | not
  | other (text : String)
deriving DecidableEq

inductive BinaryOperator where
  | plus
  | minus
  | multiply
  | divide
  | modulo
  | stringConcat
  | gt
  | lt
  | gtEq
  | ltEq
  | eq
  | notEq
  | and
  | or
  | other (text : String)
deriving DecidableEq

inductive FunctionName where
  | coalesce
  | nullif
  | other (name : String)
deriving DecidableEq

/-- Expressions, over the queries `Q` that may stand inside them.  The parser makes no `scalar`: it
is a value that has been put in the place of a column. -/
inductive Expr (F Q : Type) where
  | value (value : Value)
  | scalar (value : ScalarVal F)
  | typedString (dataType value : String)
  | identifier (name : String)
  | compoundIdentifier (parts : List String)
  | binaryOp (left : Expr F Q) (op : BinaryOperator) (right : Expr F Q)
  | unaryOp (op : UnaryOperator) (expr : Expr F Q)
  | isNull (expr : Expr F Q)
  | isNotNull (expr : Expr F Q)
  | between (expr : Expr F Q) (negated : Bool) (low high : Expr F Q)
  | like (expr pattern : Expr F Q) (negated caseInsensitive : Bool)
  | inList (expr : Expr F Q) (list : List (Expr F Q)) (negated : Bool)
  | inSubquery (expr : Expr F Q) (subquery : Q) (negated : Bool)
  | existsQuery (subquery : Q) (negated : Bool)
  | subquery (query : Q)
  | case (operand : Option (Expr F Q)) (branches : List (Expr F Q × Expr F Q)) (elseResult : Option (Expr F Q))
  | nested (expr : Expr F Q)
  | function (name : FunctionName) (args : List (Expr F Q))
  | cast (expr : Expr F Q) (dataType : String)
  | extract (field : String) (expr : Expr F Q)
  | trim (expr : Expr F Q)
  | other (text : String)

section Values

variable {F : Type} [Floats F]

namespace ScalarVal

def asF64 : ScalarVal F → Option F
  | .int value => some (Floats.ofInt value)
  | .float value => some value
  | _ => none

/-- The derived `==`: values of different kinds are different. -/
def equals : ScalarVal F → ScalarVal F → Bool
  | .int left, .int right => left = right
  | .float left, .float right => Floats.partialCmp left right = some .eq
  | .text left, .text right => left = right
  | .date left, .date right => left = right
  | .bool left, .bool right => left = right
  | .null, .null => true
  | _, _ => false

def cmpVal : ScalarVal F → ScalarVal F → Option Ordering
  | .int left, .int right => some (compare left right)
  | .float left, .float right => Floats.partialCmp left right
  | .int left, .float right => Floats.partialCmp (Floats.ofInt left) right
  | .float left, .int right => Floats.partialCmp left (Floats.ofInt right)
  | .text left, .text right => some (compare left right)
  | .date left, .date right => some (compare left right)
  | .bool left, .bool right => some (compare left right)
  | _, _ => none

end ScalarVal

/-- `parse::<i64>`, then `parse::<f64>`. -/
def parseNumber (raw : String) : Option (ScalarVal F) :=
  match parseInt 64 raw with
  | some value => some (.int value)
  | none => (Floats.parse raw).map .float

end Values

end Neuralbase.Query
