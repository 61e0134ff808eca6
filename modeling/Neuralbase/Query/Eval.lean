import Neuralbase.Query.Ast

namespace Neuralbase.Query

/-! The expression evaluator of the row-oriented executor (`eval_expr` of `query_executor.rs`).
What an expression does with its parts is a function of what the parts evaluate to. -/

section Rows

variable {F : Type}

/-- A column by its name: the exact one, or the first one that ends with the name. -/
def rowGet (row : Row F) (name : String) : Option (ScalarVal F) :=
  match row.find? fun entry => entry.1 = name with
  | some entry => some entry.2
  | none =>
    (row.find? fun entry => ('.' :: name.toList) <:+ entry.1.toList ∨
      entry.1.toList.map Char.toLower = name.toList.map Char.toLower).map Prod.snd

def evalIdentifier (row outerRow : Row F) (name : String) : Evaluated F (ScalarVal F) :=
  match (rowGet row name).or (rowGet outerRow name) with
  | some value => .ok value
  | none => .error (.columnNotFound name)

def qualifiedName (parts : List String) : String := ".".intercalate parts

def evalCompoundIdentifier (row outerRow : Row F) (parts : List String) : Evaluated F (ScalarVal F) :=
  let qualified := qualifiedName parts
  let bare := (parts.getLast?).getD ""
  match (rowGet row qualified).or ((rowGet row bare).or ((rowGet outerRow qualified).or (rowGet outerRow bare))) with
  | some value => .ok value
  | none => .error (.columnNotFound qualified)

end Rows

/-- What the evaluator takes from elsewhere: functions on texts and dates, the scalar functions
other than COALESCE and NULLIF, and the executor for the queries inside an expression. -/
structure Env (F Q : Type) where
  typedString : String → ScalarVal F
  likeMatch : String → String → Bool
  toUppercase : String → String
  scalarToString : ScalarVal F → String
  cast : String → ScalarVal F → ScalarVal F
  extract : String → ScalarVal F → ScalarVal F
  trim : String → String
  function : String → List (Evaluated F (ScalarVal F)) → Evaluated F (ScalarVal F)
  executeQuery : Q → Row F → Evaluated F (QueryResult F)

section Operators

variable {F : Type} [Floats F]

def evalValue : Value → ScalarVal F
  | .number raw => (parseNumber raw).getD .null
  | .string text => .text text
  | .boolean value => .bool value
  | .null | .placeholder _ | .other _ => .null

/-- `-n`, which wraps around in a release build. -/
def negate (value : Int) : Int := if value = -2 ^ 63 then value else -value

def evalUnary (op : UnaryOperator) (value : ScalarVal F) : Evaluated F (ScalarVal F) :=
  match op, value with
  | .minus, .int value => .ok (.int (negate value))
  | .minus, .float value => .ok (.float (Floats.neg value))
  | .minus, _ => .error (.typeError "unary minus on non-numeric")
  | .not, value => .ok (.bool !value.truthy)
  | .plus, value => .ok value
  | .other text, _ => .error (.unsupported s!"unary op: {text}")

def needF64 (value : ScalarVal F) : Evaluated F F :=
  match value.asF64 with
  | some value => .ok value
  | none => .error (.nonNumeric value)

/-- The operation is done in `f64`, and the result is an integer again if it can be one. -/
def numericOp (op : F → F → F) (left right : ScalarVal F) : Evaluated F (ScalarVal F) :=
  match left, right with
  | .int left, .int right =>
    let result := op (Floats.ofInt left) (Floats.ofInt right)
    match Floats.integral result with
    | some value => .ok (.int value)
    | none => .ok (.float result)
  | left, right => do
      let left ← needF64 left
      let right ← needF64 right
      pure (.float (op left right))

/-- Division and remainder: the result is always an `f64`. -/
def divisionOp (op : F → F → F) (left right : ScalarVal F) : Evaluated F (ScalarVal F) :=
  let divisor := right.asF64.getD Floats.zero
  if Floats.partialCmp divisor Floats.zero = some .eq then .error .divisionByZero
  else .ok (.float (op (left.asF64.getD Floats.zero) divisor))

def strictBinary (scalarToString : ScalarVal F → String) (op : BinaryOperator) (left right : ScalarVal F) :
    Evaluated F (ScalarVal F) :=
  match op with
  | .plus => numericOp Floats.add left right
  | .minus => numericOp Floats.sub left right
  | .multiply => numericOp Floats.mul left right
  | .divide => divisionOp Floats.div left right
  | .modulo => divisionOp Floats.rem left right
  | .stringConcat => .ok (.text (scalarToString left ++ scalarToString right))
  | .eq => .ok (.bool (left.equals right))
  | .notEq => .ok (.bool !left.equals right)
  | .gt => .ok (.bool (left.cmpVal right = some .gt))
  | .lt => .ok (.bool (left.cmpVal right = some .lt))
  | .gtEq => .ok (.bool ((left.cmpVal right).any (· ≠ .lt)))
  | .ltEq => .ok (.bool ((left.cmpVal right).any (· ≠ .gt)))
  | .and => .error (.unsupported "binary op: AND")
  | .or => .error (.unsupported "binary op: OR")
  | .other text => .error (.unsupported s!"binary op: {text}")

def evalBinary (scalarToString : ScalarVal F → String) (op : BinaryOperator) (left right : Evaluated F (ScalarVal F)) :
    Evaluated F (ScalarVal F) := do
  let leftValue ← left
  match op with
  | .and =>
    if !leftValue.truthy then pure (.bool false)
    else do
      let rightValue ← right
      pure (.bool rightValue.truthy)
  | .or =>
    if leftValue.truthy then pure (.bool true)
    else do
      let rightValue ← right
      pure (.bool rightValue.truthy)
  | op => do
      let rightValue ← right
      strictBinary scalarToString op leftValue rightValue

def evalBetween (negated : Bool) (value low high : Evaluated F (ScalarVal F)) : Evaluated F (ScalarVal F) := do
  let value ← value
  let low ← low
  let high ← high
  let inRange := (value.cmpVal low).any (· ≠ .lt) && (value.cmpVal high).any (· ≠ .gt)
  pure (.bool (inRange != negated))

def evalLike (likeMatch : String → String → Bool) (toUppercase : String → String) (negated caseInsensitive : Bool)
    (value pattern : Evaluated F (ScalarVal F)) : Evaluated F (ScalarVal F) := do
  let value ← value
  let pattern ← pattern
  match value, pattern with
  | .text text, .text pattern =>
    let found := if caseInsensitive then likeMatch (toUppercase text) (toUppercase pattern) else likeMatch text pattern
    pure (.bool (found != negated))
  | _, _ => pure .null

def evalInList (negated : Bool) (value : Evaluated F (ScalarVal F)) (list : List (Evaluated F (ScalarVal F))) :
    Evaluated F (ScalarVal F) := do
  let value ← value
  let found := list.any fun element =>
    match element with
    | .ok element => element.equals value
    | .error _ => false
  pure (.bool (found != negated))

def evalInQuery (negated : Bool) (value : Evaluated F (ScalarVal F)) (result : Evaluated F (QueryResult F)) :
    Evaluated F (ScalarVal F) := do
  let value ← value
  let result ← result
  let found := result.rows.any fun row => row.head?.any fun first => first.equals value
  pure (.bool (found != negated))

def evalSubquery (result : Evaluated F (QueryResult F)) : Evaluated F (ScalarVal F) := do
  let result ← result
  match result.rows with
  | [] => pure .null
  | [row] => pure (row.head?.getD .null)
  | _ => .error .subqueryMultipleRows

def evalMatch (operand : Option (Evaluated F (ScalarVal F))) (condition : Evaluated F (ScalarVal F)) : Evaluated F Bool :=
  match operand with
  | some operand => do
      let left ← operand
      let right ← condition
      pure (left.equals right)
  | none => do
      let value ← condition
      pure value.truthy

def evalCaseOf (operand : Option (Evaluated F (ScalarVal F))) (elseResult : Option (Evaluated F (ScalarVal F))) :
    List (Evaluated F (ScalarVal F) × Evaluated F (ScalarVal F)) → Evaluated F (ScalarVal F)
  | [] => elseResult.getD (.ok .null)
  | (condition, result) :: rest => do
      if ← evalMatch operand condition then result else evalCaseOf operand elseResult rest

def evalCoalesce : List (Evaluated F (ScalarVal F)) → Evaluated F (ScalarVal F)
  | [] => .ok .null
  | first :: rest => do
      match ← first with
      | .null => evalCoalesce rest
      | value => pure value

def evalNullif (args : List (Evaluated F (ScalarVal F))) : Evaluated F (ScalarVal F) :=
  match args with
  | [] => .error (.typeError "NULLIF arg")
  | [first] => do
      let _ ← first
      .error (.typeError "NULLIF needs 2 args")
  | first :: second :: _ => do
      let left ← first
      let right ← second
      pure (if left.equals right then .null else left)

def evalFunction (other : String → List (Evaluated F (ScalarVal F)) → Evaluated F (ScalarVal F))
    (name : FunctionName) (args : List (Evaluated F (ScalarVal F))) : Evaluated F (ScalarVal F) :=
  match name with
  | .coalesce => evalCoalesce args
  | .nullif => evalNullif args
  | .other name => other name args

end Operators

section Evaluator

variable {F Q : Type} [Floats F]

mutual

def evalExpr (env : Env F Q) (row outerRow : Row F) : Expr F Q → Evaluated F (ScalarVal F)
  | .value value => .ok (evalValue value)
  | .scalar value => .ok value
  | .typedString _ value => .ok (env.typedString value)
  | .identifier name => evalIdentifier row outerRow name
  | .compoundIdentifier parts => evalCompoundIdentifier row outerRow parts
  | .binaryOp left op right =>
    evalBinary env.scalarToString op (evalExpr env row outerRow left) (evalExpr env row outerRow right)
  | .unaryOp op expr => do
      let value ← evalExpr env row outerRow expr
      evalUnary op value
  | .isNull expr => do
      let value ← evalExpr env row outerRow expr
      pure (.bool (value matches .null))
  | .isNotNull expr => do
      let value ← evalExpr env row outerRow expr
      pure (.bool !(value matches .null))
  | .between expr negated low high =>
    evalBetween negated (evalExpr env row outerRow expr) (evalExpr env row outerRow low) (evalExpr env row outerRow high)
  | .like expr pattern negated caseInsensitive =>
    evalLike env.likeMatch env.toUppercase negated caseInsensitive (evalExpr env row outerRow expr)
      (evalExpr env row outerRow pattern)
  | .inList expr list negated => evalInList negated (evalExpr env row outerRow expr) (evalExprs env row outerRow list)
  | .inSubquery expr query negated =>
    evalInQuery negated (evalExpr env row outerRow expr) (env.executeQuery query row)
  | .existsQuery query negated => do
      let result ← env.executeQuery query row
      pure (.bool (!result.rows.isEmpty != negated))
  | .subquery query => evalSubquery (env.executeQuery query row)
  | .case operand branches elseResult =>
    evalCaseOf (evalOption env row outerRow operand) (evalOption env row outerRow elseResult)
      (evalBranches env row outerRow branches)
  | .nested expr => evalExpr env row outerRow expr
  | .function name args => evalFunction env.function name (evalExprs env row outerRow args)
  | .cast expr dataType => do
      let value ← evalExpr env row outerRow expr
      pure (env.cast dataType value)
  | .extract field expr => do
      let value ← evalExpr env row outerRow expr
      pure (env.extract field value)
  | .trim expr => do
      let value ← evalExpr env row outerRow expr
      pure (match value with
        | .text text => .text (env.trim text)
        | value => value)
  | .other text => .error (.unsupported s!"expr: {text}")

def evalExprs (env : Env F Q) (row outerRow : Row F) : List (Expr F Q) → List (Evaluated F (ScalarVal F))
  | [] => []
  | expr :: rest => evalExpr env row outerRow expr :: evalExprs env row outerRow rest

def evalOption (env : Env F Q) (row outerRow : Row F) : Option (Expr F Q) → Option (Evaluated F (ScalarVal F))
  | none => none
  | some expr => some (evalExpr env row outerRow expr)

def evalBranches (env : Env F Q) (row outerRow : Row F) :
    List (Expr F Q × Expr F Q) → List (Evaluated F (ScalarVal F) × Evaluated F (ScalarVal F))
  | [] => []
  | (condition, result) :: rest =>
    (evalExpr env row outerRow condition, evalExpr env row outerRow result) :: evalBranches env row outerRow rest

end

/-- Whether a WHERE or an ON keeps the row: what cannot be evaluated does not. -/
def keeps (env : Env F Q) (outerRow : Row F) (expr : Expr F Q) (row : Row F) : Bool :=
  match evalExpr env row outerRow expr with
  | .ok value => value.truthy
  | .error _ => false

end Evaluator

/-- Whole numbers in the place of `f64`, for queries that are run. -/
instance plainFloats : Floats Int where
  parse _ := none
  ofInt := id
  zero := 0
  add := (· + ·)
  sub := (· - ·)
  mul := (· * ·)
  div := Int.tdiv
  rem := Int.tmod
  neg := (- ·)
  partialCmp left right := some (compare left right)
  integral value := if -2 ^ 63 < value ∧ value < 2 ^ 63 then some value else none

end Neuralbase.Query
