import ResourceQuery.Value

/-! # Failures of evaluation -/
namespace ResourceQuery

inductive EvalError
  | divisionByZero
  | overflow (operation : String)
  | nullReference (member : String)
  | missingMember (ty : Ty) (member : String)
  | keyNotFound (key : String)
  | indexOutOfRange (index : Int) (length : Nat)
  /-- No source type stands for null. -/
  | invalidConversion (source : Option Ty) (target : Ty)
  | typeMismatch (operator : String) (operands : List Ty)
  | notEvaluable (expression : String)
  | hostFailure (method message : String)
  | tooDeep
  deriving DecidableEq

def EvalError.message : EvalError → String
  | .divisionByZero => "Division by zero"
  | .overflow operation => "Arithmetic overflow in " ++ operation
  | .nullReference member => "Null reference while reading '" ++ member ++ "'"
  | .missingMember ty member => "Type " ++ ty.name ++ " has no member '" ++ member ++ "'"
  | .keyNotFound key => "Key '" ++ key ++ "' not found"
  | .indexOutOfRange index length =>
    "Index " ++ index.repr ++ " out of range for length " ++ length.repr
  | .invalidConversion source target =>
    "Cannot convert " ++ (source.map Ty.name).getD "null" ++ " to " ++ target.name
  | .typeMismatch operator operands =>
    "Operator " ++ operator ++ " cannot be applied to " ++ ", ".intercalate (operands.map Ty.name)
  | .notEvaluable expression => "Expression `" ++ expression ++ "` cannot be evaluated"
  | .hostFailure method message => "Host method " ++ method ++ " failed: " ++ message
  | .tooDeep => "Expression nesting too deep to evaluate"

abbrev Evaluated := Except EvalError Value

def mismatch (operator : String) (operands : List Value) : EvalError :=
  .typeMismatch operator (operands.map Value.ty)

end ResourceQuery
