import ResourceQuery.Ty

/-! # Operators of host expressions and of the filter grammar -/
namespace ResourceQuery

inductive ComparisonOp
  | equal | notEqual | less | lessOrEqual | greater | greaterOrEqual
  deriving DecidableEq

inductive LogicalOp
  | and | or
  deriving DecidableEq

inductive ArithmeticOp
  | add | subtract | multiply | divide | modulo
  deriving DecidableEq

inductive BinaryOp
  | comparison (op : ComparisonOp)
  | logical (op : LogicalOp)
  | arithmetic (op : ArithmeticOp)
  deriving DecidableEq

inductive UnaryOp
  | not | negate | convert
  deriving DecidableEq

namespace ComparisonOp

def isEquality : ComparisonOp → Bool
  | .equal | .notEqual => true
  | _ => false

def isOrdering (op : ComparisonOp) : Bool := !op.isEquality

def token : ComparisonOp → String
  | .equal => "eq"
  | .notEqual => "ne"
  | .less => "lt"
  | .lessOrEqual => "le"
  | .greater => "gt"
  | .greaterOrEqual => "ge"

def symbol : ComparisonOp → String
  | .equal => "=="
  | .notEqual => "!="
  | .less => "<"
  | .lessOrEqual => "<="
  | .greater => ">"
  | .greaterOrEqual => ">="

def admits : ComparisonOp → Ordering → Bool
  | .equal, o => o == .eq
  | .notEqual, o => o != .eq
  | .less, o => o == .lt
  | .lessOrEqual, o => o != .gt
  | .greater, o => o == .gt
  | .greaterOrEqual, o => o != .lt

end ComparisonOp

namespace LogicalOp

def token : LogicalOp → String
  | .and => "and"
  | .or => "or"

def symbol : LogicalOp → String
  | .and => "&&"
  | .or => "||"

/-- The left operand that decides the result alone. -/
def decisive : LogicalOp → Bool
  | .and => false
  | .or => true

end LogicalOp

namespace ArithmeticOp

def token : ArithmeticOp → String
  | .add => "add"
  | .subtract => "sub"
  | .multiply => "mul"
  | .divide => "div"
  | .modulo => "mod"

def symbol : ArithmeticOp → String
  | .add => "+"
  | .subtract => "-"
  | .multiply => "*"
  | .divide => "/"
  | .modulo => "%"

end ArithmeticOp

namespace BinaryOp

def symbol : BinaryOp → String
  | .comparison op => op.symbol
  | .logical op => op.symbol
  | .arithmetic op => op.symbol

def comparison? : BinaryOp → Option ComparisonOp
  | .comparison op => some op
  | _ => none

def logical? : BinaryOp → Option LogicalOp
  | .logical op => some op
  | _ => none

def arithmetic? : BinaryOp → Option ArithmeticOp
  | .arithmetic op => some op
  | _ => none

/-- The type of the result when none is declared: arithmetic takes that of its left operand. -/
def resultTy (op : BinaryOp) (left : Ty) : Ty :=
  match op with
  | .arithmetic _ => left
  | _ => .boolean

end BinaryOp

def UnaryOp.symbol : UnaryOp → String
  | .not => "Not"
  | .negate => "-"
  | .convert => "Convert"

end ResourceQuery
