import ResourceQuery.Expr.Text
import ResourceQuery.Value.Conversion
import ResourceQuery.Value.Member

/-! # Folding closed expressions

A closed expression has a value or a reason why it has none. Operands are evaluated from left
to right, `&&` and `||` only as far as they have to be, and no deeper than the budget allows.
-/
namespace ResourceQuery.Expr

def truth (operator : String) : Value → Except EvalError Bool
  | .boolean b => .ok b
  | v => .error (mismatch operator [v])

/-- A method call on evaluated operands. The host's own implementation comes first. -/
def invoke (method : Method) (target : Option Value) (args : List Value) : Evaluated :=
  let unknown : EvalError := .notEvaluable (method.declaring.name ++ "." ++ method.name)
  match method.host with
  | some run =>
    match run (target.toList ++ args) with
    | .ok v => .ok v
    | .error message => .error (.hostFailure method.name message)
  | none =>
    match target with
    | some .null => .error (.nullReference method.name)
    | some (.string s) => (Value.stringMethod s method.name args).getD (.error unknown)
    | some _ => .error unknown
    | none => (Value.staticMethod method.declaring method.name args).getD (.error unknown)

def applyUnary (op : UnaryOp) (ty : Ty) (v : Value) : Evaluated :=
  match op with
  | .not => match v with
    | .null => .ok .null
    | .boolean b => .ok (.boolean !b)
    | v => .error (mismatch "Not" [v])
  | .negate => v.negate ty
  | .convert => v.convert ty

def eval : Nat → Expr → Evaluated
  | 0, _ => .error .tooDeep
  | budget + 1, e =>
    match e with
    | .constant value _ => .ok value
    | .member target declaring name _ => do
      (← eval budget target).member declaring name
    | .staticMember declaring name _ => .error (.notEvaluable (declaring.name ++ "." ++ name))
    | .unary op operand ty => do
      applyUnary op ty (← eval budget operand)
    | .binary (.logical op) left right _ => do
      let l ← truth op.symbol (← eval budget left)
      if l = op.decisive then return .boolean l
      return .boolean (← truth op.symbol (← eval budget right))
    | .binary (.comparison op) left right _ => do
      let l ← eval budget left
      let r ← eval budget right
      l.compareBy op r
    | .binary (.arithmetic op) left right ty => do
      let l ← eval budget left
      let r ← eval budget right
      l.arithmetic op ty r
    | .call target method args _ => do
      let t ← eval budget target
      invoke method (some t) (← args.mapM (eval budget))
    | .staticCall method args _ => do
      invoke method none (← args.mapM (eval budget))
    | .index target args _ => do
      let t ← eval budget target
      match args with
      | [key] => t.entry (← eval budget key)
      | _ => .error (.notEvaluable e.text)
    | .list _ elements => return .list (← elements.mapM (eval budget))
    | .conditional test ifTrue ifFalse _ => do
      if ← truth "?:" (← eval budget test) then eval budget ifTrue else eval budget ifFalse
    | .parameter _ | .lambda .. | .construct .. | .source _ => .error (.notEvaluable e.text)

/-- The value of a tree with at most `maxDepth` levels below its root. -/
def evaluateWithin (maxDepth : Nat) (e : Expr) : Evaluated := eval (maxDepth + 1) e

def defaultDepth : Nat := 256

def evaluate (e : Expr) : Evaluated := evaluateWithin defaultDepth e

end ResourceQuery.Expr
