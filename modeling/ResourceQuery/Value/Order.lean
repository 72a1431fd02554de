import ResourceQuery.Decimal.Binary
import ResourceQuery.Operator
import ResourceQuery.Value.Failure

/-! # Numeric operands, order and equality of values

Two numbers are brought to one representation before they are compared or combined: decimals
win over floating point, and floating point over integers.
-/
namespace ResourceQuery

inductive Operand
  | whole (n : Int)
  | real (x : Float)
  | decimal (d : Decimal)

namespace Operand

def toDecimal? : Operand → Option Decimal
  | .whole n => Decimal.ofInt? n
  | .real x => Decimal.ofFloat? x
  | .decimal d => some d

def toFloat : Operand → Float
  | .whole n => Number.ofInt n
  | .real x => x
  | .decimal d => d.toFloat

end Operand

inductive Operands
  | whole (a b : Int)
  | real (a b : Float)
  | decimal (a b : Decimal)

/-- `none` if a floating-point number is no decimal. -/
def Operands.of? : Operand → Operand → Option Operands
  | .whole a, .whole b => some (.whole a b)
  | .real a, .real b => some (.real a b)
  | .decimal a, .decimal b => some (.decimal a b)
  | .whole a, .real b => some (.real (Operand.whole a).toFloat b)
  | .real a, .whole b => some (.real a (Operand.whole b).toFloat)
  | .decimal a, b => b.toDecimal?.map (.decimal a)
  | a, .decimal b => a.toDecimal?.map (.decimal · b)

/-- `none` if one of the numbers is not a number. -/
def Number.floatOrder? (a b : Float) : Option Ordering :=
  if a < b then some .lt
  else if b < a then some .gt
  else if a == b then some .eq
  else none

def Operands.order? : Operands → Option Ordering
  | .whole a b => some (compare a b)
  | .real a b => Number.floatOrder? a b
  | .decimal a b => some (a.order b)

namespace Value

def operand? : Value → Option Operand
  | .single x => some (.real (Number.widen x))
  | .double x => some (.real x)
  | .decimal d => some (.decimal d)
  | v => v.integer?.map .whole

def order? (v w : Value) : Option Ordering :=
  match v.operand?, w.operand? with
  | some a, some b => (Operands.of? a b).bind Operands.order?
  | _, _ =>
    match v, w with
    | .string a, .string b => some (compare a b)
    | .char a, .char b => some (compare a b)
    | .boolean a, .boolean b => some (compare a b)
    | .guid a, .guid b => some (a.order b)
    | .dateTime a, .dateTime b => some (a.order b)
    | _, _ => none

/-- Equality across kinds; values without an order are compared within their kind. -/
def equal (v w : Value) : Bool :=
  if v.isNull || w.isNull then v.isNull && w.isNull
  else match v.order? w with
    | some o => o == .eq
    | none => v.same w

/-- The outcome of a comparison. An ordering with null does not hold. -/
def compareBy (op : ComparisonOp) (v w : Value) : Evaluated :=
  match op with
  | .equal => .ok (.boolean (v.equal w))
  | .notEqual => .ok (.boolean (!v.equal w))
  | _ =>
    if v.isNull || w.isNull then .ok (.boolean false)
    else match v.order? w with
      | some o => .ok (.boolean (op.admits o))
      | none => .error (mismatch op.symbol [v, w])

end Value
end ResourceQuery
