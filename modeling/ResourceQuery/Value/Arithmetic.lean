import ResourceQuery.Decimal.Quotient
import ResourceQuery.Decimal.Remainder
import ResourceQuery.Value.Order

/-! # Arithmetic on values

Integers are computed exactly and refused where the declared type, or 64 bits, cannot hold the
result. Null in, null out.
-/
namespace ResourceQuery

def minInt64 : Int := -9223372036854775808
def maxInt64 : Int := 9223372036854775807

def inInt64 (n : Int) : Bool := minInt64 ≤ n && n ≤ maxInt64

namespace Value

def byte? (n : Int) : Option Value :=
  if 0 ≤ n ∧ n < 256 then some (.byte (UInt8.ofNat n.toNat)) else none

def int16? (n : Int) : Option Value :=
  if -32768 ≤ n ∧ n ≤ 32767 then some (.int16 (Int16.ofInt n)) else none

def int32? (n : Int) : Option Value :=
  if -2147483648 ≤ n ∧ n ≤ 2147483647 then some (.int32 (Int32.ofInt n)) else none

/-- A whole number as a value of the declared type, or of 32 bits if that is not numeric. -/
def ofWhole? (ty : Ty) (n : Int) : Option Value :=
  if !inInt64 n then none
  else match ty.underlying with
    | .byte => byte? n
    | .int16 => int16? n
    | .int64 => some (.int64 (Int64.ofInt n))
    | .single => some (.single (Number.ofInt32 n))
    | .double => some (.double (Number.ofInt n))
    | .decimal => (Decimal.ofInt? n).map .decimal
    | _ => int32? n

def stored (operation : String) (ty : Ty) (n : Int) : Evaluated :=
  match ofWhole? ty n with
  | some v => .ok v
  | none => .error (.overflow operation)

def ofReal (ty : Ty) (x : Float) : Value :=
  match ty.underlying with
  | .single => .single (Number.narrow x)
  | _ => .double x

def negate (ty : Ty) (v : Value) : Evaluated :=
  match v, v.operand? with
  | .null, _ => .ok .null
  | _, some (.whole n) => stored "Negate" ty (-n)
  | _, some (.real x) => .ok (ofReal ty (-x))
  | _, some (.decimal d) => .ok (.decimal d.neg)
  | _, none => .error (mismatch "Negate" [v])

/-- Exact, toward zero. A remainder whose quotient has more than 64 bits is refused with it. -/
def wholeArithmetic (op : ArithmeticOp) (ty : Ty) (a b : Int) : Evaluated :=
  match op with
  | .add => stored op.symbol ty (a + b)
  | .subtract => stored op.symbol ty (a - b)
  | .multiply => stored op.symbol ty (a * b)
  | .divide => if b = 0 then .error .divisionByZero else stored op.symbol ty (a.tdiv b)
  | .modulo =>
    if b = 0 then .error .divisionByZero
    else if inInt64 (a.tdiv b) then stored op.symbol ty (a.tmod b)
    else .error (.overflow op.symbol)

def sized (op : ArithmeticOp) : Option Decimal → Evaluated
  | some d => .ok (.decimal d)
  | none => .error (.overflow op.symbol)

def decimalArithmetic (op : ArithmeticOp) (a b : Decimal) : Evaluated :=
  match op with
  | .add => sized op (a.add b)
  | .subtract => sized op (a.sub b)
  | .multiply => sized op (a.mul b)
  | .divide => if b.isZero then .error .divisionByZero else sized op (a.div b)
  | .modulo => if b.isZero then .error .divisionByZero else sized op (a.rem b)

def realArithmetic (op : ArithmeticOp) (a b : Float) : Float :=
  match op with
  | .add => a + b
  | .subtract => a - b
  | .multiply => a * b
  | .divide => a / b
  | .modulo => Number.remainder a b

def concat (v w : Value) : Evaluated :=
  match v.concatenand?, w.concatenand? with
  | some s, some t => .ok (.string (s ++ t))
  | _, _ => .error (mismatch ArithmeticOp.add.symbol [v, w])

/-- Addition joins texts if the result or the left operand is one. -/
def joins (op : ArithmeticOp) (ty : Ty) (v : Value) : Bool :=
  op = .add && (ty.isText || v.string?.isSome)

def arithmetic (op : ArithmeticOp) (ty : Ty) (v w : Value) : Evaluated :=
  if joins op ty v then concat v w
  else if v.isNull || w.isNull then .ok .null
  else match v.operand?, w.operand? with
    | some a, some b =>
      match Operands.of? a b with
      | some (.whole a b) => wholeArithmetic op ty a b
      | some (.decimal a b) => decimalArithmetic op a b
      | some (.real a b) => .ok (ofReal ty (realArithmetic op a b))
      | none => .error (mismatch op.symbol [v, w])
    | _, _ => .error (mismatch op.symbol [v, w])

end Value
end ResourceQuery
