import ResourceQuery.Value.Arithmetic

/-! # Conversion of values -/
namespace ResourceQuery.Value

def wholePart? : Operand → Option Int
  | .whole n => some n
  | .real x => Number.truncated x
  | .decimal d => some d.truncated

def convertOperand (source target : Ty) (a : Operand) : Evaluated :=
  match target.underlying with
  | .byte | .int16 | .int32 | .int64 =>
    match wholePart? a with
    | some n => stored "Convert" target n
    | none => .error (.overflow "Convert")
  | .single | .double => .ok (ofReal target a.toFloat)
  | .decimal =>
    match a.toDecimal? with
    | some d => .ok (.decimal d)
    | none => .error (.invalidConversion (some source) target)
  | _ => .error (.invalidConversion (some source) target)

/-- The value as one of the target type. A value that already has the type, or is boxed as an
object, stays as it is; a character converts to the integer of its code point. -/
def convert (target : Ty) (v : Value) : Evaluated :=
  if v.isNull then
    if target.isNullable then .ok .null else .error (.invalidConversion none target)
  else if target.underlying = .object ∨ v.ty = target.underlying then .ok v
  else match v.operand?, v with
    | some a, _ => convertOperand v.ty target a
    | none, .char c =>
      if target.isInteger then stored "Convert" target c.toNat
      else .error (.invalidConversion (some v.ty) target)
    | none, _ => .error (.invalidConversion (some v.ty) target)

end ResourceQuery.Value
