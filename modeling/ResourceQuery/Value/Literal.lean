import ResourceQuery.Text.Quoted
import ResourceQuery.Value

/-! # Literals of the filter grammar

Each kind of value has a form of its own: a suffix on long integers, singles and decimals, a
point in every double, quotes around texts, and a word before dates and identifiers.
-/
namespace ResourceQuery

inductive LiteralError
  | nonFinite (number : String)
  | noLiteral (ty : Ty)
  deriving DecidableEq

def LiteralError.message : LiteralError → String
  | .nonFinite number => "Non-finite number " ++ number ++ " has no literal form"
  | .noLiteral ty => "Values of type " ++ ty.name ++ " have no literal form"

/-- The date with its zone; local and unspecified times show none. -/
def DateTime.literal (t : DateTime) : String :=
  t.clock.text "T" ++ match t.zone with
    | .unspecified | .localTime => ""
    | .utc => "Z"
    | .offset distance => distance.text

namespace Value

def singleLiteral (x : Float32) : Except LiteralError String :=
  if (Number.datum32 x).isFinite then .ok (Number.singleText x ++ "f")
  else .error (.nonFinite (Number.singleText x))

def doubleLiteral (x : Float) : Except LiteralError String :=
  if (Number.datum x).isFinite then
    let text := Number.doubleText x
    .ok (if text.toList.contains '.' then text else text ++ ".0")
  else .error (.nonFinite (Number.doubleText x))

def literal : Value → Except LiteralError String
  | .null => .ok "null"
  | .boolean b => .ok (if b then "true" else "false")
  | .byte n => .ok n.toNat.repr
  | .int16 n => .ok n.toInt.repr
  | .int32 n => .ok n.toInt.repr
  | .int64 n => .ok (n.toInt.repr ++ "L")
  | .single x => singleLiteral x
  | .double x => doubleLiteral x
  | .decimal d => .ok (d.text ++ "m")
  | .char c => .ok (Text.quoted (String.singleton c))
  | .string s => .ok (Text.quoted s)
  | .dateTime t => .ok ("datetime'" ++ t.literal ++ "'")
  | .guid g => .ok ("guid'" ++ g.text ++ "'")
  | v@(.object ..) | v@(.list _) | v@(.dictionary _) => .error (.noLiteral v.ty)

end Value
end ResourceQuery
