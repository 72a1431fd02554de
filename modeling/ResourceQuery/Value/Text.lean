import ResourceQuery.Value

/-! # Display text of values -/
namespace ResourceQuery.Value

def text : Value → String
  | .null => "null"
  | .boolean b => if b then "true" else "false"
  | .byte n => n.toNat.repr
  | .int16 n => n.toInt.repr
  | .int32 n => n.toInt.repr
  | .int64 n => n.toInt.repr
  | .single x => Number.singleText x
  | .double x => Number.doubleText x
  | .decimal d => d.text
  | .char c => "'" ++ String.singleton c ++ "'"
  | .string s => "\"" ++ s ++ "\""
  | .dateTime t => t.clock.text " "
  | .guid g => g.text
  | .object typeName _ => "value(" ++ typeName ++ ")"
  | .list _ => "value(List)"
  | .dictionary _ => "value(Dictionary)"

end ResourceQuery.Value
