import ResourceQuery.Expr
import ResourceQuery.Value.Text

/-! # Text of host expressions

The text is for messages. What lies too deep is left out.
-/
namespace ResourceQuery.Expr

def shownLevels : Nat := 33

/-- The text of a tree cut off after so many levels. -/
def textWithin : Nat → Expr → String
  | 0, _ => "..."
  | levels + 1, e =>
    let child := textWithin levels
    let children (es : List Expr) := ", ".intercalate (es.map child)
    match e with
    | .parameter p => p.name
    | .constant value _ => value.text
    | .lambda [p] body => p.name ++ " => " ++ child body
    | .lambda parameters body =>
      "(" ++ ", ".intercalate (parameters.map Parameter.name) ++ ") => " ++ child body
    | .member target _ name _ => child target ++ "." ++ name
    | .staticMember declaring name _ => declaring.name ++ "." ++ name
    | .unary .not operand _ => "Not(" ++ child operand ++ ")"
    | .unary .negate operand _ => "-" ++ child operand
    | .unary .convert operand ty => "Convert(" ++ child operand ++ ", " ++ ty.name ++ ")"
    | .binary op left right _ =>
      "(" ++ child left ++ " " ++ op.symbol ++ " " ++ child right ++ ")"
    | .call target method args _ =>
      child target ++ "." ++ method.name ++ "(" ++ children args ++ ")"
    | .staticCall method args _ =>
      method.declaring.name ++ "." ++ method.name ++ "(" ++ children args ++ ")"
    | .index target args _ => child target ++ "[" ++ children args ++ "]"
    | .construct ty args (some members) =>
      let fields := (members.zip args).map fun (name, arg) => name ++ " = " ++ child arg
      "new " ++ ty.name ++ "(" ++ ", ".intercalate fields ++ ")"
    | .construct ty args none => "new " ++ ty.name ++ "(" ++ children args ++ ")"
    | .list _ elements => "new [] \x7b" ++ children elements ++ "\x7d"
    | .conditional test ifTrue ifFalse _ =>
      "IIF(" ++ child test ++ ", " ++ child ifTrue ++ ", " ++ child ifFalse ++ ")"
    | .source elementTy => "value(Queryable<" ++ elementTy.name ++ ">)"

def text (e : Expr) : String := textWithin shownLevels e

end ResourceQuery.Expr
