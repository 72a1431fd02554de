import ResourceQuery.Query.Marker

/-! # Filter text

A tree is printed with the parentheses that its operators need and no others. A tree with
markers is not printed at all.
-/
namespace ResourceQuery.Query

def precedence : Query → Nat
  | .projection .. | .selector _ => 0
  | .logical .or _ _ => 1
  | .logical .and _ _ => 2
  | .comparison .. => 4
  | .arithmetic .add _ _ _ | .arithmetic .subtract _ _ _ => 5
  | .arithmetic .. => 6
  | .not _ | .negate _ => 7
  | _ => 8

/-- The text of an operand, in parentheses if it holds less than `least`. -/
def enclosed (least : Nat) (q : Query) (text : String) : String :=
  if q.precedence < least then "(" ++ text ++ ")" else text

mutual
def bare : Query → Except CompileError String
  | .constant value _ =>
    match value.literal with
    | .ok text => .ok text
    | .error error => .error (.unsupported value.text (some (.literal error)))
  | .member path _ => .ok (pathText path)
  | .comparison op left right => do
    -- Comparisons do not chain.
    let l := enclosed 5 left (← bare left)
    let r := enclosed 5 right (← bare right)
    return l ++ " " ++ op.token ++ " " ++ r
  | .logical op left right => do
    let own := (Query.logical op left right).precedence
    let l := enclosed own left (← bare left)
    let r := enclosed own right (← bare right)
    return l ++ " " ++ op.token ++ " " ++ r
  | .arithmetic op left right ty => do
    let own := (Query.arithmetic op left right ty).precedence
    let l := enclosed own left (← bare left)
    let r := enclosed (own + 1) right (← bare right)
    return l ++ " " ++ op.token ++ " " ++ r
  | .not operand => return "not " ++ enclosed 7 operand (← bare operand)
  | .negate operand => return "-" ++ enclosed 7 operand (← bare operand)
  | .call function args _ => return function.name ++ "(" ++ ",".intercalate (← bareAll args) ++ ")"
  | .projection fields _ => return ",".intercalate (← bareFields fields)
  | .list elements _ => return "[" ++ ",".intercalate (← bareAll elements) ++ "]"
  | .selector value => return enclosed 4 value (← bare value) ++ " as this"
  | .source _ => .ok "this"
  | .selectMany _ flattened _ => bare flattened
  | .unsupported expression cause _ _ => .error (.unsupported expression cause)
def bareAll : List Query → Except CompileError (List String)
  | [] => .ok []
  | q :: rest => return (← bare q) :: (← bareAll rest)
def bareFields : List (String × Query) → Except CompileError (List String)
  | [] => .ok []
  | (name, q) :: rest => return (enclosed 4 q (← bare q) ++ " as " ++ name) :: (← bareFields rest)
end

def print (q : Query) : Except CompileError String :=
  match q.error? with
  | some error => .error error
  | none => bare q

end ResourceQuery.Query
