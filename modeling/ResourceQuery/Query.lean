import ResourceQuery.Error
import ResourceQuery.Expr.Text
import ResourceQuery.Function

/-! # Query trees

What a lambda body becomes: a tree of the filter grammar, with markers where the grammar has no
form. A marker that stands for a parent of markers keeps the lowered children, so that every
place where something was refused can be reached.
-/
namespace ResourceQuery

inductive Query
  | constant (value : Value) (ty : Ty)
  /-- A path of member names from the lambda parameter; the empty path is the parameter. -/
  | member (path : List String) (ty : Ty)
  | comparison (op : ComparisonOp) (left right : Query)
  | logical (op : LogicalOp) (left right : Query)
  | arithmetic (op : ArithmeticOp) (left right : Query) (ty : Ty)
  | not (operand : Query)
  | negate (operand : Query)
  /-- The arguments are in printed order. -/
  | call (function : Function) (args : List Query) (ty : Ty)
  | projection (fields : List (String × Query)) (ty : Ty)
  | list (elements : List Query) (ty : Ty)
  /-- The root of a selection of one value. -/
  | selector (value : Query)
  | source (elementTy : Ty)
  | selectMany (base flattened : Query) (ty : Ty)
  | unsupported (expression : String) (cause : Option Cause) (nested : List Query) (ty : Ty)

namespace Query

def ty : Query → Ty
  | .constant _ ty | .member _ ty | .arithmetic _ _ _ ty | .call _ _ ty | .projection _ ty
  | .list _ ty | .selectMany _ _ ty | .unsupported _ _ _ ty => ty
  | .comparison .. | .logical .. | .not _ => .boolean
  | .negate operand | .selector operand => operand.ty
  | .source elementTy => .queryable elementTy

def refused (e : Expr) (cause : Option Cause) : Query := .unsupported e.text cause [] e.ty

/-- A marker in place of a node whose children have markers. -/
def propagated (e : Expr) (nested : List Query) : Query := .unsupported e.text none nested e.ty

def isUnsupported : Query → Bool
  | .unsupported .. => true
  | _ => false

def isBoolean (value : Bool) : Query → Bool
  | .constant (.boolean b) _ => b == value
  | _ => false

def children : Query → List Query
  | .constant .. | .member .. | .source _ => []
  | .comparison _ left right | .logical _ left right | .arithmetic _ left right _ => [left, right]
  | .not operand | .negate operand | .selector operand => [operand]
  | .call _ args _ => args
  | .projection fields _ => Entries.values fields
  | .list elements _ => elements
  | .selectMany base flattened _ => [base, flattened]
  | .unsupported _ _ nested _ => nested

/-- A path as it is written: the parameter itself is `this`. -/
def pathText (path : List String) : String :=
  match path with
  | [] => "this"
  | _ => ".".intercalate path

end Query
end ResourceQuery
