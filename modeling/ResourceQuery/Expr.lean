import ResourceQuery.Operator
import ResourceQuery.Value

/-! # Host expressions

The typed tree in which a host describes a predicate, a selector or a chain of query operators.
-/
namespace ResourceQuery

structure Parameter where
  name : String
  ty : Ty
  deriving DecidableEq

/-- The body of a host method. An instance method takes its target as the first argument. -/
abbrev HostFunction := List Value → Except String Value

structure Method where
  declaring : Ty
  name : String
  host : Option HostFunction := none

inductive Expr
  | parameter (p : Parameter)
  | constant (value : Value) (ty : Ty)
  | lambda (parameters : List Parameter) (body : Expr)
  | member (target : Expr) (declaring : Ty) (name : String) (ty : Ty)
  | staticMember (declaring : Ty) (name : String) (ty : Ty)
  | unary (op : UnaryOp) (operand : Expr) (ty : Ty)
  | binary (op : BinaryOp) (left right : Expr) (ty : Ty)
  | call (target : Expr) (method : Method) (args : List Expr) (ty : Ty)
  | staticCall (method : Method) (args : List Expr) (ty : Ty)
  | index (target : Expr) (args : List Expr) (ty : Ty)
  /-- The construction of an object; the host may record which member each argument sets. -/
  | construct (ty : Ty) (args : List Expr) (members : Option (List String))
  | list (ty : Ty) (elements : List Expr)
  | conditional (test ifTrue ifFalse : Expr) (ty : Ty)
  /-- The root of a chain of query operators. -/
  | source (elementTy : Ty)

namespace Expr

/-- The type of a node; a lambda has that of its body. -/
def ty : Expr → Ty
  | .parameter p => p.ty
  | .lambda _ body => body.ty
  | .source elementTy => .queryable elementTy
  | .constant _ ty | .member _ _ _ ty | .staticMember _ _ ty | .unary _ _ ty | .binary _ _ _ ty
  | .call _ _ _ ty | .staticCall _ _ ty | .index _ _ ty | .construct ty _ _ | .list ty _
  | .conditional _ _ _ ty => ty

/-! Nodes with the types that the host language gives them. -/

def ofValue (v : Value) : Expr := .constant v v.ty

def memberOf (target : Expr) (name : String) (ty : Ty) : Expr := .member target target.ty name ty

def notOf (operand : Expr) : Expr := .unary .not operand .boolean

def negateOf (operand : Expr) : Expr := .unary .negate operand operand.ty

def binaryOf (op : BinaryOp) (left right : Expr) : Expr :=
  .binary op left right (op.resultTy left.ty)

def conditionalOf (test ifTrue ifFalse : Expr) : Expr := .conditional test ifTrue ifFalse ifTrue.ty

def recordOf (name : String) (fields : List (String × Expr)) : Expr :=
  .construct (.record name) (fields.map Prod.snd) (some (fields.map Prod.fst))

def tupleOf (args : List Expr) : Expr := .construct (.tuple (args.map ty)) args none

def queryStep (chain : Expr) (name : String) (args : List Expr) : Expr :=
  .call chain ⟨chain.ty, name, none⟩ args chain.ty

def unconverted : Expr → Expr
  | .unary .convert operand _ => operand.unconverted
  | e => e

mutual
/-- Whether a parameter, or a lambda, occurs in the tree. Only closed trees have a value. -/
def isOpen : Expr → Bool
  | .parameter _ | .lambda .. => true
  | .constant .. | .staticMember .. | .source _ => false
  | .member target _ _ _ => target.isOpen
  | .unary _ operand _ => operand.isOpen
  | .binary _ left right _ => left.isOpen || right.isOpen
  | .call target _ args _ => target.isOpen || anyOpen args
  | .staticCall _ args _ => anyOpen args
  | .index target args _ => target.isOpen || anyOpen args
  | .construct _ args _ => anyOpen args
  | .list _ elements => anyOpen elements
  | .conditional test ifTrue ifFalse _ => test.isOpen || ifTrue.isOpen || ifFalse.isOpen
def anyOpen : List Expr → Bool
  | [] => false
  | e :: rest => e.isOpen || anyOpen rest
end

theorem anyOpen_eq_any (es : List Expr) : anyOpen es = es.any isOpen := by
  induction es with
  | nil => rfl
  | cons e es ih => simp [anyOpen, ih]

end Expr
end ResourceQuery
