import ResourceQuery.Expr.Fold
import ResourceQuery.Mapping
import ResourceQuery.Options
import ResourceQuery.Query

/-! # Roles of the nodes of a lambda body

What a node is in the filter grammar, with the parts that are lowered for it.
-/
namespace ResourceQuery

inductive Role
  | constant (value : Value)
  /-- Closed, to be folded to a constant. -/
  | folded
  | source (elementTy : Ty)
  /-- The lambda parameter. -/
  | parameter
  /-- A mapped member, one more name on a path. -/
  | path (target : Expr) (declaring : Ty) (name : String)
  /-- An entry of a dictionary, whose key is one more name on a path. -/
  | entry (target key : Expr)
  | comparison (op : ComparisonOp) (left right : Expr)
  | logical (op : LogicalOp) (left right : Expr)
  | arithmetic (op : ArithmeticOp) (left right : Expr)
  | concat (left right : Expr)
  | not (operand : Expr)
  | negate (operand : Expr)
  /-- A wrapper that filtering does not see. -/
  | conversion (operand : Expr)
  /-- A test for null. -/
  | hasValue (target : Expr) (declaring : Ty)
  | function (signature : Signature) (receiver : Option Expr) (args : List Expr)
  /-- The construction of a record below the root. -/
  | record
  | list (elements : List Expr)
  | unsupported (cause : Option Cause)

/-- What the names in a lambda body mean, and what may be lowered. -/
structure Scope where
  mapping : Mapping
  options : Options
  parameter : Parameter

namespace Scope

def isProjection (s : Scope) (ty : Ty) : Bool :=
  match s.mapping.typeInfo ty with
  | some info => info.isProjection
  | none => false

/-- The wrappers of a nullable type that are not members of its values. -/
inductive NullableMember
  | value
  | hasValue

def nullableMember? (declaring : Ty) (name : String) : Option NullableMember :=
  match declaring, name with
  | .nullable _, "Value" => some .value
  | .nullable _, "HasValue" => some .hasValue
  | _, _ => none

def isDictionary (ty : Ty) : Bool :=
  match ty.underlying with
  | .dictionary .. => true
  | _ => false

def asksMapping (declaring : Ty) (name : String) : Bool :=
  (nullableMember? declaring name).isNone && (Receiver.of? declaring).isNone && !isDictionary declaring

def memberRole (s : Scope) (target : Expr) (declaring : Ty) (name : String) : Role :=
  match nullableMember? declaring name with
  | some .value => .conversion target
  | some .hasValue => .hasValue target declaring
  | none =>
    match Receiver.of? declaring with
    | some receiver =>
      match lookup receiver name .property [] with
      | .found signature => .function signature (some target) []
      | _ => .unsupported (some (.unknownMember declaring name))
    | none =>
      if isDictionary declaring then .unsupported (some (.unknownMember declaring name))
      else if (s.mapping.property declaring name).mapped then .path target declaring name
      else .unsupported (some (.unmappedMember declaring name))

def binaryRole (s : Scope) (op : BinaryOp) (left right : Expr) (ty : Ty) : Role :=
  match op with
  | .logical op => .logical op left right
  | .comparison op =>
    if op.isOrdering && !s.options.orderingComparisons then
      .unsupported (some (.unsupportedOperator op.symbol))
    else .comparison op left right
  | .arithmetic op =>
    if !s.options.arithmetic then .unsupported (some (.unsupportedOperator op.symbol))
    else if op = .add && (ty.isText || left.ty.isText) then .concat left right
    else .arithmetic op left right

def callRole (access : Access) (method : Method) (target : Option Expr) (args : List Expr) : Role :=
  let unknown := Role.unsupported (some (.unknownMethod method.declaring method.name))
  match Receiver.of? method.declaring with
  | none => unknown
  | some receiver =>
    match lookup receiver method.name access (args.map Expr.ty) with
    | .found signature => .function signature target args
    | .mismatch function detail => .unsupported (some (.badArguments function.name detail))
    | .unknown => unknown

def isTextKeyed (ty : Ty) : Bool :=
  match ty.underlying with
  | .dictionary key _ => key.isText
  | _ => false

def indexRole (target : Expr) (args : List Expr) : Role :=
  let refused := Role.unsupported (some (.unsupportedIndexer target.ty))
  match args with
  | [key] =>
    if isTextKeyed target.ty && key.ty.isText then
      if key.isOpen then .unsupported (some (.nonLiteralKey key.text)) else .entry target key
    else refused
  | _ => refused

def ifOpen (e : Expr) (role : Role) : Role := if e.isOpen then role else .folded

def role (s : Scope) (e : Expr) : Role :=
  match e with
  | .constant value _ => .constant value
  | .source elementTy => .source elementTy
  | .lambda .. => .unsupported none
  | .staticMember .. => .folded
  | .parameter p =>
    if p.name = s.parameter.name then .parameter else .unsupported (some (.foreignParameter p.name))
  | .unary .not operand _ => ifOpen e (.not operand)
  | .unary .negate operand _ => ifOpen e (.negate operand)
  | .unary .convert operand _ => ifOpen e (.conversion operand)
  | .binary op left right ty => ifOpen e (s.binaryRole op left right ty)
  | .member target declaring name _ => ifOpen e (s.memberRole target declaring name)
  | .call target method args _ => ifOpen e (callRole .method method (some target) args)
  | .staticCall method args _ => ifOpen e (callRole .staticMethod method none args)
  | .index target args _ => ifOpen e (indexRole target args)
  | .construct ty _ _ => ifOpen e (if s.isProjection ty then .record else .unsupported none)
  | .list _ elements => ifOpen e (.list elements)
  | .conditional .. => ifOpen e (.unsupported none)

end Scope
end ResourceQuery
