import ResourceQuery.Lowering

/-! # Lowering by kind

A role carries the parts that are lowered for its node. Its kind does not: lowering by kind looks for them
in the node, and gives up where the node has not the shape that the kind calls for.
-/
namespace ResourceQuery

namespace Role

inductive Kind
  | constant | folded | source | parameter | path | entry
  | comparison (op : ComparisonOp)
  | logical (op : LogicalOp)
  | arithmetic (op : ArithmeticOp)
  | concat | not | negate | conversion | hasValue
  | function (signature : Signature)
  /-- A record or a list. -/
  | construction
  | unsupported (cause : Option Cause)

def kind : Role → Kind
  | .constant _ => .constant
  | .folded => .folded
  | .source _ => .source
  | .parameter => .parameter
  | .path .. => .path
  | .entry .. => .entry
  | .comparison op _ _ => .comparison op
  | .logical op _ _ => .logical op
  | .arithmetic op _ _ => .arithmetic op
  | .concat .. => .concat
  | .not _ => .not
  | .negate _ => .negate
  | .conversion _ => .conversion
  | .hasValue .. => .hasValue
  | .function signature _ _ => .function signature
  | .record | .list _ => .construction
  | .unsupported cause => .unsupported cause

end Role

inductive Misfit
  | constant | source | conversion | hasValue | path
  /-- The target of a member on a path. -/
  | target
  | binary | unary | index
  /-- The only key of an entry. -/
  | key
  | function
  /-- A receiver exactly where the signature has a place for one. -/
  | receiver
  | construction
  deriving DecidableEq

def Expr.receiverAndArgs? : Expr → Option (Option Expr × List Expr)
  | .member target _ _ _ => some (some target, [])
  | .staticMember .. => some (none, [])
  | .call target _ args _ => some (some target, args)
  | .staticCall _ args _ => some (none, args)
  | _ => none

namespace Scope

def lowerBinary (next : Expr → Except Misfit Query) (e : Expr) (build : Query → Query → Query) :
    Except Misfit Query :=
  match e with
  | .binary _ left right _ => do
    let l ← next left
    let r ← next right
    return joined e [l, r] (build l r)
  | _ => throw .binary

def lowerUnary (next : Expr → Except Misfit Query) (e : Expr) (build : Query → Query) :
    Except Misfit Query :=
  match e with
  | .unary _ operand _ => do
    let q ← next operand
    return joined e [q] (build q)
  | _ => throw .unary

/-- The place of the receiver is only looked at when all parts are supported. -/
def lowerFunction (next : Expr → Except Misfit Query) (e : Expr) (signature : Signature) :
    Except Misfit Query :=
  match e.receiverAndArgs? with
  | some (receiver, args) => do
    let receiver ← receiver.mapM next
    let args ← args.mapM next
    if (receiver.toList ++ args).any Query.isUnsupported then
      return .propagated e (receiver.toList ++ args)
    else match signature.arrange? receiver args with
      | some printed => return .call signature.function printed e.ty
      | none => throw .receiver
  | none => throw .function

/-- A node of this kind, made of the parts that are found in it and that `next` lowers. -/
def lowerOfKind (s : Scope) (levels : Nat) (next : Expr → Except Misfit Query) (e : Expr) :
    Role.Kind → Except Misfit Query
  | .constant =>
    match e with
    | .constant value _ => return literal e value
    | _ => throw .constant
  | .folded =>
    match s.fold levels e with
    | .ok v => return literal e v
    | .error cause => return .refused e (some cause)
  | .source =>
    match e with
    | .source elementTy => return .source elementTy
    | _ => throw .source
  | .parameter => return .member [] e.ty
  | .conversion =>
    match e with
    | .unary _ operand _ => next operand
    | .member target _ _ _ => next target
    | _ => throw .conversion
  | .hasValue =>
    match e with
    | .member target declaring _ _ => do
      let q ← next target
      return joined e [q] (.comparison .notEqual q (.constant .null declaring))
    | _ => throw .hasValue
  | .comparison op => lowerBinary next e (.comparison op)
  | .logical op => lowerBinary next e (.logical op)
  | .arithmetic op => lowerBinary next e (.arithmetic op · · e.ty)
  | .concat => lowerBinary next e fun l r => .call .concat [l, r] e.ty
  | .not => lowerUnary next e .not
  | .negate => lowerUnary next e .negate
  | .path =>
    match e with
    | .member target declaring name _ => do
      let q ← next target
      return extendPath e (s.mapping.property declaring name).name q
    | .staticMember .. => throw .target
    | _ => throw .path
  | .entry =>
    match e with
    | .index target [key] _ =>
      match s.entryKey levels key with
      | .ok k => do
        let q ← next target
        return extendEntry e k q
      | .error cause => return .refused e (some cause)
    | .index .. => throw .key
    | _ => throw .index
  | .function signature => lowerFunction next e signature
  | .construction =>
    match e with
    | .list _ elements => do
      let parts ← elements.mapM next
      return joined e parts (.list parts e.ty)
    | .construct .. => return .refused e none
    | _ => throw .construction
  | .unsupported cause => return .refused e cause

def lowerByKind (s : Scope) : Nat → Expr → Except Misfit Query
  | 0, e => return .refused e (some (.tooDeep s.options.maxDepth))
  | levels + 1, e => s.lowerOfKind levels (s.lowerByKind levels) e (s.role e).kind

end Scope

end ResourceQuery
