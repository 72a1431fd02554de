import ResourceQuery.Lowering
import ResourceQuery.Mapping.Cache

/-! # Lowering through the cache

Here the cache is asked itself, node by node, so that every answer is kept before the next node is looked
at.
-/
namespace ResourceQuery.Scope

/-- The role of a node, for which a member asks about its property and a construction about its type. -/
def roleThrough (s : Scope) (e : Expr) : StateM Cache Role :=
  match e with
  | .member target declaring name _ =>
    if e.isOpen && asksMapping declaring name then do
      let p ← Cache.property declaring name
      return if p.mapped then .path target declaring name else .unsupported (some (.unmappedMember declaring name))
    else pure (s.role e)
  | .construct ty _ _ =>
    if e.isOpen then do
      let info ← Cache.typeInfo ty
      return if info.any TypeInfo.isProjection then .record else .unsupported none
    else pure (s.role e)
  | _ => pure (s.role e)

/-- The name of a member is asked for when its target turns out to be a path. -/
def extendThrough (e : Expr) (declaring : Ty) (name : String) (target : Query) : StateM Cache Query :=
  match target with
  | .member path _ => do
    let p ← Cache.property declaring name
    return .member (path ++ [p.name]) e.ty
  | .unsupported .. => return .propagated e [target]
  | _ => return .refused e none

def lowerAs (s : Scope) (levels : Nat) (next : Expr → StateM Cache Query) (e : Expr) : Role → StateM Cache Query
  | .path target declaring name => do extendThrough e declaring name (← next target)
  | .entry target key =>
    match s.entryKey levels key with
    | .ok k => do
      let q ← next target
      return extendEntry e k q
    | .error cause => return .refused e (some cause)
  | .comparison op left right => do
    let l ← next left
    let r ← next right
    return joined e [l, r] (.comparison op l r)
  | .logical op left right => do
    let l ← next left
    let r ← next right
    return joined e [l, r] (.logical op l r)
  | .arithmetic op left right => do
    let l ← next left
    let r ← next right
    return joined e [l, r] (.arithmetic op l r e.ty)
  | .concat left right => do
    let l ← next left
    let r ← next right
    return joined e [l, r] (.call .concat [l, r] e.ty)
  | .not operand => do
    let q ← next operand
    return joined e [q] (.not q)
  | .negate operand => do
    let q ← next operand
    return joined e [q] (.negate q)
  | .conversion operand => next operand
  | .hasValue target declaring => do
    let q ← next target
    return joined e [q] (.comparison .notEqual q (.constant .null declaring))
  | .function signature receiver args => do
    let receiver ← receiver.mapM next
    let args ← args.mapM next
    return joined e (receiver.toList ++ args) (called e signature receiver args)
  | .list elements => do
    let parts ← elements.mapM next
    return joined e parts (.list parts e.ty)
  | .constant value => return literal e value
  | .folded =>
    match s.fold levels e with
    | .ok v => return literal e v
    | .error cause => return .refused e (some cause)
  | .source elementTy => return .source elementTy
  | .parameter => return .member [] e.ty
  | .record => return .refused e none
  | .unsupported cause => return .refused e cause

def lowerThrough (s : Scope) : Nat → Expr → StateM Cache Query
  | 0, e => return .refused e (some (.tooDeep s.options.maxDepth))
  | levels + 1, e => do s.lowerAs levels (s.lowerThrough levels) e (← s.roleThrough e)

def fieldNamesThrough (ty : Ty) (arity : Nat) (members : Option (List String)) : StateM Cache (List String) :=
  let fits (names : List String) : Bool := names.length == arity
  match members.filter fits with
  | some names => return names
  | none => do
    let info ← Cache.typeInfo ty
    return ((info.bind TypeInfo.constructor).filter fits).getD (TypeInfo.itemNames arity)

def projectThrough (s : Scope) (body : Expr) (ty : Ty) (args : List Expr) (members : Option (List String)) :
    StateM Cache Query := do
  let names ← fieldNamesThrough ty args.length members
  let values ← args.mapM (s.lowerThrough s.options.maxDepth)
  let fields := Entries.ofPairs (names.zip values)
  return if values.any Query.isUnsupported then .propagated body (Entries.values fields)
    else .projection fields ty

def lowerValueThrough (s : Scope) (form : Form) (body : Expr) : StateM Cache Query := do
  let q ← s.lowerThrough (s.options.maxDepth + 1) body
  return match form with
    | .predicate | .value => q
    | .selector => .selector q
    | .sequence => .selectMany (.source s.parameter.ty) q q.ty

/-- A body that constructs a value asks about its type before all else. -/
def lowerBodyThrough (s : Scope) (form : Form) (body : Expr) : StateM Cache Query :=
  match body.unconverted with
  | .construct ty args members => do
    let info ← Cache.typeInfo ty
    if info.any TypeInfo.isProjection then s.projectThrough body ty args members
    else s.lowerValueThrough form body
  | .list ty elements =>
    if form = .sequence then s.lowerValueThrough form body
    else do
      let parts ← elements.mapM (s.lowerThrough s.options.maxDepth)
      return joined body parts (.list parts ty)
  | _ => s.lowerValueThrough form body

end ResourceQuery.Scope
