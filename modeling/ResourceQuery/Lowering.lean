import ResourceQuery.Lowering.Role

/-! # Lowering lambda bodies to query trees

Children are lowered before their parent, and a parent of a marker becomes a marker. The budget
is the number of levels that are left; a node without any is refused.
-/
namespace ResourceQuery

inductive Form
  | predicate
  | value
  | selector
  /-- The selector of a `SelectMany`, whose value is a sequence. -/
  | sequence
  deriving DecidableEq

namespace Scope

def literal (e : Expr) (v : Value) : Query :=
  match v.literal with
  | .ok _ => .constant v e.ty
  | .error error => .refused e (some (.literal error))

def fold (s : Scope) (levels : Nat) (e : Expr) : Except Cause Value :=
  match e.evaluateWithin (levels - 1) with
  | .ok v => .ok v
  | .error .tooDeep => .error (.tooDeep s.options.maxDepth)
  | .error error => .error (.evaluation error)

def joined (e : Expr) (parts : List Query) (node : Query) : Query :=
  if parts.any Query.isUnsupported then .propagated e parts else node

/-- A call of a function, unless a receiver is missing or has no place. -/
def called (e : Expr) (signature : Signature) (receiver : Option Query) (args : List Query) : Query :=
  match signature.arrange? receiver args with
  | some printed => .call signature.function printed e.ty
  | none => .refused e none

def extendPath (e : Expr) (name : String) (target : Query) : Query :=
  match target with
  | .member path _ => .member (path ++ [name]) e.ty
  | .unsupported .. => .propagated e [target]
  | _ => .refused e none

/-- The path of a dictionary entry. The parameter itself is no dictionary that has a name. -/
def extendEntry (e : Expr) (key : String) (target : Query) : Query :=
  match target with
  | .member [] _ => .refused e none
  | _ => extendPath e key target

def entryKey (s : Scope) (levels : Nat) (key : Expr) : Except Cause String :=
  match s.fold levels key with
  | .error cause => .error cause
  | .ok v => match v.text? with
    | some k => .ok k
    | none => .error (.nonLiteralKey key.text)

def lower (s : Scope) : Nat → Expr → Query
  | 0, e => .refused e (some (.tooDeep s.options.maxDepth))
  | levels + 1, e =>
    match s.role e with
    | .constant value => literal e value
    | .folded =>
      match s.fold levels e with
      | .ok v => literal e v
      | .error cause => .refused e (some cause)
    | .source elementTy => .source elementTy
    | .parameter => .member [] e.ty
    | .path target declaring name =>
      extendPath e (s.mapping.property declaring name).name (s.lower levels target)
    | .entry target key =>
      match s.entryKey levels key with
      | .ok k => extendEntry e k (s.lower levels target)
      | .error cause => .refused e (some cause)
    | .comparison op left right =>
      let l := s.lower levels left
      let r := s.lower levels right
      joined e [l, r] (.comparison op l r)
    | .logical op left right =>
      let l := s.lower levels left
      let r := s.lower levels right
      joined e [l, r] (.logical op l r)
    | .arithmetic op left right =>
      let l := s.lower levels left
      let r := s.lower levels right
      joined e [l, r] (.arithmetic op l r e.ty)
    | .concat left right =>
      let l := s.lower levels left
      let r := s.lower levels right
      joined e [l, r] (.call .concat [l, r] e.ty)
    | .not operand =>
      let q := s.lower levels operand
      joined e [q] (.not q)
    | .negate operand =>
      let q := s.lower levels operand
      joined e [q] (.negate q)
    | .conversion operand => s.lower levels operand
    | .hasValue target declaring =>
      let q := s.lower levels target
      joined e [q] (.comparison .notEqual q (.constant .null declaring))
    | .function signature receiver args =>
      let receiver := receiver.map (s.lower levels)
      let args := args.map (s.lower levels)
      joined e (receiver.toList ++ args) (called e signature receiver args)
    | .record => .refused e none
    | .list elements =>
      let parts := elements.map (s.lower levels)
      joined e parts (.list parts e.ty)
    | .unsupported cause => .refused e cause

/-- The names of the fields of a projection: those recorded, or the constructor's, if there are
as many as arguments, and otherwise those of a tuple's items. -/
def fieldNames (s : Scope) (ty : Ty) (arity : Nat) (members : Option (List String)) : List String :=
  let fits (names : List String) : Bool := names.length == arity
  match members.filter fits with
  | some names => names
  | none =>
    match ((s.mapping.typeInfo ty).bind TypeInfo.constructor).filter fits with
    | some names => names
    | none => TypeInfo.itemNames arity

/-- A projection. One field that fails makes it fail as a whole. -/
def project (s : Scope) (body : Expr) (ty : Ty) (args : List Expr) (members : Option (List String)) :
    Query :=
  let values := args.map (s.lower s.options.maxDepth)
  let fields := Entries.ofPairs ((s.fieldNames ty args.length members).zip values)
  if values.any Query.isUnsupported then .propagated body (Entries.values fields)
  else .projection fields ty

def lowerValue (s : Scope) (form : Form) (body : Expr) : Query :=
  let q := s.lower (s.options.maxDepth + 1) body
  match form with
  | .predicate | .value => q
  | .selector => .selector q
  | .sequence => .selectMany (.source s.parameter.ty) q q.ty

/-- Lowers a lambda body. A record, and outside of sequences a list, is a selection of its own
whatever the lambda is for. -/
def lowerBody (s : Scope) (form : Form) (body : Expr) : Query :=
  match body.unconverted with
  | .construct ty args members =>
    if s.isProjection ty then s.project body ty args members else s.lowerValue form body
  | .list ty elements =>
    if form = .sequence then s.lowerValue form body
    else
      let parts := elements.map (s.lower s.options.maxDepth)
      joined body parts (.list parts ty)
  | _ => s.lowerValue form body

end Scope
end ResourceQuery
