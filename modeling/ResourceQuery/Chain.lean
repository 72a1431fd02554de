import ResourceQuery.Compiler
import ResourceQuery.Parameters

/-! # Chains of query operators

A chain applies query operators to a source, one after the other. It becomes query parameters
if its operators come in an order that these can express.
-/
namespace ResourceQuery

inductive QueryOp
  | filter
  | select
  | selectMany
  | orderBy (descending : Bool)
  | thenBy (descending : Bool)
  | take
  | skip
  | expand
  | expandShallow
  | first
  | totalCount
  deriving DecidableEq

namespace QueryOp

def ofName? : String → Option QueryOp
  | "Where" => some .filter
  | "Select" => some .select
  | "SelectMany" => some .selectMany
  | "OrderBy" => some (.orderBy false)
  | "OrderByDescending" => some (.orderBy true)
  | "ThenBy" => some (.thenBy false)
  | "ThenByDescending" => some (.thenBy true)
  | "Take" => some .take
  | "Skip" => some .skip
  | "Expand" => some .expand
  | "ExpandShallow" => some .expandShallow
  | "FirstLazy" => some .first
  | "IncludeTotalCount" => some .totalCount
  | _ => none

def form? : QueryOp → Option Form
  | .filter => some .predicate
  | .select => some .selector
  | .selectMany => some .sequence
  | .orderBy _ | .thenBy _ | .expand | .expandShallow => some .value
  | .take | .skip | .first | .totalCount => none

end QueryOp

structure Step where
  name : String
  args : List Expr

structure Chain where
  elementTy : Ty
  steps : List Step

/-- Walks from the last operator to the source; `later` are the steps already passed. -/
def Chain.ofExpr? (later : List Step) : Expr → Option Chain
  | .source elementTy => some ⟨elementTy, later⟩
  | .unary .convert operand _ => Chain.ofExpr? later operand
  | .call target method args _ => Chain.ofExpr? (⟨method.name, args⟩ :: later) target
  | _ => none

structure Progress where
  /-- The type of the elements that the next lambda is applied to. -/
  elementTy : Ty
  filters : List Query := []
  parameters : Parameters := {}
  /-- A single element has been asked for. -/
  finished : Bool := false

namespace Progress

def isPaged (p : Progress) : Bool := p.parameters.top.isSome || p.parameters.skip.isSome

def outOfOrder (step : Step) (reason : String) : CompileError :=
  .chain ⟨201⟩ (step.name ++ " " ++ reason)

def sequencing (p : Progress) (position : Nat) (step : Step) : QueryOp → Except CompileError Unit
  | .filter | .orderBy _ =>
    if p.isPaged then .error (outOfOrder step "cannot follow Take or Skip") else .ok ()
  | .thenBy _ =>
    if p.isPaged then .error (outOfOrder step "cannot follow Take or Skip")
    else if p.parameters.orderBy.isEmpty then .error (outOfOrder step "requires a preceding OrderBy")
    else .ok ()
  | .selectMany =>
    if position = 0 then .ok () else .error (outOfOrder step "must be applied directly to the source")
  | .skip =>
    if p.parameters.top.isSome then .error (outOfOrder step "cannot follow Take") else .ok ()
  | .select | .take | .expand | .expandShallow | .first | .totalCount => .ok ()

def accept (p : Progress) (position : Nat) (step : Step) : Except CompileError QueryOp := do
  if p.finished then throw (outOfOrder step "cannot follow FirstLazy")
  if p.parameters.select.isSome then throw (outOfOrder step "cannot follow Select")
  match QueryOp.ofName? step.name with
  | none => throw (.chain ⟨200⟩ ("Query operator " ++ step.name ++ " is not supported"))
  | some op =>
    p.sequencing position step op
    return op

def lambdaArg (step : Step) : Except CompileError Expr :=
  match step.args with
  | [arg] => .ok arg
  | _ => .error (.invalidArgument ⟨100⟩ (step.name ++ " expects a single lambda argument"))

/-- The count of a step: a closed expression whose value is an integer from zero on. -/
def countArg (step : Step) : Except CompileError Int :=
  match step.args with
  | [arg] =>
    match arg.evaluate with
    | .error error => .error (.invalidArgument ⟨100⟩ (step.name ++ ": " ++ error.message))
    | .ok v =>
      let refused := CompileError.invalidArgument ⟨100⟩
        (step.name ++ " expects a non-negative integer, got " ++ v.text)
      match v.integer? with
      | some n => if 0 ≤ n then .ok n else .error refused
      | none => .error refused
  | _ => .error (.invalidArgument ⟨100⟩ (step.name ++ " expects a single count argument"))

def lowerArg (c : Compiler) (p : Progress) (form : Form) (step : Step) :
    Except CompileError Query := do
  c.lower form (some p.elementTy) (← lambdaArg step)

def printArg (c : Compiler) (p : Progress) (form : Form) (step : Step) :
    Except CompileError String := do
  (← lowerArg c p form step).print

/-- At most `count` elements, whatever was asked for before. -/
def capped (count : Int) (top : Option Int) : Int :=
  match top with
  | some n => min n count
  | none => count

def withOrder (p : Progress) (keys : List OrderKey) : Progress :=
  { p with parameters := { p.parameters with orderBy := keys } }

def withExpansion (p : Progress) (path : String) : Progress :=
  { p with parameters := { p.parameters with expand := p.parameters.expand ++ [path] } }

def perform (c : Compiler) (p : Progress) (step : Step) : QueryOp → Except CompileError Progress
  | .filter => do
    let q ← lowerArg c p .predicate step
    return { p with filters := p.filters ++ [q] }
  | .select => do
    let text ← printArg c p .selector step
    return { p with parameters := { p.parameters with select := some text } }
  | .selectMany => do
    let q ← lowerArg c p .sequence step
    let text ← q.print
    return { p with
      elementTy := q.ty.element?.getD p.elementTy
      parameters := { p.parameters with selectMany := some text } }
  | .orderBy descending => do
    let text ← printArg c p .value step
    return p.withOrder [⟨text, descending⟩]
  | .thenBy descending => do
    let text ← printArg c p .value step
    return p.withOrder (p.parameters.orderBy ++ [⟨text, descending⟩])
  | .take => do
    let count ← countArg step
    return { p with parameters := { p.parameters with top := some (capped count p.parameters.top) } }
  | .skip => do
    let count ← countArg step
    let skip := p.parameters.skip.getD 0 + count
    if maxInt64 < skip then throw (.invalidArgument ⟨100⟩ "Skip count overflows")
    return { p with parameters := { p.parameters with skip := some skip } }
  | .expand => do
    let text ← printArg c p .value step
    return p.withExpansion text
  | .expandShallow => do
    let text ← printArg c p .value step
    return p.withExpansion (text ++ "!")
  | .first => do
    if !step.args.isEmpty then throw (.invalidArgument ⟨100⟩ "FirstLazy takes no arguments")
    return { p with
      parameters := { p.parameters with top := some (capped 1 p.parameters.top) }
      finished := true }
  | .totalCount =>
    return { p with parameters := { p.parameters with includeTotalCount := true } }

def apply (c : Compiler) (p : Progress) (position : Nat) (step : Step) :
    Except CompileError Progress := do
  p.perform c step (← p.accept position step)

def applyAll (c : Compiler) : Nat → Progress → List Step → Except CompileError Progress
  | _, p, [] => .ok p
  | position, p, step :: rest => do
    applyAll c (position + 1) (← p.apply c position step) rest

/-- All filters in one conjunction, grouped to the left. -/
def conjunction? : List Query → Option Query
  | [] => none
  | q :: rest => some (rest.foldl (Query.logical .and) q)

/-- The filters are printed last, together. -/
def finish (p : Progress) : Except CompileError Parameters :=
  match conjunction? p.filters with
  | none => .ok p.parameters
  | some q => do
    let text ← q.print
    return { p.parameters with filter := some text }

def advance (p : Progress) (op : QueryOp) (q : Query) : Except CompileError Progress :=
  match op with
  | .filter => return { p with filters := p.filters ++ [q] }
  | .select => do
    let text ← q.print
    return { p with parameters := { p.parameters with select := some text } }
  | .selectMany => do
    let text ← q.print
    return { p with
      elementTy := q.ty.element?.getD p.elementTy
      parameters := { p.parameters with selectMany := some text } }
  | .orderBy descending => do
    let text ← q.print
    return p.withOrder [⟨text, descending⟩]
  | .thenBy descending => do
    let text ← q.print
    return p.withOrder (p.parameters.orderBy ++ [⟨text, descending⟩])
  | .expand => do
    let text ← q.print
    return p.withExpansion text
  | .expandShallow => do
    let text ← q.print
    return p.withExpansion (text ++ "!")
  | .take | .skip | .first | .totalCount => return p

def performThrough (c : Compiler) (p : Progress) (step : Step) (op : QueryOp) :
    StateM Cache (Except CompileError Progress) :=
  match op.form?, step.args with
  | some form, [arg] => do
    let q ← c.lowerThrough form (some p.elementTy) arg
    return q >>= p.advance op
  | _, _ => return p.perform c step op

def applyThrough (c : Compiler) (p : Progress) (position : Nat) (step : Step) :
    StateM Cache (Except CompileError Progress) :=
  match p.accept position step with
  | .ok op => p.performThrough c step op
  | .error error => return .error error

def applyAllThrough (c : Compiler) : Nat → Progress → List Step → StateM Cache (Except CompileError Progress)
  | _, p, [] => return .ok p
  | position, p, step :: rest => do
    match ← p.applyThrough c position step with
    | .ok next => applyAllThrough c (position + 1) next rest
    | .error error => return .error error

end Progress

namespace Compiler

def chain (e : Expr) : Except CompileError Chain :=
  match Chain.ofExpr? [] e with
  | some chain => .ok chain
  | none =>
    .error (.chain ⟨202⟩ ("Query chain `" ++ e.text ++ "` is not rooted at a query source"))

def parameters (c : Compiler) (e : Expr) : Except CompileError Parameters := do
  let chain ← chain e
  (← Progress.applyAll c 0 { elementTy := chain.elementTy } chain.steps).finish

def parametersThrough (c : Compiler) (e : Expr) : StateM Cache (Except CompileError Parameters) :=
  match chain e with
  | .ok chain => do
    let p ← Progress.applyAllThrough c 0 { elementTy := chain.elementTy } chain.steps
    return p >>= Progress.finish
  | .error error => return .error error

end Compiler
end ResourceQuery
