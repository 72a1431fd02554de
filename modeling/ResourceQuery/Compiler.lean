import ResourceQuery.Lowering.Through
import ResourceQuery.Query.Printer

/-! # Compiling lambdas

A malformed lambda is an argument error. Everything else that fails is a marker in the tree and
an error only when the tree is printed.
-/
namespace ResourceQuery

structure UnaryLambda where
  parameter : Parameter
  body : Expr

/-- Conversions around a lambda do not count. -/
def UnaryLambda.ofExpr (e : Expr) : Except CompileError UnaryLambda :=
  match e.unconverted with
  | .lambda [parameter] body => .ok ⟨parameter, body⟩
  | _ => .error (.invalidArgument ⟨101⟩ ("Expected a unary lambda, got `" ++ e.text ++ "`"))

structure Compiler where
  mapping : Mapping
  options : Options := {}

namespace Compiler

def scope (c : Compiler) (parameter : Parameter) : Scope := ⟨c.mapping, c.options, parameter⟩

/-- The lambda, if it fits what it is for and the type of the elements it is applied to. -/
def validated (form : Form) (expected : Option Ty) (e : Expr) : Except CompileError UnaryLambda := do
  let l ← UnaryLambda.ofExpr e
  if form = .predicate && !l.body.ty.isBoolean then
    throw (.invalidArgument ⟨103⟩
      ("Predicate body has type " ++ l.body.ty.name ++ ", expected Boolean"))
  match expected with
  | none => return l
  | some ty =>
    if ty = l.parameter.ty then return l
    throw (.invalidArgument ⟨102⟩
      ("Lambda parameter '" ++ l.parameter.name ++ "' has type " ++ l.parameter.ty.name ++
        " but " ++ ty.name ++ " was expected"))

def lower (c : Compiler) (form : Form) (expected : Option Ty) (e : Expr) :
    Except CompileError Query := do
  let l ← validated form expected e
  return (c.scope l.parameter).lowerBody form l.body

def compile (c : Compiler) (form : Form) (expected : Option Ty) (e : Expr) :
    Except CompileError String := do
  (← c.lower form expected e).print

def filter (c : Compiler) (e : Expr) : Except CompileError String := c.compile .predicate none e

def select (c : Compiler) (e : Expr) : Except CompileError String := c.compile .selector none e

/-- The lambda is validated before anything is asked. -/
def lowerThrough (c : Compiler) (form : Form) (expected : Option Ty) (e : Expr) :
    StateM Cache (Except CompileError Query) :=
  match validated form expected e with
  | .ok l => do
    let q ← (c.scope l.parameter).lowerBodyThrough form l.body
    return .ok q
  | .error error => return .error error

def compileThrough (c : Compiler) (form : Form) (expected : Option Ty) (e : Expr) :
    StateM Cache (Except CompileError String) := do
  let q ← c.lowerThrough form expected e
  return q >>= Query.print

end Compiler
end ResourceQuery
