import ResourceQuery.Value.Failure
import ResourceQuery.Value.Literal

/-! # Errors and diagnostics

Codes from 1 to 99 report constructs without a form in the filter grammar, which a caller may
evaluate locally instead. Codes from 100 to 199 report malformed input, and codes from 200 to
299 a chain of query operators that cannot be expressed.
-/
namespace ResourceQuery

structure Code where
  number : Nat
  deriving DecidableEq

namespace Code

def text (c : Code) : String := "RQ" ++ Number.zeroPadded 4 c.number

def isUnsupported (c : Code) : Bool := 1 ≤ c.number && c.number < 100
def isArgument (c : Code) : Bool := 100 ≤ c.number && c.number < 200
def isChain (c : Code) : Bool := 200 ≤ c.number && c.number < 300

def description (c : Code) : String :=
  match c.number with
  | 1 => "Expression not supported by the filter grammar"
  | 2 => "Multiple unsupported expressions"
  | 3 => "Unknown method or member"
  | 4 => "Function argument count or type mismatch"
  | 5 => "Member is not mapped"
  | 6 => "Unsupported operator"
  | 7 => "Dictionary key is not a string literal"
  | 8 => "Constant evaluation failed"
  | 9 => "Literal cannot be formatted"
  | 10 => "Expression nesting too deep"
  | 11 => "Reference to a foreign parameter"
  | 100 => "Invalid argument"
  | 101 => "Expression is not a unary lambda"
  | 102 => "Lambda parameter type mismatch"
  | 103 => "Predicate body is not boolean"
  | 200 => "Unsupported query operator"
  | 201 => "Query operator out of order"
  | 202 => "Query chain has no source"
  | _ => "Unknown error"

def help? (c : Code) : Option String :=
  match c.number with
  | 1 => some "Evaluate the predicate locally or rewrite it using supported members"
  | 101 => some "Pass a lambda with exactly one parameter"
  | _ => none

end Code

/-- Why a construct has no form in the filter grammar. -/
inductive Cause
  | unknownMethod (declaring : Ty) (method : String)
  | unknownMember (declaring : Ty) (member : String)
  | badArguments (function detail : String)
  | unmappedMember (declaring : Ty) (member : String)
  | unsupportedOperator (symbol : String)
  | unsupportedIndexer (ty : Ty)
  | nonLiteralKey (key : String)
  | evaluation (error : EvalError)
  | literal (error : LiteralError)
  | tooDeep (maxDepth : Nat)
  | foreignParameter (name : String)
  deriving DecidableEq

namespace Cause

def code : Cause → Code
  | .unknownMethod .. | .unknownMember .. => ⟨3⟩
  | .badArguments .. => ⟨4⟩
  | .unmappedMember .. => ⟨5⟩
  | .unsupportedOperator _ => ⟨6⟩
  | .unsupportedIndexer _ => ⟨1⟩
  | .nonLiteralKey _ => ⟨7⟩
  | .evaluation _ => ⟨8⟩
  | .literal _ => ⟨9⟩
  | .tooDeep _ => ⟨10⟩
  | .foreignParameter _ => ⟨11⟩

theorem isUnsupported_code (c : Cause) : c.code.isUnsupported = true := by cases c <;> rfl

def message : Cause → String
  | .unknownMethod declaring method => "Unknown method " ++ declaring.name ++ "." ++ method
  | .unknownMember declaring member => "Unknown member " ++ declaring.name ++ "." ++ member
  | .badArguments function detail => "Function " ++ function ++ ": " ++ detail
  | .unmappedMember declaring member => "Member " ++ declaring.name ++ "." ++ member ++ " is not mapped"
  | .unsupportedOperator symbol => "Operator " ++ symbol ++ " is not supported"
  | .unsupportedIndexer ty => "Indexer on " ++ ty.name ++ " is not supported"
  | .nonLiteralKey key => "Dictionary key `" ++ key ++ "` is not a string literal"
  | .evaluation error => "Constant evaluation failed: " ++ error.message
  | .literal error => error.message
  | .tooDeep maxDepth => "Expression nesting exceeds " ++ maxDepth.repr ++ " levels"
  | .foreignParameter name => "Parameter '" ++ name ++ "' is not bound by the lambda"

end Cause

inductive CompileError
  /-- A sub-expression, given by its text, has no form in the grammar. -/
  | unsupported (expression : String) (cause : Option Cause)
  | aggregate (errors : List CompileError)
  | invalidArgument (code : Code) (message : String)
  | chain (code : Code) (message : String)

structure Related where
  code : Option Code
  message : String
  deriving DecidableEq

structure Diagnostic where
  code : Code
  message : String
  expression : Option String
  help : Option String
  related : List Related
  deriving DecidableEq

def Diagnostic.text (d : Diagnostic) : String :=
  "error[" ++ d.code.text ++ "]: " ++ d.message ++ match d.expression with
    | some e => " in `" ++ e ++ "`"
    | none => ""

namespace CompileError

def code : CompileError → Code
  | .unsupported _ (some cause) => cause.code
  | .unsupported _ none => ⟨1⟩
  | .aggregate _ => ⟨2⟩
  | .invalidArgument code _ | .chain code _ => code

def message : CompileError → String
  | .unsupported expression _ =>
    "Expression `" ++ expression ++ "` is not supported by the query provider"
  | .aggregate errors =>
    errors.length.repr ++ " expressions are not supported by the query provider"
  | .invalidArgument code message | .chain code message => code.text ++ ": " ++ message

/-- Whether the caller may evaluate the query locally. -/
def isRecoverable (e : CompileError) : Bool := e.code.isUnsupported

def cause? : CompileError → Option Cause
  | .unsupported _ cause => cause
  | _ => none

def relatedMessage : CompileError → String
  | e@(.unsupported expression cause) =>
    (cause.map Cause.message).getD e.message ++ " in `" ++ expression ++ "`"
  | e => e.message

def diagnostic (e : CompileError) : Diagnostic :=
  match e with
  | .unsupported expression cause =>
    ⟨e.code, (cause.map Cause.message).getD e.message, some expression, e.code.help?, []⟩
  | .aggregate errors =>
    ⟨e.code, e.message, none, e.code.help?, errors.map fun r => ⟨some r.code, r.relatedMessage⟩⟩
  | .invalidArgument code message | .chain code message => ⟨code, message, none, code.help?, []⟩

end CompileError
end ResourceQuery
