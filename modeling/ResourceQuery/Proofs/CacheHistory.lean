import ResourceQuery.Proofs.ReadThrough
import ResourceQuery.Session

/-! # Histories of a shared cache

Compilers with options of their own share one cache. Whatever they were asked before, the entries of
the cache are the mapping's answers and stay as they are, and the outcome of a call is the one that it
has on an empty cache.
-/
namespace ResourceQuery

inductive Request
  | typeInfo (ty : Ty)
  | property (declaring : Ty) (name : String)
  | role (parameter : Parameter) (e : Expr)
  | lower (form : Form) (expected : Option Ty) (e : Expr)
  | compile (form : Form) (e : Expr)
  | parameters (e : Expr)

structure Call where
  options : Options
  request : Request

inductive Answer
  | typeInfo (info : Option TypeInfo)
  | property (p : PropertyMapping)
  | role (role : Role)
  | query (outcome : Except CompileError Query)
  | text (outcome : Except CompileError String)
  | parameters (outcome : Except CompileError Parameters)

namespace Call

/-- The outcome of a call in a session over the cache, and the cache that it leaves. -/
def serve (call : Call) : StateM Cache Answer := fun c =>
  let s : Session := ⟨c, call.options⟩
  match call.request with
  | .typeInfo ty => (.typeInfo (s.typeInfo ty).1, (s.typeInfo ty).2.cache)
  | .property declaring name => (.property (s.property declaring name).1, (s.property declaring name).2.cache)
  | .role parameter e =>
    let (role, s) := s.through ((s.compiler.scope parameter).roleThrough e)
    (.role role, s.cache)
  | .lower form expected e => (.query (s.lower form expected e).1, (s.lower form expected e).2.cache)
  | .compile form e => (.text (s.compile form e).1, (s.compile form e).2.cache)
  | .parameters e => (.parameters (s.parameters e).1, (s.parameters e).2.cache)

/-- The same by a compiler that holds a mapping of its own and never asks it. -/
def serveThrough (own : Mapping) (call : Call) : StateM Cache Answer :=
  let compiler : Compiler := ⟨own, call.options⟩
  match call.request with
  | .typeInfo ty => do return .typeInfo (← Cache.typeInfo ty)
  | .property declaring name => do return .property (← Cache.property declaring name)
  | .role parameter e => do return .role (← (compiler.scope parameter).roleThrough e)
  | .lower form expected e => do return .query (← compiler.lowerThrough form expected e)
  | .compile form e => do return .text (← compiler.compileThrough form none e)
  | .parameters e => do return .parameters (← compiler.parametersThrough e)

def answer (call : Call) (m : Mapping) : Answer :=
  let compiler : Compiler := ⟨m, call.options⟩
  match call.request with
  | .typeInfo ty => .typeInfo (m.typeInfo ty)
  | .property declaring name => .property (m.property declaring name)
  | .role parameter e => .role ((compiler.scope parameter).role e)
  | .lower form expected e => .query (compiler.lower form expected e)
  | .compile form e => .text (compiler.compile form none e)
  | .parameters e => .parameters (compiler.parameters e)

def questions (call : Call) (m : Mapping) : List Question :=
  let compiler : Compiler := ⟨m, call.options⟩
  match call.request with
  | .typeInfo ty => [.type ty]
  | .property declaring name => [.property declaring name]
  | .role _ e => Scope.asked e
  | .lower form expected e => compiler.consulted form expected e
  | .compile form e => compiler.consulted form none e
  | .parameters e => compiler.consultedChain e

theorem asks_serveThrough (own : Mapping) (call : Call) :
    Asks (call.serveThrough own) call.answer call.questions := by
  obtain ⟨options, request⟩ := call
  let compiler : Compiler := ⟨own, options⟩
  cases request with
  | typeInfo ty => exact (Asks.typeInfo ty).map Answer.typeInfo
  | property declaring name => exact (Asks.property declaring name).map Answer.property
  | role parameter e => exact ((compiler.scope parameter).asks_roleThrough e).map Answer.role
  | lower form expected e => exact (compiler.asks_lowerThrough form expected e).map Answer.query
  | compile form e =>
    exact ((compiler.asks_lowerThrough form none e).map (· >>= Query.print)).map Answer.text
  | parameters e => exact (compiler.asks_parametersThrough e).map Answer.parameters

theorem asks_serve (call : Call) : Asks call.serve call.answer call.questions := by
  intro c
  refine Eq.trans ?_ (call.asks_serveThrough c.mapping c)
  obtain ⟨options, request⟩ := call
  cases request <;> rfl

theorem serveThrough_eq_serve (own : Mapping) : serveThrough own = serve := by
  funext call c
  exact (call.asks_serveThrough own c).trans (call.asks_serve c).symm

end Call

def Cache.run (calls : List Call) : StateM Cache (List Answer) := calls.mapM Call.serve

/-- After any calls on a cache that was empty, its entries are the answers of the mapping, later calls
only add entries, and every call has had the outcome that it has on an empty cache, which is the one that
it has without a cache. All this is so whatever mapping the compilers hold themselves. -/
theorem Cache.history_invisible (m own : Mapping) (before after : List Call) :
    let (_, c) := run before (empty m)
    let (answers, c') := run (before ++ after) (empty m)
    c'.Faithful m ∧ c.Extends c' ∧
    answers = (before ++ after).map (fun call => (call.serve (empty m)).1) ∧
    answers = (before ++ after).map (·.answer m) ∧
    (before ++ after).mapM (Call.serveThrough own) (empty m) = (answers, c') := by
  have hrun (calls : List Call) : run calls (empty m) =
      (calls.map (·.answer m), (empty m).askAll (calls.flatMap (·.questions m))) :=
    Asks.mapM Call.asks_serve calls (empty m)
  have hfresh (call : Call) : (call.serve (empty m)).1 = call.answer m := congrArg Prod.fst (call.asks_serve (empty m))
  rw [hrun, hrun, Call.serveThrough_eq_serve]
  refine ⟨(faithful_empty m).askAll _, ?_, ?_, rfl, hrun (before ++ after)⟩
  · rw [List.flatMap_append, askAll_append]
    exact extends_askAll _ _
  · simp only [hfresh]

end ResourceQuery
