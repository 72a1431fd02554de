import ResourceQuery.Chain

/-! # Sessions

A session is a compiler over a cache that lives on from one request to the next.
-/
namespace ResourceQuery

structure Session where
  cache : Cache
  options : Options := {}

namespace Session

def compiler (s : Session) : Compiler := ⟨s.cache.mapping, s.options⟩

/-- The session goes on with the cache that a request leaves. -/
def through {α : Type} (s : Session) (request : StateM Cache α) : α × Session :=
  let (answer, cache) := request s.cache
  (answer, { s with cache })

def lower (s : Session) (form : Form) (expected : Option Ty) (e : Expr) :
    Except CompileError Query × Session :=
  s.through (s.compiler.lowerThrough form expected e)

def compile (s : Session) (form : Form) (e : Expr) : Except CompileError String × Session :=
  s.through (s.compiler.compileThrough form none e)

def parameters (s : Session) (e : Expr) : Except CompileError Parameters × Session :=
  s.through (s.compiler.parametersThrough e)

def property (s : Session) (declaring : Ty) (name : String) : PropertyMapping × Session :=
  s.through (Cache.property declaring name)

def typeInfo (s : Session) (ty : Ty) : Option TypeInfo × Session := s.through (Cache.typeInfo ty)

/-- Another compiler over the same cache. -/
def share (s : Session) : Session := { cache := s.cache }

end Session
end ResourceQuery
