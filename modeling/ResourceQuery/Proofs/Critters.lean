import ResourceQuery.Compiler

/-! # Critters

The sample that the theory is tried on: lambdas over critters, whose members have the names in queries that
they are declared with.
-/
namespace ResourceQuery.Critters

def asDeclared : Compiler := ⟨.ofNaming .asDeclared, {}⟩

def x : Parameter := ⟨"x", .named "Critter"⟩

def critters : Scope := asDeclared.scope x

def trait (name : String) (ty : Ty) : Expr := .memberOf (.parameter x) name ty

def name : Expr := trait "Name" .string

def age : Expr := trait "Age" .int32

def coats : Expr := trait "Coats" (.dictionary .string .string)

def winter : Expr := .ofValue (.string "winter")

def coat (coats key : Expr) : Expr := .index coats [key] .string

/-- A call of a method that the grammar does not know. -/
def unknown (method : String) (ty : Ty) : Expr := .call name ⟨.string, method, none⟩ [] ty

end ResourceQuery.Critters
