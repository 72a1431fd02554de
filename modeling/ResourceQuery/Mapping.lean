import ResourceQuery.Entries
import ResourceQuery.Text.Case
import ResourceQuery.Ty

/-! # How members are named in queries

A mapping answers two questions: under which name a property appears, and whether at all; and
what is known of a type. A convention answers from the names alone, and a registry from the
types entered in it.
-/
namespace ResourceQuery

inductive Naming
  | camelCase
  | asDeclared
  deriving DecidableEq

/-- Camel case puts the first character in lower case. -/
def Naming.apply (naming : Naming) (name : String) : String :=
  match naming, name.toList with
  | .camelCase, first :: rest => String.ofList (Text.lowerChar first ++ rest)
  | _, _ => name

inductive TypeKind
  | resource | complex | anonymous | tuple | value
  deriving DecidableEq

structure Property where
  name : String
  ty : Ty
  /-- The name in queries, if it is not the convention's. -/
  mappedName : Option String := none
  mapped : Bool := true
  deriving DecidableEq

structure TypeInfo where
  name : String
  kind : TypeKind
  /-- The names of the constructor's parameters, if they are known. -/
  constructor : Option (List String) := none
  properties : Entries Property := []
  deriving DecidableEq

namespace TypeInfo

def isProjection (info : TypeInfo) : Bool :=
  match info.kind with
  | .anonymous | .tuple => true
  | _ => false

def itemName (position : Nat) : String := "Item" ++ position.repr

def itemNames (arity : Nat) : List String := (List.range arity).map fun i => itemName (i + 1)

def withProperty (info : TypeInfo) (p : Property) : TypeInfo :=
  { info with properties := info.properties.put p.name p }

/-- What a type tells by itself: the items of a tuple, and no members of any other. -/
def infer (ty : Ty) : TypeInfo :=
  match ty with
  | .tuple items =>
    { name := ty.name, kind := .tuple
      properties := ((itemNames items.length).zip items).map fun (name, item) => (name, ⟨name, item, none, true⟩) }
  | .record name => { name, kind := .anonymous }
  | .named name => { name, kind := .complex }
  | _ => { name := ty.name, kind := .value }

end TypeInfo

structure PropertyMapping where
  name : String
  mapped : Bool
  deriving DecidableEq

structure Mapping where
  property : Ty → String → PropertyMapping
  typeInfo : Ty → Option TypeInfo

def Mapping.ofNaming (naming : Naming) : Mapping where
  property _ name := ⟨naming.apply name, true⟩
  typeInfo ty := some (TypeInfo.infer ty)

structure Registry where
  naming : Naming := .camelCase
  types : Entries TypeInfo := []
  deriving DecidableEq

namespace Registry

def get? (r : Registry) (name : String) : Option TypeInfo := r.types.lookup name

/-- Enters a type in place of any other of its name. -/
def withType (r : Registry) (info : TypeInfo) : Registry :=
  { r with types := r.types.put info.name info }

theorem get?_withType_of_ne (r : Registry) {info : TypeInfo} {name : String} (h : name ≠ info.name) :
    (r.withType info).get? name = r.get? name := Entries.lookup_put_of_ne h ..

def property? (r : Registry) (declaring : Ty) (name : String) : Option Property :=
  (r.get? declaring.underlying.name).bind (·.properties.lookup name)

/-- Nullable types are looked up as the types they wrap. -/
def mapping (r : Registry) : Mapping where
  property declaring name :=
    match r.property? declaring name with
    | some p => ⟨p.mappedName.getD (r.naming.apply name), p.mapped⟩
    | none => ⟨r.naming.apply name, true⟩
  typeInfo ty := some ((r.get? ty.underlying.name).getD (TypeInfo.infer ty.underlying))

end Registry
end ResourceQuery
