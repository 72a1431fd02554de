import ResourceQuery.Json.Record
import ResourceQuery.Mapping

/-! # Types and registries in JSON -/
namespace ResourceQuery

def Ty.ofScalarName? (name : String) : Option Ty :=
  (Scalar.all.find? (·.name = name)).map .scalar

/-- Reads a type with at most so many brackets inside one another. -/
def Ty.ofJson? : Nat → Json → Option Ty
  | 0, j => j.toString?.bind Ty.ofScalarName?
  | nesting + 1, j =>
    match j with
    | .object [(some "Nullable", v)] => (Ty.ofJson? nesting v).map .nullable
    | .object [(some "List", v)] => (Ty.ofJson? nesting v).map .list
    | .object [(some "Queryable", v)] => (Ty.ofJson? nesting v).map .queryable
    | .object [(some "Dictionary", .array [k, v])] =>
      match nesting with
      | 0 => none
      | inner + 1 => do return .dictionary (← Ty.ofJson? inner k) (← Ty.ofJson? inner v)
    | .object [(some "Tuple", .array items)] =>
      match nesting with
      | 0 => none
      | inner + 1 => (items.mapM (Ty.ofJson? inner)).map .tuple
    | .object [(some "Anonymous", v)] => v.toString?.map .record
    | .object [(some "Named", v)] => v.toString?.map .named
    | .object [(some name, .null)] => Ty.ofScalarName? name
    | j => j.toString?.bind Ty.ofScalarName?

namespace Registry

inductive DefinitionError
  | malformed
  | duplicateType (name : String)
  deriving DecidableEq

def DefinitionError.message : DefinitionError → String
  | .malformed => "Invalid mapping definition"
  | .duplicateType name => "Duplicate type definition: " ++ name

def namingOfJson? (j : Json) : Option Naming :=
  j.oneOf? [("camelCase", .camelCase), ("asDeclared", .asDeclared)]

def kindOfJson? (j : Json) : Option TypeKind :=
  j.oneOf? [("Resource", .resource), ("Complex", .complex), ("Anonymous", .anonymous),
    ("Tuple", .tuple), ("Value", .value)]

def maxNesting : Nat := 127

def propertyOfJson? (j : Json) : Option Property := do
  let r ← j.record? ["name", "ty", "mapped_name", "mapped"]
  let name ← r.required "name" Json.toString?
  let ty ← r.required "ty" (Ty.ofJson? (maxNesting - 5))
  let mappedName ← r.nullable "mapped_name" Json.toString?
  let mapped ← r.required "mapped" Json.toBool?
  return { name, ty, mappedName, mapped }

def propertiesOfJson? (j : Json) : Option (Entries Property) := do
  let pairs ← (← j.members).mapM fun (key, v) => (propertyOfJson? v).map (key, ·)
  return Entries.ofPairs pairs

def typeOfJson? (j : Json) : Option TypeInfo := do
  let r ← j.record? ["name", "kind", "constructor", "properties"]
  let name ← r.required "name" Json.toString?
  let kind ← r.required "kind" kindOfJson?
  let constructor ← r.nullable "constructor" (Json.listOf? Json.toString?)
  let properties ← r.required "properties" propertiesOfJson?
  return { name, kind, constructor, properties }

/-- Enters the types of a definition, each once. -/
def enter (r : Registry) : List TypeInfo → Except DefinitionError Registry
  | [] => .ok r
  | info :: rest =>
    if (r.get? info.name).isSome then .error (.duplicateType info.name)
    else enter (r.withType info) rest

def definition? (j : Json) : Option (Naming × List TypeInfo) := do
  let r ← j.record? ["naming", "types"]
  let naming ← r.withDefault "naming" .camelCase namingOfJson?
  let types ← r.withDefault "types" [] (Json.listOf? typeOfJson?)
  return (naming, types)

def ofText (text : String) : Except DefinitionError Registry :=
  match (Json.ofText? text).bind definition? with
  | some (naming, types) => enter { naming } types
  | none => .error .malformed

end Registry
end ResourceQuery
