import ResourceQuery.Mapping

/-! # A cache in front of a mapping

The cache keeps every answer it was asked for. A question that is already answered is answered
from the cache, and a new answer is the mapping's.
-/
namespace ResourceQuery

structure Cache where
  mapping : Mapping
  properties : List ((Ty × String) × PropertyMapping) := []
  types : List (Ty × Option TypeInfo) := []

namespace Cache

def empty (mapping : Mapping) : Cache := { mapping }

def property (declaring : Ty) (name : String) : StateM Cache PropertyMapping := fun c =>
  match c.properties.lookup (declaring, name) with
  | some p => (p, c)
  | none =>
    let p := c.mapping.property declaring name
    (p, { c with properties := c.properties ++ [((declaring, name), p)] })

/-- The answer about a type, kept for the next time, also if nothing is known of it. -/
def typeInfo (ty : Ty) : StateM Cache (Option TypeInfo) := fun c =>
  match c.types.lookup ty with
  | some info => (info, c)
  | none =>
    let info := c.mapping.typeInfo ty
    (info, { c with types := c.types ++ [(ty, info)] })

def summary (c : Cache) : String :=
  "MetadataCache \x7b types: " ++ c.types.length.repr ++ ", properties: " ++
    c.properties.length.repr ++ " \x7d"

end Cache
end ResourceQuery
