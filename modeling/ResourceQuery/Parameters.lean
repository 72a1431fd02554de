/-! # Query parameters -/
namespace ResourceQuery

structure OrderKey where
  expression : String
  descending : Bool
  deriving DecidableEq

def OrderKey.text (k : OrderKey) : String :=
  if k.descending then k.expression ++ " desc" else k.expression

/-- The parameters of a query. Paths that are expanded to references only end in `!`. -/
structure Parameters where
  filter : Option String := none
  select : Option String := none
  selectMany : Option String := none
  orderBy : List OrderKey := []
  top : Option Int := none
  skip : Option Int := none
  expand : List String := []
  includeTotalCount : Bool := false
  deriving DecidableEq

namespace Parameters

def listed (key : String) (items : List String) : List (String × String) :=
  if items.isEmpty then [] else [(key, ",".intercalate items)]

def pairs (p : Parameters) : List (String × String) :=
  (p.filter.map (("$filter", ·))).toList ++
  (p.select.map (("$select", ·))).toList ++
  (p.selectMany.map (("$selectmany", ·))).toList ++
  listed "$orderby" (p.orderBy.map OrderKey.text) ++
  (p.top.map (("$top", ·.repr))).toList ++
  (p.skip.map (("$skip", ·.repr))).toList ++
  listed "$expand" p.expand ++
  if p.includeTotalCount then [("$totalcount", "true")] else []

end Parameters
end ResourceQuery
