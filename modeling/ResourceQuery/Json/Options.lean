import ResourceQuery.Json.Record
import ResourceQuery.Options

/-! # Options in JSON -/
namespace ResourceQuery.Options

def depthOfJson? (j : Json) : Option Nat := do
  let n ← j.toInt?
  if 0 ≤ n ∧ n ≤ 18446744073709551615 then some n.toNat else none

/-- What is left out takes its default. -/
def ofJson? (j : Json) : Option Options := do
  let r ← j.record? ["orderingComparisons", "arithmetic", "maxDepth"]
  let default : Options := {}
  let orderingComparisons ← r.withDefault "orderingComparisons" default.orderingComparisons Json.toBool?
  let arithmetic ← r.withDefault "arithmetic" default.arithmetic Json.toBool?
  let maxDepth ← r.withDefault "maxDepth" default.maxDepth depthOfJson?
  return { orderingComparisons, arithmetic, maxDepth }

def ofText? (text : String) : Option Options := (Json.ofText? text).bind ofJson?

end ResourceQuery.Options
