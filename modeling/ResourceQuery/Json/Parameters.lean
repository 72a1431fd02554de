import ResourceQuery.Json.Record
import ResourceQuery.Parameters
import ResourceQuery.Value.Arithmetic

/-! # Query parameters in JSON -/
namespace ResourceQuery

def OrderKey.ofJson? (j : Json) : Option OrderKey := do
  let r ← j.record? ["expression", "descending"]
  let expression ← r.required "expression" Json.toString?
  let descending ← r.required "descending" Json.toBool?
  return { expression, descending }

namespace Parameters

def countOfJson? (j : Json) : Option Int := do
  let n ← j.toInt?
  if inInt64 n then some n else none

def ofJson? (j : Json) : Option Parameters := do
  let r ← j.record? ["filter", "select", "select_many", "order_by", "top", "skip", "expand",
    "include_total_count"]
  let filter ← r.nullable "filter" Json.toString?
  let select ← r.nullable "select" Json.toString?
  let selectMany ← r.nullable "select_many" Json.toString?
  let orderBy ← r.required "order_by" (Json.listOf? OrderKey.ofJson?)
  let top ← r.nullable "top" countOfJson?
  let skip ← r.nullable "skip" countOfJson?
  let expand ← r.required "expand" (Json.listOf? Json.toString?)
  let includeTotalCount ← r.required "include_total_count" Json.toBool?
  return { filter, select, selectMany, orderBy, top, skip, expand, includeTotalCount }

def ofText? (text : String) : Option Parameters := (Json.ofText? text).bind ofJson?

end Parameters
end ResourceQuery
