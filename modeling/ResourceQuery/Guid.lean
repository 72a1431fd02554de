import ResourceQuery.Number.Rounding

/-! # Globally unique identifiers -/
namespace ResourceQuery

/-- Two to the one hundred and twenty-eighth. -/
abbrev guidLimit : Nat := 340282366920938463463374607431768211456

structure Guid where
  number : Nat
  number_lt : number < guidLimit
  deriving DecidableEq

namespace Guid

def ofNumber? (n : Nat) : Option Guid := if h : n < guidLimit then some ⟨n, h⟩ else none

def order (a b : Guid) : Ordering := compare a.number b.number

def digits (g : Guid) : List Char :=
  let ds := Nat.toDigits 16 g.number
  List.replicate (32 - ds.length) '0' ++ ds

def groups : List Nat := [8, 4, 4, 4, 12]

def cut : List Nat → List Char → List (List Char)
  | [], _ => []
  | n :: rest, s => s.take n :: cut rest (s.drop n)

def text (g : Guid) : String := "-".intercalate ((cut groups g.digits).map String.ofList)

def hexDigit? (c : Char) : Option Nat :=
  if c.isDigit then some (c.toNat - '0'.toNat)
  else if 'a' ≤ c ∧ c ≤ 'f' then some (c.toNat - 'a'.toNat + 10)
  else if 'A' ≤ c ∧ c ≤ 'F' then some (c.toNat - 'A'.toNat + 10)
  else none

/-- Reads the groups of digits, of either case, with their hyphens. -/
def ofText? (s : String) : Option Guid := do
  let parts := s.toList.splitOn '-'
  if parts.map List.length ≠ groups then none
  else
    let values ← parts.flatten.mapM hexDigit?
    ofNumber? (values.foldl (fun n d => 16 * n + d) 0)

end Guid
end ResourceQuery
