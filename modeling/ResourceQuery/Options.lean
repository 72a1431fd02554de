/-! # What the compiler may lower -/
namespace ResourceQuery

structure Options where
  /-- Allow `lt`, `le`, `gt` and `ge`. -/
  orderingComparisons : Bool := true
  /-- Allow `add`, `sub`, `mul`, `div` and `mod`. -/
  arithmetic : Bool := true
  /-- The number of levels below the root that an expression may have. -/
  maxDepth : Nat := 256
  deriving DecidableEq

/-- Only `eq` and `ne` among the comparisons. -/
def Options.equalityOnly : Options := { orderingComparisons := false }

end ResourceQuery
