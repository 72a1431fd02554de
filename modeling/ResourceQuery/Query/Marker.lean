import ResourceQuery.Query

/-! # Markers of a query tree

The markers to report are those where something was refused, in the order of the tree. A
propagated marker with none of these below it stands for itself.
-/
namespace ResourceQuery

structure Marker where
  expression : String
  cause : Option Cause
  /-- Whether the expression was refused here, rather than for its parts. -/
  origin : Bool
  deriving DecidableEq

def Marker.error (m : Marker) : CompileError := .unsupported m.expression m.cause

namespace Query

mutual
def isRepresentable : Query → Bool
  | .unsupported .. => false
  | .constant .. | .member .. | .source _ => true
  | .comparison _ left right | .logical _ left right | .arithmetic _ left right _ =>
    left.isRepresentable && right.isRepresentable
  | .not operand | .negate operand | .selector operand => operand.isRepresentable
  | .call _ args _ => allRepresentable args
  | .projection fields _ => fieldsRepresentable fields
  | .list elements _ => allRepresentable elements
  | .selectMany base flattened _ => base.isRepresentable && flattened.isRepresentable
def allRepresentable : List Query → Bool
  | [] => true
  | q :: rest => q.isRepresentable && allRepresentable rest
def fieldsRepresentable : List (String × Query) → Bool
  | [] => true
  | (_, q) :: rest => q.isRepresentable && fieldsRepresentable rest
end

mutual
def markers : Query → List Marker
  | .unsupported expression cause nested _ =>
    match markersOf nested with
    | [] => [⟨expression, cause, nested.isEmpty⟩]
    | below => below
  | .constant .. | .member .. | .source _ => []
  | .comparison _ left right | .logical _ left right | .arithmetic _ left right _ =>
    left.markers ++ right.markers
  | .not operand | .negate operand | .selector operand => operand.markers
  | .call _ args _ => markersOf args
  | .projection fields _ => fieldMarkers fields
  | .list elements _ => markersOf elements
  | .selectMany base flattened _ => base.markers ++ flattened.markers
def markersOf : List Query → List Marker
  | [] => []
  | q :: rest => q.markers ++ markersOf rest
def fieldMarkers : List (String × Query) → List Marker
  | [] => []
  | (_, q) :: rest => q.markers ++ fieldMarkers rest
end

theorem markersOf_eq_flatMap (qs : List Query) : markersOf qs = qs.flatMap markers := by
  induction qs with
  | nil => rfl
  | cons q qs ih => simp [markersOf, ih]

/-- The error of a tree with markers: its own for a single one, and an aggregate of several. -/
def error? (q : Query) : Option CompileError :=
  match q.markers with
  | [] => none
  | [m] => some m.error
  | ms => some (.aggregate (ms.map Marker.error))

end Query
end ResourceQuery
