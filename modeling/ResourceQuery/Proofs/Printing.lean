import ResourceQuery.Query.Printer

/-! # When a tree is printed

A tree is printed as soon as it has no markers; the texts of its nodes then follow from those of
their children.
-/
namespace ResourceQuery.Query

mutual
theorem markers_eq_nil : (q : Query) → (q.markers = [] ↔ q.isRepresentable = true)
  | .unsupported expression cause nested ty => by
    have hne : (unsupported expression cause nested ty).markers ≠ [] := by
      rw [markers]
      split
      · simp
      · assumption
    simp [hne, isRepresentable]
  | .constant .. | .member .. | .source _ => by simp [markers, isRepresentable]
  | .comparison _ left right | .logical _ left right | .arithmetic _ left right _
  | .selectMany left right _ => by
    simp [markers, isRepresentable, markers_eq_nil left, markers_eq_nil right]
  | .not operand | .negate operand | .selector operand => by
    simp [markers, isRepresentable, markers_eq_nil operand]
  | .call _ args _ => by simp [markers, isRepresentable, markersOf_eq_nil args]
  | .list elements _ => by simp [markers, isRepresentable, markersOf_eq_nil elements]
  | .projection fields _ => by simp [markers, isRepresentable, fieldMarkers_eq_nil fields]
theorem markersOf_eq_nil : (qs : List Query) → (markersOf qs = [] ↔ allRepresentable qs = true)
  | [] => by simp [markersOf, allRepresentable]
  | q :: rest => by simp [markersOf, allRepresentable, markers_eq_nil q, markersOf_eq_nil rest]
theorem fieldMarkers_eq_nil :
    (fields : List (String × Query)) → (fieldMarkers fields = [] ↔ fieldsRepresentable fields = true)
  | [] => by simp [fieldMarkers, fieldsRepresentable]
  | (_, q) :: rest => by
    simp [fieldMarkers, fieldsRepresentable, markers_eq_nil q, fieldMarkers_eq_nil rest]
end

theorem error?_eq_none {q : Query} : q.error? = none ↔ q.isRepresentable = true := by
  rw [← markers_eq_nil, error?]
  rcases q.markers with _ | ⟨m, _ | ⟨m', ms⟩⟩ <;> simp

theorem print_of_isRepresentable {q : Query} (h : q.isRepresentable = true) : q.print = q.bare := by
  rw [print, error?_eq_none.mpr h]

theorem isRepresentable_of_print {q : Query} {text : String} (h : q.print = .ok text) :
    q.isRepresentable = true := by
  unfold print at h
  split at h
  · cases h
  · exact error?_eq_none.mp ‹_›

theorem bareAll_eq_mapM (qs : List Query) : bareAll qs = qs.mapM bare := by
  induction qs with
  | nil => rfl
  | cons q qs ih => rw [bareAll, List.mapM_cons, ih]

def bareField (field : String × Query) : Except CompileError String := do
  return enclosed 4 field.2 (← bare field.2) ++ " as " ++ field.1

theorem bareFields_eq_mapM (fields : List (String × Query)) :
    bareFields fields = fields.mapM bareField := by
  induction fields with
  | nil => rfl
  | cons field fields ih =>
    rw [bareFields, List.mapM_cons, ih, bareField, bind_assoc]
    rfl

end ResourceQuery.Query
