import ResourceQuery.Proofs.Evaluation
import ResourceQuery.Proofs.Markers
import ResourceQuery.Proofs.Printing

/-! # Markers, errors and text of a tree

For every tree, lowered or built by hand: it is representable exactly if no marker is found in it,
it has a text exactly if moreover every constant in this text has a literal, and otherwise printing
fails with what the markers say.
-/
namespace ResourceQuery

namespace Query

theorem sizeOf_child {q c : Query} (hc : c ∈ q.children) : sizeOf c < sizeOf q := by
  have hlt : sizeOf c < sizeOf q.children := List.sizeOf_lt_of_mem hc
  cases q with
  | constant | member | source => cases hc
  | comparison | logical | arithmetic | selectMany =>
    rcases List.mem_pair.mp hc with rfl | rfl <;> simp <;> omega
  | not | negate | selector =>
    rw [List.mem_singleton.mp hc]
    simp
  | call | list | unsupported =>
    simp only [children] at hlt
    simp only [call.sizeOf_spec, list.sizeOf_spec, unsupported.sizeOf_spec]
    omega
  | projection fields ty =>
    obtain ⟨⟨name, q⟩, hfield, rfl⟩ := List.mem_map.mp hc
    have hfields := List.sizeOf_lt_of_mem hfield
    simp only [Prod.mk.sizeOf_spec] at hfields
    simp only [projection.sizeOf_spec]
    omega

/-- What holds of each node whose children it holds of holds of every tree. -/
@[elab_as_elim]
theorem inductionOn {motive : Query → Prop} (t : Query)
    (node : ∀ q, (∀ c ∈ q.children, motive c) → motive q) : motive t :=
  node t fun c _hc => inductionOn c node
termination_by sizeOf t
decreasing_by exact sizeOf_child _hc

/-- Nothing that was refused below a propagated marker is lost. -/
theorem markers_propagated {e : Expr} {parts : List Query}
    (h : parts.any isUnsupported = true) : (propagated e parts).markers = markersOf parts := by
  obtain ⟨p, hp, hmarker⟩ := List.any_eq_true.mp h
  rw [propagated, markers]
  split
  · rename_i hnone
    have hr := allRepresentable_iff.mp ((markersOf_eq_nil parts).mp hnone) p hp
    rw [isUnsupported_of_isRepresentable hr] at hmarker
    cases hmarker
  · rfl

theorem markers_joined {e : Expr} {parts : List Query} {node : Query}
    (hnode : node.markers = markersOf parts) : (Scope.joined e parts node).markers = markersOf parts := by
  unfold Scope.joined
  split
  · exact markers_propagated ‹_›
  · exact hnode

/-- The parts that the text of a node is made of. The base of a flattening is not written. -/
def writtenParts : Query → List Query
  | .selectMany _ flattened _ => [flattened]
  | q => q.children

theorem child_of_writtenParts {q p : Query} (hp : p ∈ q.writtenParts) : p ∈ q.children := by
  cases q with
  | selectMany base flattened ty => exact .tail _ hp
  | _ => exact hp

inductive WrittenIn : Query → Query → Prop
  | self (q : Query) : WrittenIn q q
  | part {q p t : Query} (hp : p ∈ t.writtenParts) (h : WrittenIn q p) : WrittenIn q t

/-- A node that is no constant and no marker has a text exactly if its written parts have. -/
theorem exists_bare_iff_parts {q : Query} (hs : q.isUnsupported = false)
    (hc : ∀ value ty, q ≠ .constant value ty) :
    (∃ text, q.bare = .ok text) ↔ ∀ p ∈ q.writtenParts, ∃ text, p.bare = .ok text := by
  cases q with
  | constant value ty => exact absurd rfl (hc value ty)
  | unsupported => cases hs
  | member | source => simp [bare, writtenParts, children]
  | comparison | logical | arithmetic | not | negate | selector | selectMany =>
    simp only [bare, bind_eq_ok, pure_eq_ok, writtenParts, children]
    simp
  | call | list =>
    simp only [bare, bind_eq_ok, pure_eq_ok, bareAll_eq_mapM, writtenParts, children,
      ← exists_mapM_iff]
    simp
  | projection fields ty =>
    have hfield (field : String × Query) :
        (∃ text, bareField field = .ok text) ↔ ∃ text, field.2.bare = .ok text := by
      simp only [bareField, bind_eq_ok, pure_eq_ok]
      simp
    simp only [bare, bind_eq_ok, pure_eq_ok, bareFields_eq_mapM, writtenParts, children,
      Entries.values, List.forall_mem_map, ← hfield, ← exists_mapM_iff]
    simp

/-- A tree without markers has a text exactly if every constant that is written has a literal. -/
theorem exists_bare_iff (t : Query) (hr : t.isRepresentable = true) :
    (∃ text, t.bare = .ok text) ↔
      ∀ value ty, (constant value ty).WrittenIn t → ∃ text, value.literal = .ok text := by
  induction t using inductionOn with
  | node q ih =>
    by_cases hc : ∃ value ty, q = .constant value ty
    · obtain ⟨value, ty, rfl⟩ := hc
      constructor
      · rintro ⟨text, ht⟩ value' ty' hw
        cases hw with
        | self =>
          rw [bare] at ht
          split at ht
          · exact ⟨_, ‹_›⟩
          · cases ht
        | part hp => cases hp
      · intro h
        obtain ⟨text, ht⟩ := h value ty (.self _)
        exact ⟨text, by rw [bare, ht]⟩
    · have hparts := exists_bare_iff_parts (isUnsupported_of_isRepresentable hr)
        fun value ty h => hc ⟨value, ty, h⟩
      rw [hparts]
      constructor
      · intro h value ty hw
        cases hw with
        | self => exact absurd ⟨value, ty, rfl⟩ hc
        | part hp hw =>
          have hchild := child_of_writtenParts hp
          exact (ih _ hchild (isRepresentable_child hr hchild)).mp (h _ hp) value ty hw
      · intro h p hp
        have hchild := child_of_writtenParts hp
        exact (ih p hchild (isRepresentable_child hr hchild)).mpr fun value ty hw => h value ty (.part hp hw)

theorem exists_print_iff_bare (t : Query) :
    (∃ text, t.print = .ok text) ↔ t.isRepresentable = true ∧ ∃ text, t.bare = .ok text := by
  constructor
  · rintro ⟨text, ht⟩
    have hr := isRepresentable_of_print ht
    rw [print_of_isRepresentable hr] at ht
    exact ⟨hr, text, ht⟩
  · rintro ⟨hr, text, ht⟩
    exact ⟨text, by rw [print_of_isRepresentable hr, ht]⟩

theorem exists_print_iff (t : Query) :
    (∃ text, t.print = .ok text) ↔ t.isRepresentable = true ∧
      ∀ value ty, (constant value ty).WrittenIn t → ∃ text, value.literal = .ok text := by
  rw [exists_print_iff_bare]
  exact and_congr_right fun hr => exists_bare_iff t hr

theorem exists_print_logical_iff {op : LogicalOp} {l r : Query} :
    (∃ text, (logical op l r).print = .ok text) ↔
      (∃ text, l.print = .ok text) ∧ ∃ text, r.print = .ok text := by
  have hparts : (∃ text, (logical op l r).bare = .ok text) ↔ _ := exists_bare_iff_parts rfl nofun
  rw [exists_print_iff_bare, exists_print_iff_bare, exists_print_iff_bare, hparts]
  simp [isRepresentable, writtenParts, children, and_and_and_comm]

/-- A conjunction or disjunction of several has a text exactly if each of them has one. -/
theorem exists_print_foldl_logical_iff {op : LogicalOp} {q : Query} {qs : List Query} :
    (∃ text, (qs.foldl (logical op) q).print = .ok text) ↔ ∀ p ∈ q :: qs, ∃ text, p.print = .ok text := by
  induction qs generalizing q with
  | nil => simp
  | cons p qs ih =>
    rw [List.foldl_cons, ih]
    simp [exists_print_logical_iff, and_assoc]

theorem print_of_marker {t : Query} {m : Marker} (h : t.markers = [m]) :
    t.print = .error m.error := by
  rw [print, error?, h]

theorem print_of_markers {t : Query} (h : 2 ≤ t.markers.length) :
    t.print = .error (.aggregate (t.markers.map Marker.error)) := by
  rw [print, error?]
  rcases hm : t.markers with _ | ⟨m, _ | ⟨m', ms⟩⟩
  · simp [hm] at h
  · simp [hm] at h
  · rfl

/-- Looking for markers, checking for them and printing agree on every tree. Several markers are
reported together, each as an error of its own and in the order of the tree. -/
theorem print_agrees_with_markers (t : Query) :
    (t.isRepresentable = true ↔ t.markers = []) ∧ (t.markers = [] ↔ t.error? = none) ∧
    ((∃ text, t.print = .ok text) ↔ t.isRepresentable = true ∧
      ∀ value ty, (constant value ty).WrittenIn t → ∃ text, value.literal = .ok text) ∧
    (∀ m, t.markers = [m] → t.print = .error (.unsupported m.expression m.cause)) ∧
    (2 ≤ t.markers.length → ∃ errors, t.print = .error (.aggregate errors) ∧
      errors = t.markers.map (fun m => .unsupported m.expression m.cause) ∧
      (CompileError.aggregate errors).diagnostic.related.map Related.code =
        errors.map fun error => some error.code) := by
  refine ⟨(markers_eq_nil t).symm, (markers_eq_nil t).trans error?_eq_none.symm, exists_print_iff t,
    fun m hm => print_of_marker hm, fun h => ⟨_, print_of_markers h, rfl, ?_⟩⟩
  simp [CompileError.diagnostic, Function.comp_def]

/-- A list has no literal, but this one is not written. -/
example : (selectMany (.constant (.list []) (.list .string)) (.member ["Tags"] (.list .string))
    (.list .string)).print = .ok "Tags" := by rfl

end Query
end ResourceQuery
