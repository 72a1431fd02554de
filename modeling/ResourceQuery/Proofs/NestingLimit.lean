import ResourceQuery.Proofs.WellFormed

/-! # The nesting limit

Where the limit is hit, a marker says so, and it is found in the tree. A tree without such markers
does not depend on how many levels were left for it.
-/
namespace ResourceQuery

def Marker.isTooDeep (m : Marker) : Bool :=
  match m.cause with
  | some (.tooDeep _) => true
  | _ => false

namespace Query

/-- No marker reports that the nesting limit was hit. -/
def IsWithinLimit (q : Query) : Prop := ∀ m ∈ q.markers, m.isTooDeep = false

instance (q : Query) : Decidable q.IsWithinLimit :=
  inferInstanceAs (Decidable (∀ m ∈ q.markers, m.isTooDeep = false))

theorem not_isWithinLimit_tooDeep (e : Expr) (maxDepth : Nat) :
    ¬(refused e (some (.tooDeep maxDepth))).IsWithinLimit := by
  intro h
  cases h _ (.head _)

theorem isWithinLimit_of_isRepresentable {q : Query} (h : q.isRepresentable = true) :
    q.IsWithinLimit := by
  intro m hm
  rw [(markers_eq_nil q).mpr h] at hm
  cases hm

theorem Throughout.isRepresentable {q : Query} (h : q.Throughout IsInner)
    (hs : q.isUnsupported = false) : q.isRepresentable = true := by
  induction h with
  | node hq _ ih =>
    rw [isRepresentable_iff hs]
    intro c hc
    exact ih c hc (hq.whole hs c hc)

end Query

namespace Scope
open Query
variable {s : Scope} {e : Expr} {n m : Nat}

theorem isWithinLimit_of_propagated {parts : List Query} (hany : parts.any isUnsupported = true)
    (h : (propagated e parts).IsWithinLimit) : ∀ p ∈ parts, p.IsWithinLimit := by
  intro p hp marker hmarker
  apply h marker
  rw [markers_propagated hany, markersOf_eq_flatMap]
  exact List.mem_flatMap.mpr ⟨p, hp, hmarker⟩

/-- If no limit is reported for a node, then none was hit in the parts it is made of. -/
theorem isWithinLimit_of_joined {parts : List Query} {node : Query}
    (hparts : ∀ p ∈ parts, p.Throughout IsInner) (h : (joined e parts node).IsWithinLimit) :
    ∀ p ∈ parts, p.IsWithinLimit := by
  unfold joined at h
  split at h
  · exact isWithinLimit_of_propagated ‹_› h
  · rename_i hany
    intro p hp
    have hsupported : ∀ p ∈ parts, p.isUnsupported = false := by simpa using hany
    exact isWithinLimit_of_isRepresentable ((hparts p hp).isRepresentable (hsupported p hp))

theorem isWithinLimit_of_extendPath {name : String} {target : Query}
    (ht : target.Throughout IsInner) (h : (extendPath e name target).IsWithinLimit) :
    target.IsWithinLimit := by
  cases hs : target.isUnsupported with
  | false => exact isWithinLimit_of_isRepresentable (ht.isRepresentable hs)
  | true =>
    cases target with
    | unsupported => exact isWithinLimit_of_propagated rfl h _ (.head _)
    | _ => cases hs

theorem isWithinLimit_of_extendEntry {key : String} {target : Query}
    (ht : target.Throughout IsInner) (h : (extendEntry e key target).IsWithinLimit) :
    target.IsWithinLimit := by
  unfold extendEntry at h
  split at h
  · exact isWithinLimit_of_isRepresentable rfl
  · exact isWithinLimit_of_extendPath ht h

theorem fold_refines (hnm : n ≤ m) :
    s.fold n e = .error (.tooDeep s.options.maxDepth) ∨ s.fold n e = s.fold m e := by
  rcases Expr.eval_refines (show n - 1 + 1 ≤ m - 1 + 1 by omega) e with h | h
  · left
    simp only [fold, Expr.evaluateWithin, h]
  · right
    simp only [fold, Expr.evaluateWithin, h]

theorem entryKey_refines (hnm : n ≤ m) :
    s.entryKey n e = .error (.tooDeep s.options.maxDepth) ∨ s.entryKey n e = s.entryKey m e := by
  rcases fold_refines hnm with h | h
  · left
    rw [entryKey, h]
  · right
    rw [entryKey, entryKey, h]

/-- More levels change nothing where no limit was hit. -/
theorem lower_of_isWithinLimit (hnm : n ≤ m) (h : (s.lower n e).IsWithinLimit) :
    s.lower m e = s.lower n e := by
  induction n generalizing m e with
  | zero => exact absurd h (not_isWithinLimit_tooDeep e _)
  | succ n ih =>
    obtain ⟨m, rfl⟩ : ∃ k, m = k + 1 := ⟨m - 1, by omega⟩
    have hle : n ≤ m := by omega
    have hinner (es : List Expr) : ∀ p ∈ es.map (s.lower n), p.Throughout IsInner := by
      intro p hp
      obtain ⟨e, -, rfl⟩ := List.mem_map.mp hp
      exact s.inner_lower n e
    have hall (es : List Expr) {node : Query} (h : (joined e (es.map (s.lower n)) node).IsWithinLimit) :
        ∀ part ∈ es, s.lower m part = s.lower n part := by
      intro part hpart
      exact ih hle (isWithinLimit_of_joined (hinner es) h _ (List.mem_map_of_mem hpart))
    rw [lower] at h ⊢
    rw [lower]
    cases hrole : s.role e with
    | constant | source | parameter | record | unsupported => rfl
    | folded =>
      simp only [hrole] at h ⊢
      rcases fold_refines hle with hf | hf
      · rw [hf] at h
        exact absurd h (not_isWithinLimit_tooDeep e _)
      · rw [hf]
    | path target declaring name =>
      simp only [hrole] at h ⊢
      rw [ih hle (isWithinLimit_of_extendPath (s.inner_lower n target) h)]
    | entry target key =>
      simp only [hrole] at h ⊢
      rcases entryKey_refines hle with hk | hk
      · rw [hk] at h
        exact absurd h (not_isWithinLimit_tooDeep e _)
      · rw [← hk]
        cases hkey : s.entryKey n key with
        | error cause => rfl
        | ok k =>
          simp only [hkey] at h ⊢
          rw [ih hle (isWithinLimit_of_extendEntry (s.inner_lower n target) h)]
    | conversion operand =>
      simp only [hrole] at h ⊢
      exact ih hle h
    | comparison op left right | logical op left right | arithmetic op left right
    | concat left right =>
      simp only [hrole] at h ⊢
      have hparts := hall [left, right] h
      rw [hparts left (by simp), hparts right (by simp)]
    | not operand | negate operand | hasValue operand =>
      simp only [hrole] at h ⊢
      rw [hall [operand] h operand (by simp)]
    | function signature receiver args =>
      simp only [hrole] at h ⊢
      cases receiver with
      | none =>
        rw [List.map_congr_left (hall args h)]
        rfl
      | some r =>
        have hparts := hall (r :: args) h
        rw [List.map_congr_left fun part hpart => hparts part (.tail _ hpart)]
        simp only [Option.map_some, hparts r (.head _)]
    | list elements =>
      simp only [hrole] at h ⊢
      rw [List.map_congr_left (hall elements h)]

end Scope
end ResourceQuery
