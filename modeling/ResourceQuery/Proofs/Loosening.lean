import ResourceQuery.Proofs.Critters
import ResourceQuery.Proofs.Visits

/-! # Looser options

Options that allow more operators and more levels of nesting leave a tree without markers as it is.
Only what was refused can change.
-/
namespace ResourceQuery

/-- Whatever the first options allow, the second allow. -/
structure Options.Within (o o' : Options) : Prop where
  orderingComparisons : o.orderingComparisons = true → o'.orderingComparisons = true
  arithmetic : o.arithmetic = true → o'.arithmetic = true
  maxDepth : o.maxDepth ≤ o'.maxDepth

theorem Expr.evaluateWithin_of_le {e : Expr} {n m : Nat} (hnm : n ≤ m)
    (h : e.evaluateWithin n ≠ .error .tooDeep) : e.evaluateWithin m = e.evaluateWithin n := by
  rcases eval_refines (Nat.add_le_add_right hnm 1) e with htoo | heq
  · exact absurd htoo h
  · exact heq.symm

namespace Scope
open Query
variable {s : Scope} {o : Options} {n m : Nat} {e : Expr}

def withOptions (s : Scope) (o : Options) : Scope := { s with options := o }

theorem binaryRole_withOptions (h : s.options.Within o) {op : BinaryOp} {left right : Expr} {ty : Ty}
    (hr : ∀ cause, s.binaryRole op left right ty ≠ .unsupported cause) :
    (s.withOptions o).binaryRole op left right ty = s.binaryRole op left right ty := by
  cases op with
  | logical op => rfl
  | comparison op =>
    unfold binaryRole at hr ⊢
    dsimp only at hr ⊢
    split at hr
    · exact absurd rfl (hr _)
    · rename_i hop
      have hop' : ¬((op.isOrdering && !o.orderingComparisons) = true) := by
        have hmono := h.orderingComparisons
        simp only [Bool.and_eq_true, Bool.not_eq_true', not_and, Bool.not_eq_false] at hop ⊢
        exact fun ho => hmono (hop ho)
      rw [if_neg hop]
      exact if_neg hop'
  | arithmetic op =>
    unfold binaryRole at hr ⊢
    dsimp only at hr ⊢
    split at hr
    · exact absurd rfl (hr _)
    · rename_i hop
      have ho : o.arithmetic = true := h.arithmetic (by simpa using hop)
      rw [if_neg hop]
      exact if_neg (by simp [withOptions, ho])

/-- The role of a node changes only if it was refused. -/
theorem role_withOptions (h : s.options.Within o) (hr : ∀ cause, s.role e ≠ .unsupported cause) :
    (s.withOptions o).role e = s.role e := by
  cases e with
  | binary op left right ty =>
    simp only [role, ifOpen] at hr ⊢
    split
    · rename_i hopen
      simp only [hopen, ↓reduceIte] at hr
      exact binaryRole_withOptions h hr
    · rfl
  | unary op operand ty => cases op <;> rfl
  | _ => rfl

theorem fold_withOptions (hnm : n ≤ m) {v : Value} (h : s.fold n e = .ok v) :
    (s.withOptions o).fold m e = .ok v := by
  unfold fold at h ⊢
  split at h
  · rename_i w hw
    cases h
    rw [Expr.evaluateWithin_of_le (Nat.sub_le_sub_right hnm 1) (by simp [hw]), hw]
  · cases h
  · cases h

theorem entryKey_withOptions (hnm : n ≤ m) {k : String} (h : s.entryKey n e = .ok k) :
    (s.withOptions o).entryKey m e = .ok k := by
  unfold entryKey at h ⊢
  cases hf : s.fold n e with
  | error cause =>
    rw [hf] at h
    cases h
  | ok v =>
    rw [hf] at h
    rw [fold_withOptions hnm hf]
    exact h

theorem lower_withOptions (h : s.options.Within o) (hnm : n ≤ m)
    (hr : (s.lower n e).isRepresentable = true) : (s.withOptions o).lower m e = s.lower n e := by
  induction n generalizing m e with
  | zero => cases hr
  | succ n ih =>
    obtain ⟨m, rfl⟩ : ∃ k, m = k + 1 := ⟨m - 1, by omega⟩
    have hle : n ≤ m := by omega
    refine lower_congr (role_withOptions h fun cause hrole => ?_) (fun _ _ _ _ => rfl) (fun hrole => ?_)
      (fun target key hrole => ?_) fun part hpart => ih hle (isRepresentable_visited hr hpart)
    · rw [lower, hrole] at hr
      cases hr
    · obtain ⟨v, hv⟩ := fold_of_isRepresentable hrole hr
      rw [fold_withOptions hle hv, hv]
    · obtain ⟨k, hk⟩ := entryKey_of_isRepresentable hrole hr
      rw [entryKey_withOptions hle hk, hk]

theorem map_lower_withOptions (h : s.options.Within o) (hnm : n ≤ m) {es : List Expr}
    (hes : (es.map (s.lower n)).any isUnsupported = false) :
    es.map ((s.withOptions o).lower m) = es.map (s.lower n) :=
  List.map_congr_left fun _ he => lower_withOptions h hnm (isRepresentable_of_map_lower hes he)

theorem project_withOptions (h : s.options.Within o) {body : Expr} {ty : Ty} {args : List Expr}
    {members : Option (List String)} (hr : (s.project body ty args members).isRepresentable = true) :
    (s.withOptions o).project body ty args members = s.project body ty args members := by
  have hargs := map_lower_withOptions h h.maxDepth (any_isUnsupported_of_project hr)
  exact project_congr (s := s) (t := s.withOptions o) rfl hargs

theorem lowerValue_withOptions (h : s.options.Within o) {form : Form} {body : Expr}
    (hr : (s.lowerValue form body).isRepresentable = true) :
    (s.withOptions o).lowerValue form body = s.lowerValue form body := by
  have heq := lower_withOptions h (Nat.add_le_add_right h.maxDepth 1) (isRepresentable_of_lowerValue hr)
  unfold lowerValue
  simp only [withOptions] at heq ⊢
  rw [heq]

theorem lowerBody_withOptions (h : s.options.Within o) {form : Form} {body : Expr}
    (hr : (s.lowerBody form body).isRepresentable = true) :
    (s.withOptions o).lowerBody form body = s.lowerBody form body := by
  unfold lowerBody at hr ⊢
  split at hr
  · rename_i ty args members hu
    change (if s.isProjection ty then _ else _) = if s.isProjection ty then _ else _
    split at hr
    · rename_i hp
      rw [if_pos hp, if_pos hp]
      exact project_withOptions h hr
    · rename_i hp
      rw [if_neg hp, if_neg hp]
      exact lowerValue_withOptions h hr
  · split at hr
    · rename_i hform
      rw [if_pos hform, if_pos hform]
      exact lowerValue_withOptions h hr
    · rename_i ty elements hu hform
      rw [if_neg hform, if_neg hform]
      have hparts := map_lower_withOptions h h.maxDepth (any_isUnsupported_of_joined hr)
      exact congrArg (fun parts => joined body parts (.list parts ty)) hparts
  · exact lowerValue_withOptions h hr

/-- A body that is lowered without markers is lowered to the same tree, and printed as the same text,
under any options that allow as much. Folding has its part in this: unless a budget does not suffice
for it, the result is the same with every larger one. -/
theorem lowerBody_of_within (s : Scope) (form : Form) (body : Expr) {o : Options}
    (ho : s.options.Within o) (hr : (s.lowerBody form body).isRepresentable = true) :
    (s.withOptions o).lowerBody form body = s.lowerBody form body ∧
    ((s.withOptions o).lowerBody form body).print = (s.lowerBody form body).print ∧
    ∀ (e : Expr) (n m : Nat), n ≤ m → e.evaluateWithin n ≠ .error .tooDeep →
      e.evaluateWithin m = e.evaluateWithin n := by
  have hbody := lowerBody_withOptions ho hr
  exact ⟨hbody, by rw [hbody], fun e n m => Expr.evaluateWithin_of_le⟩

namespace Sparing
open Critters

/-- Without arithmetic and orderings, and with no level to spare. -/
def sparing : Scope := critters.withOptions ⟨false, false, 4⟩

/-- The sum is closed, so it is folded and not an operator of the filter. -/
def isRex : Expr :=
  .notOf (.binaryOf (.comparison .equal) name
    (.binaryOf (.arithmetic .add) (.ofValue (.string "Re")) (.ofValue (.string "x"))))

end Sparing

open Sparing in
theorem lowerBody_of_within_critters :
    (sparing.withOptions {}).lowerBody .predicate isRex = sparing.lowerBody .predicate isRex ∧
    (sparing.lowerBody .predicate isRex).print = .ok "not (Name eq 'Rex')" :=
  ⟨(sparing.lowerBody_of_within .predicate isRex ⟨nofun, nofun, by decide⟩ (by decide)).1, by rfl⟩

end Scope
end ResourceQuery
