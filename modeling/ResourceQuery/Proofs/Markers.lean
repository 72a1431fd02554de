import ResourceQuery.Proofs.NodeShapes
import ResourceQuery.Query.Marker

/-! # Trees without markers -/
namespace ResourceQuery

namespace Query

theorem isUnsupported_of_isRepresentable {q : Query} (h : q.isRepresentable = true) :
    q.isUnsupported = false := by
  cases q <;> first | rfl | cases h

theorem allRepresentable_iff {qs : List Query} :
    allRepresentable qs = true ↔ ∀ q ∈ qs, q.isRepresentable = true := by
  induction qs with
  | nil => simp [allRepresentable]
  | cons q qs ih => simp [allRepresentable, ih]

theorem fieldsRepresentable_iff {fields : List (String × Query)} :
    fieldsRepresentable fields = true ↔ ∀ q ∈ Entries.values fields, q.isRepresentable = true := by
  induction fields with
  | nil => simp [fieldsRepresentable, Entries.values]
  | cons field fields ih => simp_all [fieldsRepresentable, Entries.values]

/-- A supported node is representable exactly if its children are. -/
theorem isRepresentable_iff {q : Query} (h : q.isUnsupported = false) :
    q.isRepresentable = true ↔ ∀ c ∈ q.children, c.isRepresentable = true := by
  cases q <;> simp_all [isRepresentable, children, isUnsupported, allRepresentable_iff,
    fieldsRepresentable_iff]

theorem isRepresentable_child {q c : Query} (h : q.isRepresentable = true) (hc : c ∈ q.children) :
    c.isRepresentable = true :=
  (isRepresentable_iff (isUnsupported_of_isRepresentable h)).mp h c hc

@[simp] theorem isRepresentable_refused (e : Expr) (cause : Option Cause) :
    (refused e cause).isRepresentable = false := rfl

end Query

namespace Scope

theorem literal_of_isRepresentable {e : Expr} {v : Value} (h : (literal e v).isRepresentable = true) :
    ∃ text, v.literal = .ok text ∧ literal e v = .constant v e.ty := by
  unfold literal at h ⊢
  split at h
  · rename_i text hl
    exact ⟨text, hl, rfl⟩
  · cases h

theorem joined_of_isRepresentable {e : Expr} {parts : List Query} {node : Query}
    (h : (joined e parts node).isRepresentable = true) : joined e parts node = node := by
  unfold joined at h ⊢
  split at h
  · cases h
  · rw [if_neg ‹_›]

theorem extendPath_of_isRepresentable {e : Expr} {name : String} {target : Query}
    (h : (extendPath e name target).isRepresentable = true) :
    ∃ path ty, target = .member path ty ∧ extendPath e name target = .member (path ++ [name]) e.ty := by
  unfold extendPath at h ⊢
  split at h
  · exact ⟨_, _, rfl, rfl⟩
  · cases h
  · cases h

theorem extendEntry_of_isRepresentable {e : Expr} {key : String} {target : Query}
    (h : (extendEntry e key target).isRepresentable = true) :
    ∃ path ty, path ≠ [] ∧ target = .member path ty ∧
      extendEntry e key target = .member (path ++ [key]) e.ty := by
  unfold extendEntry at h ⊢
  split at h
  · cases h
  · rename_i hroot
    obtain ⟨path, ty, rfl, hpath⟩ := extendPath_of_isRepresentable h
    have hne : path ≠ [] := by rintro rfl; exact hroot ty rfl
    refine ⟨path, ty, hne, rfl, ?_⟩
    cases path with
    | nil => exact absurd rfl hne
    | cons first rest => exact hpath

theorem nullableMember?_of_asksMapping {declaring : Ty} {name : String}
    (h : asksMapping declaring name = true) : nullableMember? declaring name = none := by
  simp only [asksMapping, Bool.and_eq_true, Option.isNone_iff_eq_none] at h
  exact h.1.1

/-- A closed node is a constant or a source, or it is folded. -/
theorem role_of_closed (s : Scope) {e : Expr} (h : e.isOpen = false) :
    (∃ value ty, e = .constant value ty) ∨ (∃ ty, e = .source ty) ∨ s.role e = .folded := by
  cases e with
  | constant value ty => exact .inl ⟨value, ty, rfl⟩
  | source ty => exact .inr (.inl ⟨ty, rfl⟩)
  | parameter p => cases h
  | lambda ps body => cases h
  | staticMember declaring name ty => exact .inr (.inr rfl)
  | unary op operand ty => cases op <;> simp [role, ifOpen, h]
  | _ => simp [role, ifOpen, h]

theorem eval_of_fold {s : Scope} {levels : Nat} {e : Expr} {v : Value}
    (h : s.fold levels e = .ok v) : ∃ n, e.eval n = .ok v := by
  unfold fold at h
  split at h
  · cases h
    exact ⟨_, ‹_›⟩
  · cases h
  · cases h

theorem eval_of_entryKey {s : Scope} {levels : Nat} {key : Expr} {k : String}
    (h : s.entryKey levels key = .ok k) :
    ∃ n value, key.eval n = .ok value ∧ value.text? = some k := by
  unfold entryKey at h
  split at h
  · cases h
  · rename_i value hf
    obtain ⟨n, hn⟩ := eval_of_fold hf
    split at h
    · cases h
      exact ⟨n, value, hn, ‹_›⟩
    · cases h

end Scope
end ResourceQuery
