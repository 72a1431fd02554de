import ResourceQuery.Proofs.Reports

/-! # Lowered trees are well formed

A marker has no supported parent but the wrapper of a selection, selections stand at the root only,
and every constant has a literal. So a tree is printed exactly if it has no markers.
-/
namespace ResourceQuery
namespace Query

inductive Below : Query → Query → Prop
  | child {c q : Query} (hc : c ∈ q.children) : Below c q
  | descend {d c q : Query} (hc : c ∈ q.children) (hd : Below d c) : Below d q

inductive Throughout (P : Query → Prop) : Query → Prop
  | node {q : Query} (hq : P q) (hc : ∀ c ∈ q.children, Throughout P c) : Throughout P q

def isSelection : Query → Bool
  | .projection .. | .selector _ | .selectMany .. => true
  | _ => false

/-- Whether a node only says what the value below it is selected for. -/
def isWrapper : Query → Bool
  | .selector _ | .selectMany .. => true
  | _ => false

def IsWhole (q : Query) : Prop := q.isUnsupported = false → ∀ c ∈ q.children, c.isUnsupported = false

def HasLiteral : Query → Prop
  | .constant value _ => ∃ text, value.literal = .ok text
  | _ => True

structure IsInner (q : Query) : Prop where
  whole : q.IsWhole
  unselected : q.isSelection = false
  hasLiteral : q.HasLiteral

/-- What a lowered tree is: the root may be a selection, and a wrapper may have a marker. -/
structure WellFormed (t : Query) : Prop where
  whole : t.isWrapper = false → t.IsWhole
  hasLiteral : t.HasLiteral
  inner : ∀ c ∈ t.children, c.Throughout IsInner

namespace Throughout
variable {P Q : Query → Prop} {q c t : Query}

theorem here (h : q.Throughout P) : P q := by
  cases h with
  | node hq _ => exact hq

theorem child (h : q.Throughout P) (hc : c ∈ q.children) : c.Throughout P := by
  cases h with
  | node _ h => exact h c hc

theorem of_below (h : t.Throughout P) (hq : q.Below t) : P q := by
  induction hq with
  | child hc => exact (h.child hc).here
  | descend hc _ ih => exact ih (h.child hc)

theorem of_writtenIn (h : t.Throughout P) (hq : q.WrittenIn t) : P q := by
  induction hq with
  | self => exact h.here
  | part hp _ ih => exact ih (h.child (child_of_writtenParts hp))

theorem mono (h : q.Throughout P) (hPQ : ∀ q, P q → Q q) : q.Throughout Q := by
  induction h with
  | node hq _ ih => exact .node (hPQ _ hq) ih

end Throughout

theorem WellFormed.of_throughout {q : Query} (h : q.Throughout IsInner) : q.WellFormed :=
  ⟨fun _ => h.here.whole, h.here.hasLiteral, fun _ hc => h.child hc⟩

theorem WellFormed.of_below {t q : Query} (h : t.WellFormed) (hq : q.Below t) : q.IsInner := by
  cases hq with
  | child hc => exact (h.inner _ hc).here
  | descend hc hd => exact (h.inner _ hc).of_below hd

theorem WellFormed.exists_print_iff {t : Query} (h : t.WellFormed) :
    (∃ text, t.print = .ok text) ↔ t.isRepresentable = true := by
  have hliterals : t.Throughout HasLiteral :=
    .node h.hasLiteral fun c hc => (h.inner c hc).mono fun _ hq => hq.hasLiteral
  rw [Query.exists_print_iff]
  exact ⟨And.left, fun hr => ⟨hr, fun _ _ hw => hliterals.of_writtenIn hw⟩⟩

end Query

namespace Scope
open Query
variable {e : Expr}

theorem inner_leaf {q : Query} (hc : q.children = []) (hs : q.isSelection = false)
    (hl : q.HasLiteral) : q.Throughout IsInner :=
  .node ⟨fun _ => by simp [hc], hs, hl⟩ (by simp [hc])

theorem inner_refused (e : Expr) (cause : Option Cause) : (refused e cause).Throughout IsInner :=
  inner_leaf rfl rfl trivial

theorem inner_propagated {parts : List Query} (h : ∀ p ∈ parts, p.Throughout IsInner) :
    (propagated e parts).Throughout IsInner := by
  refine .node ⟨fun hsupported => ?_, rfl, trivial⟩ h
  cases hsupported

theorem inner_literal (e : Expr) (v : Value) : (literal e v).Throughout IsInner := by
  unfold literal
  split
  · rename_i text hl
    exact inner_leaf rfl rfl ⟨text, hl⟩
  · exact inner_refused e _

/-- A node made of parts has no marker below it, since one would stand in its place. -/
theorem inner_joined {parts : List Query} {node : Query} (hparts : ∀ p ∈ parts, p.Throughout IsInner)
    (hc : ∀ c ∈ node.children, c ∈ parts ∨ c.Throughout IsInner ∧ c.isUnsupported = false)
    (hs : node.isSelection = false) (hl : node.HasLiteral) :
    (joined e parts node).Throughout IsInner := by
  unfold joined
  split
  · exact inner_propagated hparts
  · rename_i hany
    have hsupported : ∀ p ∈ parts, p.isUnsupported = false := by simpa using hany
    refine .node ⟨fun _ c hcn => ?_, hs, hl⟩ fun c hcn => ?_
    · rcases hc c hcn with hpart | hpart
      · exact hsupported c hpart
      · exact hpart.2
    · rcases hc c hcn with hpart | hpart
      · exact hparts c hpart
      · exact hpart.1

theorem inner_extendPath (e : Expr) (name : String) {target : Query}
    (h : target.Throughout IsInner) : (extendPath e name target).Throughout IsInner := by
  unfold extendPath
  split
  · exact inner_leaf rfl rfl trivial
  · exact inner_propagated (by simpa using h)
  · exact inner_refused e none

theorem inner_extendEntry (e : Expr) (key : String) {target : Query}
    (h : target.Throughout IsInner) : (extendEntry e key target).Throughout IsInner := by
  unfold extendEntry
  split
  · exact inner_refused e none
  · exact inner_extendPath e key h

theorem inner_lower (s : Scope) (levels : Nat) (e : Expr) : (s.lower levels e).Throughout IsInner := by
  induction levels generalizing e with
  | zero => exact inner_refused e _
  | succ levels ih =>
    have hall : ∀ es : List Expr, ∀ p ∈ es.map (s.lower levels), p.Throughout IsInner := by
      intro es p hp
      obtain ⟨e, -, rfl⟩ := List.mem_map.mp hp
      exact ih e
    rw [lower]
    cases hrole : s.role e with
    | constant value => exact inner_literal e value
    | folded =>
      cases hf : s.fold levels e with
      | ok v => simpa only [hf] using inner_literal e v
      | error cause => simpa only [hf] using inner_refused e _
    | source ty => exact inner_leaf rfl rfl trivial
    | parameter => exact inner_leaf rfl rfl trivial
    | path target declaring name => exact inner_extendPath e _ (ih target)
    | entry target key =>
      cases hk : s.entryKey levels key with
      | ok k => simpa only [hk] using inner_extendEntry e k (ih target)
      | error cause => simpa only [hk] using inner_refused e _
    | comparison op left right =>
      exact inner_joined (hall [left, right]) (fun c hc => .inl hc) rfl trivial
    | logical op left right =>
      exact inner_joined (hall [left, right]) (fun c hc => .inl hc) rfl trivial
    | arithmetic op left right =>
      exact inner_joined (hall [left, right]) (fun c hc => .inl hc) rfl trivial
    | concat left right =>
      exact inner_joined (hall [left, right]) (fun c hc => .inl hc) rfl trivial
    | not operand =>
      exact inner_joined (hall [operand]) (fun c hc => .inl hc) rfl trivial
    | negate operand =>
      exact inner_joined (hall [operand]) (fun c hc => .inl hc) rfl trivial
    | conversion operand => exact ih operand
    | hasValue target declaring =>
      have hnull : (Query.constant .null declaring).Throughout IsInner :=
        inner_leaf rfl rfl ⟨"null", rfl⟩
      refine inner_joined (hall [target]) (fun c hc => ?_) rfl trivial
      rcases List.mem_pair.mp hc with rfl | rfl
      · exact .inl (.head _)
      · exact .inr ⟨hnull, rfl⟩
    | function signature receiver args =>
      simp only [called_of_role hrole]
      refine inner_joined ?_ (fun c hc => .inl (Signature.mem_arrange_iff.mp hc)) rfl trivial
      cases receiver with
      | none => exact hall args
      | some r => exact hall (r :: args)
    | record => exact inner_refused e none
    | list elements =>
      exact inner_joined (hall elements) (fun c hc => .inl hc) rfl trivial
    | unsupported cause => exact inner_refused e cause

theorem wellFormed_project (s : Scope) (body : Expr) (ty : Ty) (args : List Expr)
    (members : Option (List String)) : (s.project body ty args members).WellFormed := by
  have hvalue : ∀ q ∈ Entries.values (Entries.ofPairs ((s.fieldNames ty args.length members).zip
      (args.map (s.lower s.options.maxDepth)))), q ∈ args.map (s.lower s.options.maxDepth) := by
    intro q hq
    obtain ⟨field, hfield, rfl⟩ := List.mem_map.mp hq
    exact (List.of_mem_zip (Entries.mem_of_mem_ofPairs hfield)).2
  have hinner : ∀ q ∈ args.map (s.lower s.options.maxDepth), q.Throughout IsInner := by
    intro q hq
    obtain ⟨arg, -, rfl⟩ := List.mem_map.mp hq
    exact s.inner_lower _ arg
  unfold project
  dsimp only
  split
  · exact .of_throughout (inner_propagated fun q hq => hinner q (hvalue q hq))
  · rename_i hany
    refine ⟨fun _ _ q hq => ?_, trivial, fun q hq => hinner q (hvalue q hq)⟩
    have hsupported := List.any_eq_false.mp (Bool.eq_false_iff.mpr hany) q (hvalue q hq)
    simpa using hsupported

theorem wellFormed_lowerValue (s : Scope) (form : Form) (body : Expr) :
    (s.lowerValue form body).WellFormed := by
  have hinner := s.inner_lower (s.options.maxDepth + 1) body
  have hsource : (Query.source s.parameter.ty).Throughout IsInner := inner_leaf rfl rfl trivial
  cases form with
  | predicate | value => exact .of_throughout hinner
  | selector =>
    refine ⟨fun hw => ?_, trivial, fun c hc => ?_⟩
    · cases hw
    · rw [List.mem_singleton.mp hc]
      exact hinner
  | sequence =>
    refine ⟨fun hw => ?_, trivial, fun c hc => ?_⟩
    · cases hw
    · rcases List.mem_pair.mp hc with rfl | rfl
      · exact hsource
      · exact hinner

theorem wellFormed_lowerBody (s : Scope) (form : Form) (body : Expr) :
    (s.lowerBody form body).WellFormed := by
  unfold lowerBody
  split
  · split
    · exact s.wellFormed_project body _ _ _
    · exact s.wellFormed_lowerValue form body
  · split
    · exact s.wellFormed_lowerValue form body
    · refine .of_throughout (inner_joined (fun q hq => ?_) (fun c hc => .inl hc) rfl trivial)
      obtain ⟨element, -, rfl⟩ := List.mem_map.mp hq
      exact s.inner_lower _ element
  · exact s.wellFormed_lowerValue form body

/-- A supported node has no marker for a child, but for a wrapper at the root. Selections stand at
the root only, and constants have literals. Hence a lowered body is printed exactly if it has no
markers. -/
theorem lowerBody_printable (s : Scope) (form : Form) (body : Expr) :
    let t := s.lowerBody form body
    ((t.isWrapper = false → t.IsWhole) ∧ ∀ q : Query, q.Below t → q.IsWhole) ∧
    (∀ q : Query, q.Below t → q.isSelection = false) ∧
    (t.HasLiteral ∧ ∀ q : Query, q.Below t → q.HasLiteral) ∧
    ((∃ text, t.print = .ok text) ↔ t.isRepresentable = true) := by
  intro t
  have ht : t.WellFormed := s.wellFormed_lowerBody form body
  refine ⟨⟨ht.whole, fun q hq => ?_⟩, fun q hq => ?_, ⟨ht.hasLiteral, fun q hq => ?_⟩, ?_⟩
  · exact (ht.of_below hq).whole
  · exact (ht.of_below hq).unselected
  · exact (ht.of_below hq).hasLiteral
  · exact ht.exists_print_iff

end Scope
end ResourceQuery
