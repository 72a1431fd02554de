import ResourceQuery.Proofs.NestingLimit
import ResourceQuery.Proofs.Subtrees

/-! # One step of lowering

The parts that are lowered for a node are children of it, and most nodes are made of what all their
children are lowered to. The rest of the theory of lowering looks at one node through these facts.
-/
namespace ResourceQuery

/-- Whether a node of the role is made of what all its children are lowered to. -/
def Role.isComposite : Role → Bool
  | .comparison .. | .logical .. | .arithmetic .. | .concat .. | .not _ | .negate _ | .conversion _
  | .hasValue .. | .function .. | .list _ => true
  | .constant _ | .folded | .source _ | .parameter | .path .. | .entry .. | .record
  | .unsupported _ => false

namespace Scope
open Query

def visited (s : Scope) (levels : Nat) : Role → List Expr
  | .constant _ | .folded | .source _ | .parameter | .record | .unsupported _ => []
  | .path target _ _ | .hasValue target _ => [target]
  | .entry target key => if (s.entryKey levels key).isOk then [target] else []
  | .comparison _ left right | .logical _ left right | .arithmetic _ left right
  | .concat left right => [left, right]
  | .not operand | .negate operand | .conversion operand => [operand]
  | .function _ receiver args => receiver.toList ++ args
  | .list elements => elements

variable {s : Scope} {n : Nat} {e part : Expr}

/-- An open node is the parameter, or it is refused, or its role has exactly its children for parts. -/
theorem role_of_isOpen (s : Scope) (ho : e.isOpen = true) :
    (s.role e).operands? = some e.children ∨ (s.role e = .parameter ∧ e.children = []) ∨
      s.role e = .record ∨ ∃ cause, s.role e = .unsupported cause := by
  by_cases hp : ∃ p, e = .parameter p
  · obtain ⟨p, rfl⟩ := hp
    rw [role]
    split
    · exact .inr (.inl ⟨rfl, rfl⟩)
    · exact .inr (.inr (.inr ⟨_, rfl⟩))
  · exact (operands?_role s (fun p hep => hp ⟨p, hep⟩) ho).imp_right .inr

theorem isOpen_of_operands? {parts : List Expr} (h : (s.role e).operands? = some parts) :
    e.isOpen = true := by
  cases ho : e.isOpen with
  | true => rfl
  | false =>
    rcases s.role_of_closed ho with ⟨value, ty, rfl⟩ | ⟨ty, rfl⟩ | hrole
    · cases h
    · cases h
    · rw [hrole] at h
      cases h

theorem operands?_eq_children {parts : List Expr} (h : (s.role e).operands? = some parts) :
    parts = e.children := by
  rcases s.role_of_isOpen (isOpen_of_operands? h) with hrole | ⟨hrole, -⟩ | hrole | ⟨cause, hrole⟩
  · exact Option.some.inj (h.symm.trans hrole)
  · rw [hrole] at h
    cases h
  · rw [hrole] at h
    cases h
  · rw [hrole] at h
    cases h

theorem isOpen_of_role_folded (h : s.role e = .folded) : e.isOpen = false := by
  cases ho : e.isOpen with
  | false => rfl
  | true =>
    rcases s.role_of_isOpen ho with hrole | ⟨hrole, -⟩ | hrole | ⟨cause, hrole⟩
    · rw [h] at hrole
      cases hrole
    · cases h.symm.trans hrole
    · cases h.symm.trans hrole
    · cases h.symm.trans hrole

theorem operands?_of_visited {r : Role} (h : part ∈ s.visited n r) :
    ∃ parts, r.operands? = some parts ∧ part ∈ parts := by
  cases r with
  | constant | folded | source | parameter | record | unsupported => cases h
  | entry target key =>
    simp only [visited] at h
    split at h
    · exact ⟨_, rfl, List.mem_cons.mpr (.inl (List.mem_singleton.mp h))⟩
    · cases h
  | _ => exact ⟨_, rfl, h⟩

theorem child_of_visited (h : part ∈ s.visited n (s.role e)) : part ∈ e.children := by
  obtain ⟨parts, hparts, hpart⟩ := operands?_of_visited h
  exact operands?_eq_children hparts ▸ hpart

theorem isOpen_of_visited (h : part ∈ s.visited n (s.role e)) : e.isOpen = true := by
  obtain ⟨parts, hparts, -⟩ := operands?_of_visited h
  exact isOpen_of_operands? hparts

theorem operands?_of_isComposite {r : Role} (h : r.isComposite = true) (s : Scope) (n : Nat) :
    r.operands? = some (s.visited n r) := by
  cases r <;> first | rfl | cases h

theorem visited_of_isComposite (h : (s.role e).isComposite = true) (n : Nat) :
    s.visited n (s.role e) = e.children :=
  operands?_eq_children (operands?_of_isComposite h s n)

/-- A composite node that is no conversion joins what its parts are lowered to. -/
theorem lower_of_isComposite (h : (s.role e).isComposite = true) (n : Nat) :
    (∃ operand, s.role e = .conversion operand ∧ s.lower (n + 1) e = s.lower n operand) ∨
    ∃ node, s.lower (n + 1) e = joined e ((s.visited n (s.role e)).map (s.lower n)) node ∧
      node.isUnsupported = false ∧
      ∀ c ∈ node.children, c ∈ (s.visited n (s.role e)).map (s.lower n) ∨ c.isRepresentable = true := by
  rw [lower]
  cases hrole : s.role e with
  | constant | folded | source | parameter | path | entry | record | unsupported =>
    rw [hrole] at h
    cases h
  | conversion operand => exact .inl ⟨operand, rfl, rfl⟩
  | comparison | logical | arithmetic | concat | not | negate | list =>
    exact .inr ⟨_, rfl, rfl, fun c hc => .inl hc⟩
  | hasValue target declaring =>
    refine .inr ⟨_, rfl, rfl, fun c hc => ?_⟩
    rcases List.mem_pair.mp hc with rfl | rfl
    · exact .inl (.head _)
    · exact .inr rfl
  | function signature receiver args =>
    have hparts : (receiver.map (s.lower n)).toList ++ args.map (s.lower n) =
        (receiver.toList ++ args).map (s.lower n) := by
      cases receiver <;> simp
    simp only [called_of_role hrole]
    refine .inr ⟨_, congrArg (joined e · _) hparts, rfl, fun c hc => .inl ?_⟩
    rw [visited, ← hparts]
    exact Signature.mem_arrange_iff.mp hc

theorem visited_of_entry {target key : Expr} {k : String} (hrole : s.role e = .entry target key)
    (hk : s.entryKey n key = .ok k) : s.visited n (s.role e) = [target] := by
  simp [hrole, visited, hk, Except.isOk, Except.toBool]

theorem entryKey_of_isRepresentable {target key : Expr} (hrole : s.role e = .entry target key)
    (h : (s.lower (n + 1) e).isRepresentable = true) : ∃ k, s.entryKey n key = .ok k := by
  rw [lower, hrole] at h
  cases hk : s.entryKey n key with
  | error cause =>
    simp only [hk] at h
    cases h
  | ok k => exact ⟨k, rfl⟩

theorem fold_of_isRepresentable (hrole : s.role e = .folded)
    (h : (s.lower (n + 1) e).isRepresentable = true) : ∃ v, s.fold n e = .ok v := by
  rw [lower, hrole] at h
  cases hf : s.fold n e with
  | error cause =>
    simp only [hf] at h
    cases h
  | ok v => exact ⟨v, rfl⟩

theorem any_isUnsupported_of_joined {parts : List Query} {node : Query}
    (h : (joined e parts node).isRepresentable = true) : parts.any isUnsupported = false := by
  unfold joined at h
  split at h
  · cases h
  · exact Bool.eq_false_iff.mpr ‹_›

theorem isRepresentable_of_map_lower {es : List Expr}
    (h : (es.map (s.lower n)).any isUnsupported = false) (he : e ∈ es) :
    (s.lower n e).isRepresentable = true := by
  have hs := List.any_eq_false.mp h _ (List.mem_map_of_mem he)
  exact (s.inner_lower n e).isRepresentable (by simpa using hs)

theorem isRepresentable_visited (h : (s.lower (n + 1) e).isRepresentable = true)
    (hp : part ∈ s.visited n (s.role e)) : (s.lower n part).isRepresentable = true := by
  cases hc : (s.role e).isComposite with
  | true =>
    rcases lower_of_isComposite hc n with ⟨operand, hrole, heq⟩ | ⟨node, heq, -, -⟩
    · rw [hrole] at hp
      rw [List.mem_singleton.mp hp, ← heq]
      exact h
    · rw [heq] at h
      exact isRepresentable_of_map_lower (any_isUnsupported_of_joined h) hp
  | false =>
    cases hrole : s.role e with
    | path target declaring name =>
      rw [hrole] at hp
      rw [lower, hrole] at h
      obtain ⟨path, ty, ht, -⟩ := extendPath_of_isRepresentable h
      rw [List.mem_singleton.mp hp, ht]
      rfl
    | entry target key =>
      obtain ⟨k, hk⟩ := entryKey_of_isRepresentable hrole h
      rw [visited_of_entry hrole hk] at hp
      simp only [lower, hrole, hk] at h
      obtain ⟨path, ty, -, ht, -⟩ := extendEntry_of_isRepresentable h
      rw [List.mem_singleton.mp hp, ht]
      rfl
    | constant | folded | source | parameter | record | unsupported =>
      rw [hrole] at hp
      cases hp
    | _ =>
      rw [hrole] at hc
      cases hc

/-- The children of an open node without markers are lowered, but for keys. -/
theorem visited_of_isRepresentable {c : Expr} (h : (s.lower (n + 1) e).isRepresentable = true)
    (ho : e.isOpen = true) (hc : c ∈ e.children) :
    c ∈ s.visited n (s.role e) ∨ ∃ target k, s.role e = .entry target c ∧ s.entryKey n c = .ok k := by
  rcases s.role_of_isOpen ho with hrole | ⟨-, hnil⟩ | hrole | ⟨cause, hrole⟩
  · cases hcomp : (s.role e).isComposite with
    | true =>
      rw [visited_of_isComposite hcomp]
      exact .inl hc
    | false =>
      cases hr : s.role e with
      | path target declaring name =>
        rw [hr] at hrole
        rw [← Option.some.inj hrole] at hc
        exact .inl hc
      | entry target key =>
        obtain ⟨k, hk⟩ := entryKey_of_isRepresentable hr h
        rw [hr] at hrole
        rw [← Option.some.inj hrole] at hc
        rcases List.mem_pair.mp hc with rfl | rfl
        · rw [← hr, visited_of_entry hr hk]
          exact .inl (.head _)
        · exact .inr ⟨target, k, rfl, hk⟩
      | constant | folded | source | parameter | record | unsupported =>
        rw [hr] at hrole
        cases hrole
      | _ =>
        rw [hr] at hcomp
        cases hcomp
  · rw [hnil] at hc
    cases hc
  · rw [lower, hrole] at h
    cases h
  · rw [lower, hrole] at h
    cases h

/-- What a node is lowered to depends on its role, on the name of a member, on the value of a folded
node or key, and on what its parts are lowered to. -/
theorem lower_congr {t : Scope} {m : Nat} (hrole : t.role e = s.role e)
    (hname : ∀ target declaring name, s.role e = .path target declaring name →
      (t.mapping.property declaring name).name = (s.mapping.property declaring name).name)
    (hfold : s.role e = .folded → t.fold m e = s.fold n e)
    (hkey : ∀ target key, s.role e = .entry target key → t.entryKey m key = s.entryKey n key)
    (hparts : ∀ part ∈ s.visited n (s.role e), t.lower m part = s.lower n part) :
    t.lower (m + 1) e = s.lower (n + 1) e := by
  rw [lower, lower, hrole]
  cases hr : s.role e with
  | constant | source | parameter | record | unsupported => rfl
  | folded => simp only [hfold hr]
  | path target declaring name =>
    rw [hr] at hparts
    simp only [hname _ _ _ hr, hparts target (.head _)]
  | entry target key =>
    simp only [hkey _ _ hr]
    cases hk : s.entryKey n key with
    | error cause => rfl
    | ok k =>
      rw [visited_of_entry hr hk] at hparts
      simp only [hparts target (.head _)]
  | comparison op left right | logical op left right | arithmetic op left right
  | concat left right =>
    rw [hr] at hparts
    simp only [hparts left (.head _), hparts right (.tail _ (.head _))]
  | not operand | negate operand | conversion operand | hasValue operand =>
    rw [hr] at hparts
    simp only [hparts operand (.head _)]
  | function signature receiver args =>
    rw [hr] at hparts
    have hargs : args.map (t.lower m) = args.map (s.lower n) :=
      List.map_congr_left fun part hpart => hparts part (List.mem_append_right _ hpart)
    have hreceiver : receiver.map (t.lower m) = receiver.map (s.lower n) := by
      cases receiver with
      | none => rfl
      | some r => rw [Option.map_some, Option.map_some, hparts r (.head _)]
    simp only [hargs, hreceiver]
  | list elements =>
    have helements : elements.map (t.lower m) = elements.map (s.lower n) :=
      List.map_congr_left fun part hpart => hparts part (hr ▸ hpart)
    simp only [helements]

/-! ## Roots -/

theorem isRepresentable_of_lowerValue {form : Form} {body : Expr}
    (h : (s.lowerValue form body).isRepresentable = true) :
    (s.lower (s.options.maxDepth + 1) body).isRepresentable = true := by
  cases form with
  | predicate | value | selector => exact h
  | sequence => exact isRepresentable_child h (.tail _ (.head _))

theorem any_isUnsupported_of_project {body : Expr} {ty : Ty} {args : List Expr}
    {members : Option (List String)} (h : (s.project body ty args members).isRepresentable = true) :
    (args.map (s.lower s.options.maxDepth)).any isUnsupported = false := by
  refine Bool.eq_false_iff.mpr fun hany => ?_
  simp only [project, hany, ↓reduceIte] at h
  cases h

theorem project_congr {t : Scope} {body : Expr} {ty : Ty} {args : List Expr} {members : Option (List String)}
    (hnames : t.fieldNames ty args.length members = s.fieldNames ty args.length members)
    (hargs : args.map (t.lower t.options.maxDepth) = args.map (s.lower s.options.maxDepth)) :
    t.project body ty args members = s.project body ty args members := by
  unfold project
  simp only [hargs, hnames]

end Scope
end ResourceQuery
