import ResourceQuery.Proofs.Critters
import ResourceQuery.Proofs.FoldingDepth
import ResourceQuery.Proofs.MarkerOrder
import ResourceQuery.Proofs.Rekeyed

/-! # How many levels lowering takes

A node is lowered with one level for each level below it, but folding an operand takes one level
more than the operand has. Keys are folded at the level of the dictionary and take no more.
-/
namespace ResourceQuery

namespace Expr

/-- What folding takes: a level more than the expression has, unless it is a single node. -/
def foldDemand (e : Expr) : Nat := if e.height = 0 then 0 else e.height + 1

/-- What an open expression takes, if it is one, and otherwise what folding takes. -/
def demandOr (e : Expr) (below : Nat) : Nat := if e.isOpen then below else e.foldDemand

mutual
/-- The number of levels below its root that lowering an expression takes. -/
def demand : Expr → Nat
  | .parameter _ | .constant .. | .staticMember .. | .source _ => 0
  | .lambda _ body => body.demand + 1
  | .member target declaring name ty =>
    (Expr.member target declaring name ty).demandOr (target.demand + 1)
  | .unary op operand ty => (Expr.unary op operand ty).demandOr (operand.demand + 1)
  | .binary op left right ty =>
    (Expr.binary op left right ty).demandOr (max (left.demand + 1) (right.demand + 1))
  | .call target method args ty =>
    (Expr.call target method args ty).demandOr (max (target.demand + 1) (demandOf args))
  | .index target args ty =>
    (Expr.index target args ty).demandOr (max (target.demand + 1) (heightOf args))
  | .staticCall method args ty => (Expr.staticCall method args ty).demandOr (demandOf args)
  | .construct ty args members => (Expr.construct ty args members).demandOr (demandOf args)
  | .list ty elements => (Expr.list ty elements).demandOr (demandOf elements)
  | .conditional test ifTrue ifFalse ty =>
    (Expr.conditional test ifTrue ifFalse ty).demandOr
      (max (test.demand + 1) (max (ifTrue.demand + 1) (ifFalse.demand + 1)))
def demandOf : List Expr → Nat
  | [] => 0
  | e :: rest => max (e.demand + 1) (demandOf rest)
end

/-- The keys of an entry, which are folded where the entry is lowered. -/
def keys : Expr → List Expr
  | .index _ args _ => args
  | _ => []

def operands : Expr → List Expr
  | .index target _ _ => [target]
  | e => e.children

theorem mem_children_iff {e c : Expr} : c ∈ e.children ↔ c ∈ e.operands ∨ c ∈ e.keys := by
  cases e <;> simp [children, operands, keys]

theorem demandOf_le_iff {es : List Expr} {n : Nat} : demandOf es ≤ n ↔ ∀ e ∈ es, e.demand < n := by
  induction es with
  | nil => simp [demandOf]
  | cons e es ih =>
    simp only [demandOf, Nat.max_le, ih, List.forall_mem_cons]
    rfl

theorem demand_le_iff {e : Expr} (ho : e.isOpen = true) {n : Nat} :
    e.demand ≤ n ↔ (∀ c ∈ e.operands, c.demand < n) ∧ ∀ k ∈ e.keys, k.height < n := by
  cases e with
  | parameter => simp [demand, operands, keys, children]
  | constant | staticMember | source => cases ho
  | _ =>
    simp only [demand, demandOr, ho, ↓reduceIte, operands, keys, children, Nat.max_le, demandOf_le_iff,
      heightOf_le_iff, Nat.add_one_le_iff, List.forall_mem_cons, List.not_mem_nil, IsEmpty.forall_iff,
      implies_true, and_true]

theorem demand_of_closed {e : Expr} (ho : e.isOpen = false) : e.demand = e.foldDemand := by
  cases e with
  | parameter | lambda => cases ho
  | constant | staticMember | source => rfl
  | _ => simp only [demand, demandOr, ho, Bool.false_eq_true, ↓reduceIte]

theorem foldDemand_bounds (e : Expr) : e.height ≤ e.foldDemand ∧ e.foldDemand ≤ e.height + 1 := by
  unfold foldDemand
  split <;> omega

theorem height_le_demand (e : Expr) : e.height ≤ e.demand := by
  induction e using inductionOn with
  | node e ih =>
    cases ho : e.isOpen with
    | false =>
      rw [demand_of_closed ho]
      exact e.foldDemand_bounds.1
    | true =>
      obtain ⟨hoperands, hkeys⟩ := (demand_le_iff ho).mp (Nat.le_refl _)
      refine height_le_iff.mpr fun c hc => ?_
      rcases mem_children_iff.mp hc with hoperand | hkey
      · exact Nat.lt_of_le_of_lt (ih c hc) (hoperands c hoperand)
      · exact hkeys c hkey

theorem demand_le_height (e : Expr) : e.demand ≤ e.height + 1 := by
  induction e using inductionOn with
  | node e ih =>
    cases ho : e.isOpen with
    | false =>
      rw [demand_of_closed ho]
      exact e.foldDemand_bounds.2
    | true =>
      have hbelow := height_le_iff.mp (Nat.le_refl e.height)
      refine (demand_le_iff ho).mpr ⟨fun c hc => ?_, fun k hk => ?_⟩
      · have hchild := mem_children_iff.mpr (.inl hc)
        have hc := ih c hchild
        have hlt := hbelow c hchild
        omega
      · have hlt := hbelow k (mem_children_iff.mpr (.inr hk))
        omega

end Expr

namespace Scope
open Query
variable {s : Scope} {n : Nat} {e part : Expr}

theorem isWithinLimit_refused {cause : Option Cause} (h : ∀ max, cause ≠ some (.tooDeep max)) :
    (refused e cause).IsWithinLimit := by
  intro m hm
  obtain rfl := List.mem_singleton.mp hm
  unfold Marker.isTooDeep
  split
  · rename_i max hcause
    exact absurd hcause (h max)
  · rfl

theorem isWithinLimit_literal (e : Expr) (v : Value) : (literal e v).IsWithinLimit := by
  unfold literal
  split
  · exact isWithinLimit_of_isRepresentable rfl
  · exact isWithinLimit_refused (by simp)

theorem isWithinLimit_extendPath (name : String) {target : Query} (h : target.IsWithinLimit) :
    (extendPath e name target).IsWithinLimit := by
  cases target with
  | unsupported =>
    rw [IsWithinLimit, markers_extendPath name rfl]
    exact h
  | member => exact isWithinLimit_of_isRepresentable rfl
  | _ => exact isWithinLimit_refused (by simp)

theorem isWithinLimit_extendEntry (key : String) {target : Query} (h : target.IsWithinLimit) :
    (extendEntry e key target).IsWithinLimit := by
  unfold extendEntry
  split
  · exact isWithinLimit_refused (by simp)
  · exact isWithinLimit_extendPath key h

theorem role_ne_tooDeep (s : Scope) (e : Expr) (max : Nat) :
    s.role e ≠ .unsupported (some (.tooDeep max)) := by
  intro h
  unfold role ifOpen memberRole binaryRole callRole indexRole at h
  dsimp only at h
  repeat' split at h
  all_goals cases h

theorem fold_ne_tooDeep (h : e.height < n - 1 + 1) (max : Nat) : s.fold n e ≠ .error (.tooDeep max) := by
  have hsettled := Expr.settled_eval h
  unfold fold Expr.evaluateWithin
  split
  · nofun
  · exact absurd ‹_› hsettled
  · nofun

theorem entryKey_ne_tooDeep (h : e.height < n - 1 + 1) (max : Nat) :
    s.entryKey n e ≠ .error (.tooDeep max) := by
  unfold entryKey
  split
  · rename_i cause hcause
    intro he
    cases he
    exact fold_ne_tooDeep h max hcause
  · split <;> nofun

/-- The limit is hit at a node only if it is in a part, or in folding the node or its key. -/
theorem isWithinLimit_of_parts
    (hfold : s.role e = .folded → ∀ max, s.fold n e ≠ .error (.tooDeep max))
    (hkey : ∀ target key, s.role e = .entry target key →
      ∀ max, s.entryKey n key ≠ .error (.tooDeep max))
    (hparts : ∀ part ∈ s.visited n (s.role e), (s.lower n part).IsWithinLimit) :
    (s.lower (n + 1) e).IsWithinLimit := by
  cases hc : (s.role e).isComposite with
  | true =>
    intro m hm
    rw [markers_of_isComposite hc n, ← visited_of_isComposite hc n] at hm
    obtain ⟨part, hpart, hm⟩ := List.mem_flatMap.mp hm
    exact hparts part hpart m hm
  | false =>
    rw [lower]
    cases hrole : s.role e with
    | constant value => exact isWithinLimit_literal e value
    | folded =>
      cases hv : s.fold n e with
      | ok v => exact isWithinLimit_literal e v
      | error cause =>
        refine isWithinLimit_refused fun max h => ?_
        cases h
        exact hfold hrole max hv
    | source | parameter => exact isWithinLimit_of_isRepresentable rfl
    | path target declaring name =>
      rw [hrole] at hparts
      exact isWithinLimit_extendPath _ (hparts target (.head _))
    | entry target key =>
      cases hk : s.entryKey n key with
      | ok k =>
        rw [visited_of_entry hrole hk] at hparts
        simp only [hk]
        exact isWithinLimit_extendEntry k (hparts target (.head _))
      | error cause =>
        simp only [hk]
        refine isWithinLimit_refused fun max h => ?_
        cases h
        exact hkey target key hrole max hk
    | record => exact isWithinLimit_refused (by simp)
    | unsupported cause =>
      refine isWithinLimit_refused fun max h => ?_
      subst h
      exact role_ne_tooDeep s e max hrole
    | _ =>
      rw [hrole] at hc
      cases hc

theorem operand_of_visited (h : part ∈ s.visited n (s.role e)) : part ∈ e.operands := by
  have ho := isOpen_of_visited h
  have hchild := child_of_visited h
  cases e with
  | index target args ty =>
    rw [role, ifOpen, if_pos ho] at h
    unfold indexRole at h
    dsimp only at h
    repeat' split at h
    · cases h
    · simp only [visited] at h
      split at h
      · exact h
      · cases h
    · cases h
    · cases h
  | _ => exact hchild

/-- By induction on the levels: a node that takes fewer has parts that take fewer. -/
theorem isWithinLimit_lower (h : e.demand < n) : (s.lower n e).IsWithinLimit := by
  induction n generalizing e with
  | zero => omega
  | succ n ih =>
    have hle : e.demand ≤ n := Nat.le_of_lt_succ h
    refine isWithinLimit_of_parts (fun hrole => ?_) (fun target key hrole => ?_) fun part hpart => ?_
    · rw [Expr.demand_of_closed (isOpen_of_role_folded hrole), Expr.foldDemand] at hle
      refine fold_ne_tooDeep ?_
      split at hle <;> omega
    · obtain ⟨⟨ty, rfl⟩, -⟩ := index_of_role_entry hrole
      have ho := isOpen_of_operands? (s := s) (by rw [hrole]; rfl)
      have hkey := ((Expr.demand_le_iff ho).mp hle).2 key (.head _)
      exact entryKey_ne_tooDeep (by omega)
    · exact ih (((Expr.demand_le_iff (isOpen_of_visited hpart)).mp hle).1 part (operand_of_visited hpart))

theorem height_lt_of_fold {v : Value} (hs : e.Everywhere fun node => node.isStrict = true)
    (h : s.fold n e = .ok v) : e.height < n - 1 + 1 := by
  unfold fold at h
  split at h
  · exact Expr.height_lt_of_eval hs ‹_›
  · cases h
  · cases h

theorem height_lt_of_entryKey {k : String} (hs : e.Everywhere fun node => node.isStrict = true)
    (h : s.entryKey n e = .ok k) : e.height < n - 1 + 1 := by
  unfold entryKey at h
  split at h
  · cases h
  · exact height_lt_of_fold hs ‹_›

/-- By induction on the levels: what was lowered and folded as a whole fits into the levels. -/
theorem demand_lt_of_isRepresentable
    (hs : e.Everywhere fun node => node.isOpen = true ∨ node.isStrict = true)
    (h : (s.lower n e).isRepresentable = true) : e.demand < n := by
  induction n generalizing e with
  | zero => cases h
  | succ n ih =>
    refine Nat.lt_succ_of_le ?_
    cases ho : e.isOpen with
    | false =>
      rw [Expr.demand_of_closed ho, Expr.foldDemand]
      rcases s.role_of_closed ho with ⟨value, ty, rfl⟩ | ⟨ty, rfl⟩ | hrole
      · exact Nat.zero_le n
      · exact Nat.zero_le n
      · obtain ⟨v, hv⟩ := fold_of_isRepresentable hrole h
        have hlt := height_lt_of_fold (Expr.isStrict_of_closed hs ho) hv
        -- Folding a single node succeeds even where no level is left.
        split <;> omega
    | true =>
      have hvisited {c : Expr} (hc : c ∈ s.visited n (s.role e)) : c.demand < n :=
        ih (hs.child (child_of_visited hc)) (isRepresentable_visited h hc)
      rw [Expr.demand_le_iff ho]
      by_cases hentry : ∃ target key, s.role e = .entry target key
      · obtain ⟨target, key, hrole⟩ := hentry
        obtain ⟨⟨ty, rfl⟩, hkey⟩ := index_of_role_entry hrole
        obtain ⟨k, hk⟩ := entryKey_of_isRepresentable hrole h
        have htarget : target.demand < n := hvisited (by rw [visited_of_entry hrole hk]; exact .head _)
        have hlt := height_lt_of_entryKey (Expr.isStrict_of_closed (hs.child (.tail _ (.head _))) hkey) hk
        simp only [Expr.operands, Expr.keys, List.forall_mem_singleton]
        -- The target was lowered, so a level is left, and folding the key had no more than this.
        omega
      · have hall {c : Expr} (hc : c ∈ e.children) : c.demand < n := by
          refine hvisited ((visited_of_isRepresentable h ho hc).resolve_right ?_)
          rintro ⟨target, k, hrole, -⟩
          exact hentry ⟨target, c, hrole⟩
        refine ⟨fun c hc => hall (Expr.mem_children_iff.mpr (.inl hc)), fun k hk => ?_⟩
        exact Nat.lt_of_le_of_lt k.height_le_demand (hall (Expr.mem_children_iff.mpr (.inr hk)))

/-- Whether the root of the body is a record or a list, which is left out of the tree's levels. -/
def isSelection (s : Scope) (body : Expr) : Bool :=
  match body.unconverted with
  | .construct ty _ _ => s.isProjection ty
  | .list .. => true
  | _ => false

theorem lowerBody_value {body : Expr} (h : s.isSelection body = false) :
    s.lowerBody .value body = s.lower (s.options.maxDepth + 1) body := by
  unfold isSelection at h
  unfold lowerBody
  split <;> simp_all [lowerValue]

/-- The limit is not hit by a body that demands no more levels than it allows, and a body without
markers demands no more, if all its folded parts were folded as a whole. What a body demands is the
number of levels below its root, or one more where operands are folded that deep. -/
theorem isWithinLimit_lowerBody (s : Scope) (body : Expr) (h : s.isSelection body = false) :
    (body.demand ≤ s.options.maxDepth → (s.lowerBody .value body).IsWithinLimit) ∧
    ((body.Everywhere fun node => node.isOpen = true ∨ node.isStrict = true) →
      (s.lowerBody .value body).isRepresentable = true → body.demand ≤ s.options.maxDepth) ∧
    body.height ≤ body.demand ∧ body.demand ≤ body.height + 1 := by
  rw [lowerBody_value h]
  refine ⟨fun hle => isWithinLimit_lower (Nat.lt_succ_of_le hle), fun hs hr => ?_,
    body.height_le_demand, body.demand_le_height⟩
  exact Nat.le_of_lt_succ (demand_lt_of_isRepresentable hs hr)

namespace Allowance
open Critters

def upTo (maxDepth : Nat) : Scope := { critters with options := { maxDepth } }

/-- An entry of as many levels as the sum that it is compared with. -/
def isThree : Expr :=
  let one := Expr.ofValue (.int32 1)
  .binaryOf (.comparison .equal)
    (.index (trait "Ages" (.dictionary .string .int32)) [.ofValue (.string "now")] .int32)
    (.binaryOf (.arithmetic .add) one (.binaryOf (.arithmetic .add) one one))

end Allowance

open Allowance in
theorem isWithinLimit_lowerBody_critters :
    isThree.height = 3 ∧ isThree.demand = 4 ∧ ((upTo 4).lowerBody .value isThree).IsWithinLimit ∧
    ((upTo 3).lowerBody .value isThree).isRepresentable = false := by
  refine ⟨by decide, by decide, ?_, ?_⟩
  · exact ((upTo 4).isWithinLimit_lowerBody isThree rfl).1 (by decide)
  · refine Bool.eq_false_iff.mpr fun hr => ?_
    have hle := ((upTo 3).isWithinLimit_lowerBody isThree rfl).2.1 (by decide) hr
    exact absurd hle (by decide)

-- Three levels suffice for the entry, but not for the sum.
example : ((Allowance.upTo 3).lowerBody .value Allowance.isThree).markers =
    [⟨"(1 + (1 + 1))", some (.tooDeep 3), true⟩] := by decide

end Scope
end ResourceQuery
