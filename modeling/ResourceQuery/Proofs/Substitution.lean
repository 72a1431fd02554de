import ResourceQuery.Lowering
import ResourceQuery.Proofs.Evaluation

/-! # Roles under substitution

Open expressions of the right types in the places of parameters change neither the types of the
nodes above them nor which nodes are open. So a node keeps its role, with the same substitution
made in the parts that are lowered for it.
-/
namespace ResourceQuery

/-- A substitution that keeps types and leaves parameters open. -/
structure Parameter.Keeps (σ : Parameter → Expr) : Prop where
  ty : ∀ p, (σ p).ty = p.ty
  isOpen : ∀ p, (σ p).isOpen = true

namespace Expr
variable {σ : Parameter → Expr}

theorem ty_substitute (hσ : Parameter.Keeps σ) : (e : Expr) → (e.substitute σ).ty = e.ty
  | .parameter p => hσ.ty p
  | .lambda _ body => ty_substitute hσ body
  | .constant .. | .member .. | .staticMember .. | .unary .. | .binary .. | .call .. | .staticCall ..
  | .index .. | .construct .. | .list .. | .conditional .. | .source _ => rfl

mutual
theorem isOpen_substitute (hσ : Parameter.Keeps σ) : (e : Expr) → (e.substitute σ).isOpen = e.isOpen
  | .parameter p => hσ.isOpen p
  | .lambda .. | .constant .. | .staticMember .. | .source _ => rfl
  | .member target _ _ _ => isOpen_substitute hσ target
  | .unary _ operand _ => isOpen_substitute hσ operand
  | .binary _ left right _ => by
    simp only [substitute, isOpen, isOpen_substitute hσ left, isOpen_substitute hσ right]
  | .call target _ args _ | .index target args _ => by
    simp only [substitute, isOpen, isOpen_substitute hσ target, anyOpen_substituteAll hσ args]
  | .staticCall _ args _ | .construct _ args _ | .list _ args => by
    simp only [substitute, isOpen, anyOpen_substituteAll hσ args]
  | .conditional test ifTrue ifFalse _ => by
    simp only [substitute, isOpen, isOpen_substitute hσ test, isOpen_substitute hσ ifTrue,
      isOpen_substitute hσ ifFalse]
theorem anyOpen_substituteAll (hσ : Parameter.Keeps σ) :
    (es : List Expr) → anyOpen (substituteAll σ es) = anyOpen es
  | [] => rfl
  | e :: es => by
    simp only [substituteAll, anyOpen, isOpen_substitute hσ e, anyOpen_substituteAll hσ es]
end

def children : Expr → List Expr
  | .parameter _ | .constant .. | .staticMember .. | .source _ => []
  | .lambda _ body => [body]
  | .member target _ _ _ => [target]
  | .unary _ operand _ => [operand]
  | .binary _ left right _ => [left, right]
  | .call target _ args _ | .index target args _ => target :: args
  | .staticCall _ args _ | .construct _ args _ | .list _ args => args
  | .conditional test ifTrue ifFalse _ => [test, ifTrue, ifFalse]

inductive Mentions (p : Parameter) : Expr → Prop
  | here : Mentions p (.parameter p)
  | child {e part : Expr} (h : part ∈ e.children) (hp : Mentions p part) : Mentions p e

theorem isOpen_of_child {e part : Expr} (h : part ∈ e.children) (ho : part.isOpen = true) :
    e.isOpen = true := by
  have hany : ∀ es : List Expr, part ∈ es → anyOpen es = true := by
    intro es hm
    rw [anyOpen_eq_any, List.any_eq_true]
    exact ⟨part, hm, ho⟩
  cases e with
  | parameter | constant | staticMember | source => cases h
  | lambda => rfl
  | member | unary =>
    rw [List.mem_singleton.mp h] at ho
    exact ho
  | binary =>
    rcases List.mem_pair.mp h with rfl | rfl
    · simp [isOpen, ho]
    · simp [isOpen, ho]
  | call | index =>
    rcases List.mem_cons.mp h with rfl | h
    · simp [isOpen, ho]
    · simp [isOpen, hany _ h]
  | staticCall | construct | list => exact hany _ h
  | conditional =>
    rcases List.mem_cons.mp h with rfl | h
    · simp [isOpen, ho]
    · rcases List.mem_pair.mp h with rfl | rfl
      · simp [isOpen, ho]
      · simp [isOpen, ho]

theorem Mentions.isOpen {p : Parameter} {e : Expr} (h : Mentions p e) : e.isOpen = true := by
  induction h with
  | here => rfl
  | child hpart _ ih => exact isOpen_of_child hpart ih

end Expr

def Role.map (f : Expr → Expr) : Role → Role
  | .path target declaring name => .path (f target) declaring name
  | .entry target key => .entry (f target) (f key)
  | .comparison op left right => .comparison op (f left) (f right)
  | .logical op left right => .logical op (f left) (f right)
  | .arithmetic op left right => .arithmetic op (f left) (f right)
  | .concat left right => .concat (f left) (f right)
  | .not operand => .not (f operand)
  | .negate operand => .negate (f operand)
  | .conversion operand => .conversion (f operand)
  | .hasValue target declaring => .hasValue (f target) declaring
  | .function signature receiver args => .function signature (receiver.map f) (args.map f)
  | .list elements => .list (elements.map f)
  | .constant value => .constant value
  | .folded => .folded
  | .source elementTy => .source elementTy
  | .parameter => .parameter
  | .record => .record
  | .unsupported cause => .unsupported cause

/-- The parts that are lowered for a node, or folded to a key. -/
def Role.operands? : Role → Option (List Expr)
  | .path target _ _ | .hasValue target _ => some [target]
  | .entry target key => some [target, key]
  | .comparison _ left right | .logical _ left right | .arithmetic _ left right
  | .concat left right => some [left, right]
  | .not operand | .negate operand | .conversion operand => some [operand]
  | .function _ receiver args => some (receiver.toList ++ args)
  | .list elements => some elements
  | .constant _ | .folded | .source _ | .parameter | .record | .unsupported _ => none

namespace Scope
variable {σ : Parameter → Expr}

theorem memberRole_map (s : Scope) (f : Expr → Expr) (target : Expr) (declaring : Ty) (name : String) :
    s.memberRole (f target) declaring name = (s.memberRole target declaring name).map f := by
  unfold memberRole
  repeat' split
  all_goals rfl

theorem binaryRole_map (s : Scope) {f : Expr → Expr} (op : BinaryOp) {left : Expr} (right : Expr)
    (ty : Ty) (hty : (f left).ty = left.ty) :
    s.binaryRole op (f left) (f right) ty = (s.binaryRole op left right ty).map f := by
  unfold binaryRole
  rw [hty]
  repeat' split
  all_goals rfl

theorem callRole_map {f : Expr → Expr} (hty : ∀ e, (f e).ty = e.ty) (access : Access)
    (method : Method) (target : Option Expr) (args : List Expr) :
    callRole access method (target.map f) (args.map f) = (callRole access method target args).map f := by
  have hargs : (args.map f).map Expr.ty = args.map Expr.ty := by simp [hty]
  unfold callRole
  rw [hargs]
  dsimp only
  repeat' split
  all_goals rfl

theorem indexRole_map {f : Expr → Expr} (hty : ∀ e, (f e).ty = e.ty)
    (hopen : ∀ e, (f e).isOpen = e.isOpen) {target : Expr} {args : List Expr}
    (hr : ∀ cause, indexRole (f target) (args.map f) ≠ .unsupported cause) :
    indexRole (f target) (args.map f) = (indexRole target args).map f := by
  rcases args with _ | ⟨key, _ | ⟨next, rest⟩⟩
  · exact absurd rfl (hr _)
  · simp only [indexRole, List.map_cons, List.map_nil, hty, hopen] at hr ⊢
    split
    · rename_i hkeyed
      rw [if_pos hkeyed] at hr
      split
      · rename_i hk
        exact absurd (if_pos hk) (hr _)
      · rfl
    · rename_i hkeyed
      exact absurd (if_neg hkeyed) (hr _)
  · exact absurd rfl (hr _)

theorem ifOpen_map (e : Expr) (role : Role) (f : Expr → Expr) :
    (ifOpen e role).map f = ifOpen e (role.map f) := by
  unfold ifOpen
  split <;> rfl

/-- A node keeps its role unless it is refused for its key, which the refusal quotes. -/
theorem role_substitute (s : Scope) (hσ : Parameter.Keeps σ) {e : Expr} (he : ∀ p, e ≠ .parameter p)
    (hr : ∀ cause, s.role (e.substitute σ) ≠ .unsupported cause) :
    s.role (e.substitute σ) = (s.role e).map (Expr.substitute σ) := by
  have hty := Expr.ty_substitute hσ
  have hopen : ∀ role, ifOpen (e.substitute σ) role = ifOpen e role := by
    intro role
    rw [ifOpen, ifOpen, Expr.isOpen_substitute hσ e]
  cases e with
  | parameter p => exact absurd rfl (he p)
  | constant | source | lambda | staticMember => rfl
  | unary op operand ty =>
    cases op <;> rw [role, ifOpen_map] <;> exact hopen _
  | binary op left right ty =>
    rw [role, ifOpen_map, ← binaryRole_map s op right ty (hty left)]
    exact hopen _
  | member target declaring name ty =>
    rw [role, ifOpen_map, ← memberRole_map]
    exact hopen _
  | call target method args ty =>
    rw [role, ifOpen_map, ← callRole_map hty, ← Expr.substituteAll_eq_map]
    exact hopen _
  | staticCall method args ty =>
    rw [role, ifOpen_map, ← callRole_map hty, ← Expr.substituteAll_eq_map]
    exact hopen _
  | index target args ty =>
    have hindex : (Expr.index target args ty).isOpen = true →
        indexRole (target.substitute σ) (args.map (Expr.substitute σ)) =
          (indexRole target args).map (Expr.substitute σ) := by
      intro ho
      refine indexRole_map hty (Expr.isOpen_substitute hσ) fun cause hcause => hr cause ?_
      rw [Expr.substitute, Expr.substituteAll_eq_map] at hopen ⊢
      exact (hopen _).trans ((if_pos ho).trans hcause)
    rw [Expr.substitute, Expr.substituteAll_eq_map] at hopen ⊢
    refine (hopen _).trans ?_
    rw [role, ifOpen_map]
    unfold ifOpen
    split
    · exact hindex ‹_›
    · rfl
  | construct ty args members =>
    rw [role, ifOpen_map]
    refine (hopen _).trans (congrArg _ ?_)
    split <;> rfl
  | list ty elements =>
    rw [Expr.substitute, Expr.substituteAll_eq_map] at hopen ⊢
    rw [role, role, ifOpen_map]
    exact hopen _
  | conditional test ifTrue ifFalse ty =>
    rw [role, ifOpen_map]
    exact hopen _

/-- An open node is refused, or its role has exactly its children for parts. -/
theorem operands?_role (s : Scope) {e : Expr} (he : ∀ p, e ≠ .parameter p) (ho : e.isOpen = true) :
    (s.role e).operands? = some e.children ∨ s.role e = .record ∨
      ∃ cause, s.role e = .unsupported cause := by
  have hif : ∀ role, ifOpen e role = role := fun role => if_pos ho
  cases e with
  | parameter p => exact absurd rfl (he p)
  | constant | source | staticMember => cases ho
  | lambda => exact .inr (.inr ⟨none, rfl⟩)
  | unary op operand ty =>
    cases op <;> exact .inl (congrArg Role.operands? (hif _))
  | binary | member | call | staticCall | index =>
    rw [role, hif]
    simp only [binaryRole, memberRole, callRole, indexRole]
    repeat' split
    all_goals simp [Role.operands?, Expr.children]
  | construct ty args members =>
    rw [role, hif]
    split
    · exact .inr (.inl rfl)
    · exact .inr (.inr ⟨none, rfl⟩)
  | list ty elements => exact .inl (congrArg Role.operands? (hif _))
  | conditional test ifTrue ifFalse ty => exact .inr (.inr ⟨none, hif _⟩)

end Scope
end ResourceQuery
