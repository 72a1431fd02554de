import Mathlib.Data.List.Forall2
import ResourceQuery.Expr.Fold

/-! # Budgets of folding, and a value for the parameter

A larger budget changes only what a smaller one did not suffice for, so a tree has at most one
value. Putting a constant in the place of the parameter leaves closed trees as they are. A property
of single nodes holds everywhere in a tree if all nodes have it.
-/
namespace ResourceQuery

theorem bind_eq_ok {ε α β : Type} {x : Except ε α} {f : α → Except ε β} {b : β} :
    x >>= f = .ok b ↔ ∃ a, x = .ok a ∧ f a = .ok b := by
  cases x with
  | error err => simp [bind, Except.bind]
  | ok a => simp [bind, Except.bind]

theorem pure_eq_ok {ε α : Type} {a b : α} : (pure a : Except ε α) = .ok b ↔ a = b := by
  simp [pure, Except.pure]

/-- A traversal succeeds exactly when every element does, with the values in their places. -/
theorem mapM_eq_ok {ε α β : Type} {f : α → Except ε β} {as : List α} {bs : List β} :
    as.mapM f = .ok bs ↔ List.Forall₂ (fun a b => f a = .ok b) as bs := by
  induction as generalizing bs with
  | nil => cases bs <;> simp [pure, Except.pure]
  | cons a as ih =>
    rw [List.mapM_cons, bind_eq_ok]
    constructor
    · rintro ⟨b, hb, h⟩
      obtain ⟨rest, hrest, h⟩ := bind_eq_ok.mp h
      cases h
      exact .cons hb (ih.mp hrest)
    · intro h
      cases h with
      | cons hb hrest => exact ⟨_, hb, bind_eq_ok.mpr ⟨_, ih.mpr hrest, rfl⟩⟩

theorem exists_mapM_iff {ε α β : Type} {f : α → Except ε β} {as : List α} :
    (∃ bs, as.mapM f = .ok bs) ↔ ∀ a ∈ as, ∃ b, f a = .ok b := by
  induction as with
  | nil => simp [pure, Except.pure]
  | cons a as ih =>
    rw [List.forall_mem_cons, ← ih]
    constructor
    · rintro ⟨bs, h⟩
      cases mapM_eq_ok.mp h with
      | cons hb hbs => exact ⟨⟨_, hb⟩, _, mapM_eq_ok.mpr hbs⟩
    · rintro ⟨⟨b, hb⟩, bs, hbs⟩
      exact ⟨b :: bs, mapM_eq_ok.mpr (.cons hb (mapM_eq_ok.mp hbs))⟩

namespace Expr

/-- The first result is the second, unless a budget did not suffice for it. -/
def Refines {α : Type} (a b : Except EvalError α) : Prop := a = .error .tooDeep ∨ a = b

namespace Refines
variable {α β : Type}

theorem refl (a : Except EvalError α) : Refines a a := .inr rfl

theorem bind {a b : Except EvalError α} {f g : α → Except EvalError β} (h : Refines a b)
    (hf : ∀ x, Refines (f x) (g x)) : Refines (a >>= f) (b >>= g) := by
  rcases h with rfl | rfl
  · exact .inl rfl
  · cases a with
    | error error => exact .refl _
    | ok x => exact hf x

theorem mapM {f g : α → Except EvalError β} (hf : ∀ x, Refines (f x) (g x)) (xs : List α) :
    Refines (xs.mapM f) (xs.mapM g) := by
  induction xs with
  | nil => exact .refl _
  | cons x xs ih =>
    rw [List.mapM_cons, List.mapM_cons]
    exact (hf x).bind fun _ => ih.bind fun _ => .refl _

end Refines

/-- A larger budget changes only the result of a budget that did not suffice. -/
theorem eval_refines {n m : Nat} (hnm : n ≤ m) (e : Expr) : Refines (eval n e) (eval m e) := by
  induction n generalizing m e with
  | zero => exact .inl rfl
  | succ n ih =>
    obtain ⟨m, rfl⟩ : ∃ k, m = k + 1 := ⟨m - 1, by omega⟩
    have hone (e : Expr) : Refines (eval n e) (eval m e) := ih (by omega) e
    have hall (es : List Expr) : Refines (es.mapM (eval n)) (es.mapM (eval m)) := .mapM hone es
    cases e with
    | constant | parameter | lambda | staticMember | construct | source => exact .refl _
    | member target => exact (hone target).bind fun _ => .refl _
    | unary op operand => exact (hone operand).bind fun _ => .refl _
    | binary op left right =>
      cases op with
      | comparison | arithmetic => exact (hone left).bind fun _ => (hone right).bind fun _ => .refl _
      | logical op =>
        refine (hone left).bind fun v => (Refines.refl (truth _ v)).bind fun l => ?_
        split
        · exact .refl _
        · exact (hone right).bind fun _ => .refl _
    | call target method args => exact (hone target).bind fun _ => (hall args).bind fun _ => .refl _
    | staticCall method args => exact (hall args).bind fun _ => .refl _
    | index target args =>
      refine (hone target).bind fun v => ?_
      split
      · exact (hone _).bind fun _ => .refl _
      · exact .refl _
    | list ty elements => exact (hall elements).bind fun _ => .refl _
    | conditional test ifTrue ifFalse =>
      refine (hone test).bind fun v => (Refines.refl (truth _ v)).bind fun b => ?_
      cases b with
      | true => exact hone ifTrue
      | false => exact hone ifFalse

theorem eval_mono {n m : Nat} (hnm : n ≤ m) {e : Expr} {w : Value} (he : eval n e = .ok w) :
    eval m e = .ok w := by
  rcases eval_refines hnm e with h | h
  · rw [he] at h
    cases h
  · rw [← h, he]

/-- Two budgets that suffice give the same value. -/
theorem eval_unique {n m : Nat} {e : Expr} {v w : Value} (hv : eval n e = .ok v)
    (hw : eval m e = .ok w) : v = w := by
  have h₁ := eval_mono (Nat.le_max_left n m) hv
  have h₂ := eval_mono (Nat.le_max_right n m) hw
  rw [h₁] at h₂
  cases h₂
  rfl

/-! What is found when the parts of a node are. -/

section
variable {n : Nat} {w : Value}

theorem eval_member {target : Expr} {declaring : Ty} {name : String} {ty : Ty}
    (h : eval n (.member target declaring name ty) = .ok w) :
    ∃ m u, eval m target = .ok u ∧ u.member declaring name = .ok w := by
  cases n with
  | zero => cases h
  | succ n =>
    obtain ⟨u, hu, hw⟩ := bind_eq_ok.mp h
    exact ⟨n, u, hu, hw⟩

theorem eval_unary {op : UnaryOp} {operand : Expr} {ty : Ty}
    (h : eval n (.unary op operand ty) = .ok w) :
    ∃ m u, eval m operand = .ok u ∧ applyUnary op ty u = .ok w := by
  cases n with
  | zero => cases h
  | succ n =>
    obtain ⟨u, hu, hw⟩ := bind_eq_ok.mp h
    exact ⟨n, u, hu, hw⟩

theorem eval_comparison {op : ComparisonOp} {left right : Expr} {ty : Ty}
    (h : eval n (.binary (.comparison op) left right ty) = .ok w) :
    ∃ m l r, eval m left = .ok l ∧ eval m right = .ok r ∧ l.compareBy op r = .ok w := by
  cases n with
  | zero => cases h
  | succ n =>
    obtain ⟨l, hl, h⟩ := bind_eq_ok.mp h
    obtain ⟨r, hr, hw⟩ := bind_eq_ok.mp h
    exact ⟨n, l, r, hl, hr, hw⟩

theorem eval_arithmetic {op : ArithmeticOp} {left right : Expr} {ty : Ty}
    (h : eval n (.binary (.arithmetic op) left right ty) = .ok w) :
    ∃ m l r, eval m left = .ok l ∧ eval m right = .ok r ∧ l.arithmetic op ty r = .ok w := by
  cases n with
  | zero => cases h
  | succ n =>
    obtain ⟨l, hl, h⟩ := bind_eq_ok.mp h
    obtain ⟨r, hr, hw⟩ := bind_eq_ok.mp h
    exact ⟨n, l, r, hl, hr, hw⟩

/-- The left operand decides alone, or both are truth values and the right one decides. -/
theorem eval_logical {op : LogicalOp} {left right : Expr} {ty : Ty}
    (h : eval n (.binary (.logical op) left right ty) = .ok w) :
    ∃ m b, eval m left = .ok (.boolean b) ∧
      (b = op.decisive ∧ w = .boolean b ∨
        b ≠ op.decisive ∧ ∃ c, eval m right = .ok (.boolean c) ∧ w = .boolean c) := by
  have isTruth {v : Value} {b : Bool} (hb : truth op.symbol v = .ok b) : v = .boolean b := by
    cases v <;> cases hb
    rfl
  cases n with
  | zero => cases h
  | succ n =>
    simp only [eval, bind_eq_ok] at h
    obtain ⟨l, hl, b, hb, h⟩ := h
    cases isTruth hb
    refine ⟨n, b, hl, ?_⟩
    split at h
    · cases h
      exact .inl ⟨‹_›, rfl⟩
    · simp only [bind_eq_ok] at h
      obtain ⟨r, hr, c, hc, h⟩ := h
      cases isTruth hc
      cases h
      exact .inr ⟨‹_›, c, hr, rfl⟩

theorem eval_call {target : Expr} {method : Method} {args : List Expr} {ty : Ty}
    (h : eval n (.call target method args ty) = .ok w) :
    ∃ m t ws, eval m target = .ok t ∧ args.mapM (eval m) = .ok ws ∧
      invoke method (some t) ws = .ok w := by
  cases n with
  | zero => cases h
  | succ n =>
    obtain ⟨t, ht, h⟩ := bind_eq_ok.mp h
    obtain ⟨ws, hws, hw⟩ := bind_eq_ok.mp h
    exact ⟨n, t, ws, ht, hws, hw⟩

theorem eval_staticCall {method : Method} {args : List Expr} {ty : Ty}
    (h : eval n (.staticCall method args ty) = .ok w) :
    ∃ m ws, args.mapM (eval m) = .ok ws ∧ invoke method none ws = .ok w := by
  cases n with
  | zero => cases h
  | succ n =>
    obtain ⟨ws, hws, hw⟩ := bind_eq_ok.mp h
    exact ⟨n, ws, hws, hw⟩

theorem eval_index {target key : Expr} {ty : Ty} (h : eval n (.index target [key] ty) = .ok w) :
    ∃ m t k, eval m target = .ok t ∧ eval m key = .ok k ∧ t.entry k = .ok w := by
  cases n with
  | zero => cases h
  | succ n =>
    obtain ⟨t, ht, h⟩ := bind_eq_ok.mp h
    obtain ⟨k, hk, hw⟩ := bind_eq_ok.mp h
    exact ⟨n, t, k, ht, hk, hw⟩

theorem eval_list {ty : Ty} {elements : List Expr} (h : eval n (.list ty elements) = .ok w) :
    ∃ m ws, elements.mapM (eval m) = .ok ws ∧ w = .list ws := by
  cases n with
  | zero => cases h
  | succ n =>
    obtain ⟨ws, hws, hw⟩ := bind_eq_ok.mp h
    cases hw
    exact ⟨n, ws, hws, rfl⟩

end

mutual
def substitute (σ : Parameter → Expr) : Expr → Expr
  | .parameter p => σ p
  | .constant value ty => .constant value ty
  | .lambda ps body => .lambda ps (body.substitute σ)
  | .member target declaring field ty => .member (target.substitute σ) declaring field ty
  | .staticMember declaring field ty => .staticMember declaring field ty
  | .unary op operand ty => .unary op (operand.substitute σ) ty
  | .binary op left right ty => .binary op (left.substitute σ) (right.substitute σ) ty
  | .call target method args ty =>
    .call (target.substitute σ) method (substituteAll σ args) ty
  | .staticCall method args ty => .staticCall method (substituteAll σ args) ty
  | .index target args ty => .index (target.substitute σ) (substituteAll σ args) ty
  | .construct ty args members => .construct ty (substituteAll σ args) members
  | .list ty elements => .list ty (substituteAll σ elements)
  | .conditional test ifTrue ifFalse ty =>
    .conditional (test.substitute σ) (ifTrue.substitute σ) (ifFalse.substitute σ) ty
  | .source elementTy => .source elementTy
def substituteAll (σ : Parameter → Expr) : List Expr → List Expr
  | [] => []
  | e :: rest => e.substitute σ :: substituteAll σ rest
end

theorem substituteAll_eq_map (σ : Parameter → Expr) (es : List Expr) :
    substituteAll σ es = es.map (substitute σ) := by
  induction es with
  | nil => rfl
  | cons e es ih => rw [substituteAll, ih, List.map_cons]

mutual
theorem substitute_of_closed (σ : Parameter → Expr) :
    (e : Expr) → e.isOpen = false → e.substitute σ = e
  | .parameter _, h | .lambda .., h => by cases h
  | .constant .., _ | .staticMember .., _ | .source _, _ => rfl
  | .member target .., h => by rw [substitute, substitute_of_closed σ target h]
  | .unary _ operand _, h => by rw [substitute, substitute_of_closed σ operand h]
  | .binary _ left right _, h => by
    obtain ⟨hl, hr⟩ := Bool.or_eq_false_iff.mp h
    rw [substitute, substitute_of_closed σ left hl, substitute_of_closed σ right hr]
  | .call target _ args _, h => by
    obtain ⟨ht, ha⟩ := Bool.or_eq_false_iff.mp h
    rw [substitute, substitute_of_closed σ target ht, substituteAll_of_closed σ args ha]
  | .staticCall _ args _, h => by rw [substitute, substituteAll_of_closed σ args h]
  | .index target args _, h => by
    obtain ⟨ht, ha⟩ := Bool.or_eq_false_iff.mp h
    rw [substitute, substitute_of_closed σ target ht, substituteAll_of_closed σ args ha]
  | .construct _ args _, h => by rw [substitute, substituteAll_of_closed σ args h]
  | .list _ elements, h => by rw [substitute, substituteAll_of_closed σ elements h]
  | .conditional test ifTrue ifFalse _, h => by
    obtain ⟨hc, hf⟩ := Bool.or_eq_false_iff.mp h
    obtain ⟨hc, ht⟩ := Bool.or_eq_false_iff.mp hc
    rw [substitute, substitute_of_closed σ test hc, substitute_of_closed σ ifTrue ht,
      substitute_of_closed σ ifFalse hf]
theorem substituteAll_of_closed (σ : Parameter → Expr) :
    (es : List Expr) → anyOpen es = false → substituteAll σ es = es
  | [], _ => rfl
  | e :: es, h => by
    obtain ⟨he, hes⟩ := Bool.or_eq_false_iff.mp h
    rw [substituteAll, substitute_of_closed σ e he, substituteAll_of_closed σ es hes]
end

/-- Puts a value in the place of the parameter of this name. -/
def fixed (name : String) (v : Value) (p : Parameter) : Expr :=
  if p.name = name then .constant v p.ty else .parameter p

mutual
def parts : Expr → List Expr
  | .parameter _ | .constant .. | .staticMember .. | .source _ => []
  | .lambda _ body => body :: body.parts
  | .member target .. => target :: target.parts
  | .unary _ operand _ => operand :: operand.parts
  | .binary _ left right _ => left :: left.parts ++ right :: right.parts
  | .call target _ args _ => target :: target.parts ++ nodesOf args
  | .staticCall _ args _ => nodesOf args
  | .index target args _ => target :: target.parts ++ nodesOf args
  | .construct _ args _ => nodesOf args
  | .list _ elements => nodesOf elements
  | .conditional test ifTrue ifFalse _ =>
    test :: test.parts ++ ifTrue :: ifTrue.parts ++ ifFalse :: ifFalse.parts
def nodesOf : List Expr → List Expr
  | [] => []
  | e :: rest => e :: e.parts ++ nodesOf rest
end

theorem mem_nodesOf {node : Expr} {es : List Expr} :
    node ∈ nodesOf es ↔ ∃ e ∈ es, node ∈ e :: e.parts := by
  induction es with
  | nil => simp [nodesOf]
  | cons e es ih => simp [nodesOf, ih, or_assoc]

def Everywhere (P : Expr → Prop) (e : Expr) : Prop := ∀ node ∈ e :: e.parts, P node

instance (P : Expr → Prop) [DecidablePred P] (e : Expr) : Decidable (Everywhere P e) :=
  inferInstanceAs (Decidable (∀ node ∈ e :: e.parts, P node))

namespace Everywhere
variable {P : Expr → Prop}

theorem self {e : Expr} (h : Everywhere P e) : P e := h e List.mem_cons_self

theorem nodesOf_iff {es : List Expr} : (∀ node ∈ nodesOf es, P node) ↔ ∀ e ∈ es, Everywhere P e := by
  simp only [mem_nodesOf, Everywhere]
  exact ⟨fun h e he node hn => h node ⟨e, he, hn⟩, fun h node ⟨e, he, hn⟩ => h e he node hn⟩

theorem member {target : Expr} {declaring : Ty} {name : String} {ty : Ty}
    (h : Everywhere P (.member target declaring name ty)) : Everywhere P target :=
  fun node hn => h node (List.mem_cons_of_mem _ hn)

theorem unary {op : UnaryOp} {operand : Expr} {ty : Ty} (h : Everywhere P (.unary op operand ty)) :
    Everywhere P operand :=
  fun node hn => h node (List.mem_cons_of_mem _ hn)

theorem binary {op : BinaryOp} {left right : Expr} {ty : Ty}
    (h : Everywhere P (.binary op left right ty)) : Everywhere P left ∧ Everywhere P right :=
  ⟨fun node hn => h node (List.mem_cons_of_mem _ (List.mem_append_left _ hn)),
    fun node hn => h node (List.mem_cons_of_mem _ (List.mem_append_right _ hn))⟩

theorem call {target : Expr} {method : Method} {args : List Expr} {ty : Ty}
    (h : Everywhere P (.call target method args ty)) :
    Everywhere P target ∧ ∀ arg ∈ args, Everywhere P arg :=
  ⟨fun node hn => h node (List.mem_cons_of_mem _ (List.mem_append_left _ hn)),
    nodesOf_iff.mp fun node hn => h node (List.mem_cons_of_mem _ (List.mem_append_right _ hn))⟩

theorem staticCall {method : Method} {args : List Expr} {ty : Ty}
    (h : Everywhere P (.staticCall method args ty)) : ∀ arg ∈ args, Everywhere P arg :=
  nodesOf_iff.mp fun node hn => h node (List.mem_cons_of_mem _ hn)

theorem index {target : Expr} {args : List Expr} {ty : Ty}
    (h : Everywhere P (.index target args ty)) :
    Everywhere P target ∧ ∀ arg ∈ args, Everywhere P arg :=
  ⟨fun node hn => h node (List.mem_cons_of_mem _ (List.mem_append_left _ hn)),
    nodesOf_iff.mp fun node hn => h node (List.mem_cons_of_mem _ (List.mem_append_right _ hn))⟩

theorem list {ty : Ty} {elements : List Expr} (h : Everywhere P (.list ty elements)) :
    ∀ e ∈ elements, Everywhere P e :=
  nodesOf_iff.mp fun node hn => h node (List.mem_cons_of_mem _ hn)

end Everywhere

end Expr
end ResourceQuery
