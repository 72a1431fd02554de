import ResourceQuery.Proofs.Subtrees

/-! # How deep folding goes

Folding fails for its budget only where the tree has more levels than the budget, and a value that
needs all nodes of a tree needs as many levels as the tree has.
-/
namespace ResourceQuery

def Settled {α : Type} (r : Except EvalError α) : Prop := r ≠ .error .tooDeep

namespace Settled
variable {α β : Type}

@[simp] theorem ok (a : α) : Settled (.ok a) := nofun

@[simp] theorem error_iff {error : EvalError} :
    Settled (.error error : Except EvalError α) ↔ error ≠ .tooDeep := by
  simp [Settled]

theorem bind {r : Except EvalError α} {f : α → Except EvalError β} (h : Settled r)
    (hf : ∀ a, Settled (f a)) : Settled (r >>= f) := by
  cases r with
  | ok a => exact hf a
  | error error => exact error_iff.mpr (error_iff.mp h)

theorem mapM {f : α → Except EvalError β} {as : List α} (h : ∀ a ∈ as, Settled (f a)) :
    Settled (as.mapM f) := by
  induction as with
  | nil => exact .ok _
  | cons a as ih =>
    rw [List.mapM_cons]
    refine (h a (.head _)).bind fun b => ?_
    exact (ih fun c hc => h c (.tail _ hc)).bind fun bs => .ok _

end Settled

/-! ## Operations on values have no budget -/

@[simp] theorem mismatch_ne_tooDeep (operator : String) (operands : List Value) :
    mismatch operator operands ≠ .tooDeep := nofun

namespace Value

@[simp] theorem settled_stored (operation : String) (ty : Ty) (n : Int) :
    Settled (stored operation ty n) := by
  unfold stored
  split <;> simp

@[simp] theorem settled_counted (n : Nat) : Settled (counted n) := settled_stored _ _ _

@[simp] theorem settled_sized (op : ArithmeticOp) (d : Option Decimal) : Settled (sized op d) := by
  cases d <;> simp [sized]

@[simp] theorem settled_charIndex (length limit : Nat) (index : Value) :
    Settled (charIndex length limit index) := by
  unfold charIndex
  dsimp only
  split <;> simp

@[simp] theorem settled_indexOf (s needle : String) (start : Nat) : Settled (indexOf s needle start) :=
  settled_stored _ _ _

@[simp] theorem settled_rounded (method : String) (rule : Number.Whole) (v : Value) :
    Settled (rounded method rule v) := by
  cases v <;> simp [rounded]

theorem settled_member (v : Value) (declaring : Ty) (name : String) : Settled (v.member declaring name) := by
  unfold member
  repeat' split
  all_goals simp

theorem settled_entry (v key : Value) : Settled (v.entry key) := by
  unfold entry
  repeat' split
  all_goals simp

theorem settled_compareBy (op : ComparisonOp) (v w : Value) : Settled (v.compareBy op w) := by
  unfold compareBy
  repeat' split
  all_goals simp

theorem settled_negate (v : Value) (ty : Ty) : Settled (v.negate ty) := by
  unfold negate
  split <;> simp

theorem settled_convert (v : Value) (target : Ty) : Settled (v.convert target) := by
  unfold convert convertOperand
  repeat' split
  all_goals simp

theorem settled_arithmetic (v : Value) (op : ArithmeticOp) (ty : Ty) (w : Value) :
    Settled (v.arithmetic op ty w) := by
  unfold arithmetic concat wholeArithmetic decimalArithmetic
  repeat' split
  all_goals simp

theorem settled_stringMethod {s method : String} {args : List Value} {r : Evaluated}
    (h : stringMethod s method args = some r) : Settled r := by
  unfold stringMethod at h
  split at h
  · cases h
    exact .ok _
  · cases h
    exact .ok _
  · cases h
    exact .ok _
  · obtain ⟨t, -, rfl⟩ := Option.map_eq_some_iff.mp h
    exact .ok _
  · obtain ⟨t, -, rfl⟩ := Option.map_eq_some_iff.mp h
    exact .ok _
  · obtain ⟨t, -, rfl⟩ := Option.map_eq_some_iff.mp h
    exact .ok _
  · obtain ⟨t, -, h⟩ := Option.bind_eq_some_iff.mp h
    obtain ⟨u, -, h⟩ := Option.bind_eq_some_iff.mp h
    cases h
    exact .ok _
  · obtain ⟨t, -, rfl⟩ := Option.map_eq_some_iff.mp h
    exact settled_indexOf _ _ _
  · obtain ⟨t, -, rfl⟩ := Option.map_eq_some_iff.mp h
    exact (settled_charIndex _ _ _).bind fun start => settled_indexOf _ _ _
  · cases h
    exact (settled_charIndex _ _ _).bind fun start => .ok _
  · cases h
    exact (settled_charIndex _ _ _).bind fun start => (settled_charIndex _ _ _).bind fun count => .ok _
  · cases h

theorem settled_staticMethod {declaring : Ty} {method : String} {args : List Value} {r : Evaluated}
    (h : staticMethod declaring method args = some r) : Settled r := by
  unfold staticMethod at h
  split at h
  · obtain ⟨parts, -, rfl⟩ := Option.map_eq_some_iff.mp h
    exact .ok _
  · obtain ⟨rule, -, rfl⟩ := Option.map_eq_some_iff.mp h
    exact settled_rounded _ _ _
  · cases h

end Value

namespace Expr

theorem settled_truth (operator : String) (v : Value) : Settled (truth operator v) := by
  cases v <;> simp [truth]

theorem settled_applyUnary (op : UnaryOp) (ty : Ty) (v : Value) : Settled (applyUnary op ty v) := by
  cases op with
  | not => cases v <;> simp [applyUnary]
  | negate => exact v.settled_negate ty
  | convert => exact v.settled_convert ty

theorem settled_invoke (method : Method) (target : Option Value) (args : List Value) :
    Settled (invoke method target args) := by
  unfold invoke
  dsimp only
  split
  · split <;> simp
  · split
    · simp
    · rename_i s
      cases h : Value.stringMethod s method.name args with
      | none => simp
      | some r => exact Value.settled_stringMethod h
    · simp
    · cases h : Value.staticMethod method.declaring method.name args with
      | none => simp
      | some r => exact Value.settled_staticMethod h

/-! ## Budgets and levels -/

/-- A node does not fail for its budget if its children did not. -/
theorem settled_eval_of_children {n : Nat} {e : Expr} (h : ∀ c ∈ e.children, Settled (eval n c)) :
    Settled (eval (n + 1) e) := by
  cases e with
  | constant => exact .ok _
  | parameter | lambda | staticMember | construct | source => simp [eval]
  | member target => exact (h target (.head _)).bind fun v => v.settled_member _ _
  | unary op operand => exact (h operand (.head _)).bind fun v => settled_applyUnary _ _ v
  | binary op left right =>
    have hl := h left (.head _)
    have hr := h right (.tail _ (.head _))
    cases op with
    | comparison => exact hl.bind fun l => hr.bind fun r => l.settled_compareBy _ r
    | arithmetic => exact hl.bind fun l => hr.bind fun r => l.settled_arithmetic _ _ r
    | logical =>
      refine hl.bind fun l => (settled_truth _ l).bind fun b => ?_
      split
      · exact .ok _
      · exact hr.bind fun r => (settled_truth _ r).bind fun c => .ok _
  | call target method args =>
    refine (h target (.head _)).bind fun t => ?_
    exact (Settled.mapM fun arg harg => h arg (.tail _ harg)).bind fun vs => settled_invoke _ _ vs
  | staticCall method args => exact (Settled.mapM h).bind fun vs => settled_invoke _ _ vs
  | index target args =>
    refine (h target (.head _)).bind fun t => ?_
    split
    · exact (h _ (.tail _ (.head _))).bind fun k => t.settled_entry k
    · simp
  | list ty elements => exact (Settled.mapM h).bind fun vs => .ok _
  | conditional test ifTrue ifFalse =>
    refine (h test (.head _)).bind fun v => (settled_truth _ v).bind fun b => ?_
    cases b with
    | true => exact h ifTrue (.tail _ (.head _))
    | false => exact h ifFalse (.tail _ (.tail _ (.head _)))

/-- A budget of more levels than there are below the root suffices. -/
theorem settled_eval {n : Nat} {e : Expr} (h : e.height < n) : Settled (eval n e) := by
  induction n generalizing e with
  | zero => omega
  | succ n ih =>
    exact settled_eval_of_children fun c hc => ih (height_le_iff.mp (Nat.le_of_lt_succ h) c hc)

/-- Whether a value of the node needs values of all its children. -/
def isStrict : Expr → Bool
  | .binary (.logical _) .. | .conditional .. => false
  | _ => true

theorem isStrict_of_closed {e : Expr}
    (hs : e.Everywhere fun node => node.isOpen = true ∨ node.isStrict = true) (ho : e.isOpen = false) :
    e.Everywhere fun node => node.isStrict = true := by
  intro node hnode
  refine (hs node hnode).resolve_left fun hopen => ?_
  cases ho.symm.trans (isOpen_of_part hnode hopen)

theorem eval_children {n : Nat} {e : Expr} {v : Value} (hs : e.isStrict = true)
    (h : eval (n + 1) e = .ok v) : ∀ c ∈ e.children, ∃ w, eval n c = .ok w := by
  have hall {es : List Expr} {vs : List Value} (h : es.mapM (eval n) = .ok vs) :
      ∀ c ∈ es, ∃ w, eval n c = .ok w := exists_mapM_iff.mp ⟨vs, h⟩
  cases e with
  | constant => nofun
  | parameter | lambda | staticMember | construct | source => cases h
  | conditional => cases hs
  | member target | unary op target =>
    obtain ⟨w, hw, -⟩ := bind_eq_ok.mp h
    simpa [children] using ⟨w, hw⟩
  | binary op left right =>
    cases op with
    | logical => cases hs
    | comparison | arithmetic =>
      obtain ⟨l, hl, h⟩ := bind_eq_ok.mp h
      obtain ⟨r, hr, -⟩ := bind_eq_ok.mp h
      simpa [children] using ⟨⟨l, hl⟩, r, hr⟩
  | call target method args =>
    obtain ⟨t, ht, h⟩ := bind_eq_ok.mp h
    obtain ⟨vs, hvs, -⟩ := bind_eq_ok.mp h
    exact List.forall_mem_cons.mpr ⟨⟨t, ht⟩, hall hvs⟩
  | staticCall method args | list ty args =>
    obtain ⟨vs, hvs, -⟩ := bind_eq_ok.mp h
    exact hall hvs
  | index target args =>
    obtain ⟨t, ht, h⟩ := bind_eq_ok.mp h
    split at h
    · obtain ⟨k, hk, -⟩ := bind_eq_ok.mp h
      simpa [children] using ⟨⟨t, ht⟩, k, hk⟩
    · cases h

/-- A value that needs all nodes of a tree needs all its levels. -/
theorem height_lt_of_eval {n : Nat} {e : Expr} {v : Value}
    (hs : e.Everywhere fun node => node.isStrict = true) (h : eval n e = .ok v) : e.height < n := by
  induction n generalizing e v with
  | zero => cases h
  | succ n ih =>
    refine Nat.lt_succ_of_le (height_le_iff.mpr fun c hc => ?_)
    obtain ⟨w, hw⟩ := eval_children hs.self h c hc
    exact ih (hs.child hc) hw

end Expr
end ResourceQuery
