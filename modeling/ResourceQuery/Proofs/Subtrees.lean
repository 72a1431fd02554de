import ResourceQuery.Proofs.Substitution

/-! # Parts of expressions

Induction over the children of a node, and how many levels a tree has below its root.
-/
namespace ResourceQuery.Expr

theorem sizeOf_child {e c : Expr} (hc : c ∈ e.children) : sizeOf c < sizeOf e := by
  have hlt : sizeOf c < sizeOf e.children := List.sizeOf_lt_of_mem hc
  cases e with
  | parameter | constant | staticMember | source => cases hc
  | lambda | member | unary =>
    rw [List.mem_singleton.mp hc]
    simp only [lambda.sizeOf_spec, member.sizeOf_spec, unary.sizeOf_spec]
    omega
  | binary =>
    simp only [binary.sizeOf_spec]
    rcases List.mem_pair.mp hc with rfl | rfl <;> omega
  | call | index =>
    simp only [children, List.cons.sizeOf_spec] at hlt
    simp only [call.sizeOf_spec, index.sizeOf_spec]
    omega
  | staticCall | construct | list =>
    simp only [children] at hlt
    simp only [staticCall.sizeOf_spec, construct.sizeOf_spec, list.sizeOf_spec]
    omega
  | conditional =>
    simp only [conditional.sizeOf_spec]
    rcases List.mem_cons.mp hc with rfl | hc
    · omega
    · rcases List.mem_pair.mp hc with rfl | rfl <;> omega

/-- What holds of each node whose children it holds of holds of every tree. -/
@[elab_as_elim]
theorem inductionOn {motive : Expr → Prop} (e : Expr)
    (node : ∀ e, (∀ c ∈ e.children, motive c) → motive e) : motive e :=
  node e fun c _hc => inductionOn c node
termination_by sizeOf e
decreasing_by exact sizeOf_child _hc

theorem mem_parts_iff {node e : Expr} : node ∈ e.parts ↔ ∃ c ∈ e.children, node ∈ c :: c.parts := by
  cases e <;> simp [parts, children, mem_nodesOf, or_assoc]

theorem Everywhere.child {P : Expr → Prop} {e c : Expr} (h : e.Everywhere P) (hc : c ∈ e.children) :
    c.Everywhere P :=
  fun node hn => h node (List.mem_cons_of_mem _ (mem_parts_iff.mpr ⟨c, hc, hn⟩))

theorem Everywhere.unconverted {P : Expr → Prop} : {e : Expr} → e.Everywhere P → e.unconverted.Everywhere P
  | .unary .convert operand _, h => unconverted (e := operand) (h.child (.head _))
  | .unary .not .., h | .unary .negate .., h | .parameter _, h | .constant .., h | .lambda .., h
  | .member .., h | .staticMember .., h | .binary .., h | .call .., h | .staticCall .., h
  | .index .., h | .construct .., h | .list .., h | .conditional .., h | .source _, h => h

theorem isOpen_of_part {node e : Expr} (h : node ∈ e :: e.parts) (ho : node.isOpen = true) :
    e.isOpen = true := by
  induction e using inductionOn with
  | node e ih =>
    rcases List.mem_cons.mp h with rfl | h
    · exact ho
    · obtain ⟨c, hc, hnode⟩ := mem_parts_iff.mp h
      exact isOpen_of_child hc (ih c hc hnode)

mutual
def height : Expr → Nat
  | .parameter _ | .constant .. | .staticMember .. | .source _ => 0
  | .lambda _ body => body.height + 1
  | .member target _ _ _ => target.height + 1
  | .unary _ operand _ => operand.height + 1
  | .binary _ left right _ => max (left.height + 1) (right.height + 1)
  | .call target _ args _ | .index target args _ => max (target.height + 1) (heightOf args)
  | .staticCall _ args _ | .construct _ args _ | .list _ args => heightOf args
  | .conditional test ifTrue ifFalse _ =>
    max (test.height + 1) (max (ifTrue.height + 1) (ifFalse.height + 1))
def heightOf : List Expr → Nat
  | [] => 0
  | e :: rest => max (e.height + 1) (heightOf rest)
end

theorem heightOf_le_iff {es : List Expr} {n : Nat} : heightOf es ≤ n ↔ ∀ e ∈ es, e.height < n := by
  induction es with
  | nil => simp [heightOf]
  | cons e es ih =>
    simp only [heightOf, Nat.max_le, ih, List.forall_mem_cons]
    rfl

/-- A tree has at most so many levels below its root exactly if each child has fewer. -/
theorem height_le_iff {e : Expr} {n : Nat} : e.height ≤ n ↔ ∀ c ∈ e.children, c.height < n := by
  cases e <;>
    simp only [height, children, Nat.max_le, heightOf_le_iff, Nat.add_one_le_iff, List.forall_mem_cons,
      List.not_mem_nil, IsEmpty.forall_iff, implies_true, and_true, Nat.zero_le]

end ResourceQuery.Expr
