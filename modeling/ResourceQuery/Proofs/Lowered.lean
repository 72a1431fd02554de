import Mathlib.Data.List.Forall2
import ResourceQuery.Proofs.Markers

/-! # What lowering makes of each node

A rule for each role says when a node is lowered to a tree without markers, and to which one.
Statements about such trees are proved by induction on the rules.
-/
namespace ResourceQuery.Scope

/-- The node is lowered, within so many levels, to a tree without markers. -/
inductive Lowers (s : Scope) : Nat → Expr → Query → Prop
  | constant {levels : Nat} {value : Value} {ty : Ty} {text : String} (hl : value.literal = .ok text) :
    Lowers s (levels + 1) (.constant value ty) (.constant value ty)
  | source {levels : Nat} {ty : Ty} : Lowers s (levels + 1) (.source ty) (.source ty)
  | folded {levels : Nat} {e : Expr} {value : Value} {text : String} (ho : e.isOpen = false)
    (hf : s.fold levels e = .ok value) (hl : value.literal = .ok text) :
    Lowers s (levels + 1) e (.constant value e.ty)
  | parameter {levels : Nat} {p : Parameter} (hp : p.name = s.parameter.name) :
    Lowers s (levels + 1) (.parameter p) (.member [] p.ty)
  | path {levels : Nat} {target : Expr} {declaring : Ty} {name : String} {ty pathTy : Ty}
    {path : List String} (ho : target.isOpen = true) (ha : asksMapping declaring name = true)
    (hm : (s.mapping.property declaring name).mapped = true)
    (ht : Lowers s levels target (.member path pathTy)) :
    Lowers s (levels + 1) (.member target declaring name ty)
      (.member (path ++ [(s.mapping.property declaring name).name]) ty)
  | unwrap {levels : Nat} {target : Expr} {declaring : Ty} {name : String} {ty : Ty} {q : Query}
    (ho : target.isOpen = true) (hn : nullableMember? declaring name = some .value)
    (ht : Lowers s levels target q) : Lowers s (levels + 1) (.member target declaring name ty) q
  | hasValue {levels : Nat} {target : Expr} {declaring : Ty} {name : String} {ty : Ty} {q : Query}
    (ho : target.isOpen = true) (hn : nullableMember? declaring name = some .hasValue)
    (ht : Lowers s levels target q) :
    Lowers s (levels + 1) (.member target declaring name ty)
      (.comparison .notEqual q (.constant .null declaring))
  | property {levels : Nat} {target : Expr} {declaring : Ty} {name : String} {ty : Ty} {q : Query}
    {receiver : Receiver} {sig : Signature} (ho : target.isOpen = true)
    (hn : nullableMember? declaring name = none) (hr : Receiver.of? declaring = some receiver)
    (hl : lookup receiver name .property [] = .found sig) (ht : Lowers s levels target q) :
    Lowers s (levels + 1) (.member target declaring name ty)
      (.call sig.function (sig.arrange (some q) []) ty)
  | convert {levels : Nat} {operand : Expr} {ty : Ty} {q : Query} (ho : operand.isOpen = true)
    (ht : Lowers s levels operand q) : Lowers s (levels + 1) (.unary .convert operand ty) q
  | not {levels : Nat} {operand : Expr} {ty : Ty} {q : Query} (ho : operand.isOpen = true)
    (ht : Lowers s levels operand q) : Lowers s (levels + 1) (.unary .not operand ty) (.not q)
  | negate {levels : Nat} {operand : Expr} {ty : Ty} {q : Query} (ho : operand.isOpen = true)
    (ht : Lowers s levels operand q) : Lowers s (levels + 1) (.unary .negate operand ty) (.negate q)
  | comparison {levels : Nat} {op : ComparisonOp} {left right : Expr} {ty : Ty} {l r : Query}
    (ho : (left.isOpen || right.isOpen) = true)
    (hop : (op.isOrdering && !s.options.orderingComparisons) = false)
    (hl : Lowers s levels left l) (hr : Lowers s levels right r) :
    Lowers s (levels + 1) (.binary (.comparison op) left right ty) (.comparison op l r)
  | logical {levels : Nat} {op : LogicalOp} {left right : Expr} {ty : Ty} {l r : Query}
    (ho : (left.isOpen || right.isOpen) = true)
    (hl : Lowers s levels left l) (hr : Lowers s levels right r) :
    Lowers s (levels + 1) (.binary (.logical op) left right ty) (.logical op l r)
  | arithmetic {levels : Nat} {op : ArithmeticOp} {left right : Expr} {ty : Ty} {l r : Query}
    (ho : (left.isOpen || right.isOpen) = true) (hop : s.options.arithmetic = true)
    (hc : (op = .add && (ty.isText || left.ty.isText)) = false)
    (hl : Lowers s levels left l) (hr : Lowers s levels right r) :
    Lowers s (levels + 1) (.binary (.arithmetic op) left right ty) (.arithmetic op l r ty)
  | concat {levels : Nat} {left right : Expr} {ty : Ty} {l r : Query}
    (ho : (left.isOpen || right.isOpen) = true) (hop : s.options.arithmetic = true)
    (hc : (ty.isText || left.ty.isText) = true)
    (hl : Lowers s levels left l) (hr : Lowers s levels right r) :
    Lowers s (levels + 1) (.binary (.arithmetic .add) left right ty) (.call .concat [l, r] ty)
  | method {levels : Nat} {target : Expr} {method : Method} {args : List Expr} {ty : Ty} {q : Query}
    {qs : List Query} {receiver : Receiver} {sig : Signature}
    (ho : (target.isOpen || Expr.anyOpen args) = true)
    (hr : Receiver.of? method.declaring = some receiver)
    (hl : lookup receiver method.name .method (args.map Expr.ty) = .found sig)
    (ht : Lowers s levels target q) (hlen : args.length = qs.length)
    (ha : ∀ {a b}, (a, b) ∈ args.zip qs → Lowers s levels a b) :
    Lowers s (levels + 1) (.call target method args ty)
      (.call sig.function (sig.arrange (some q) qs) ty)
  | staticMethod {levels : Nat} {method : Method} {args : List Expr} {ty : Ty} {qs : List Query}
    {receiver : Receiver} {sig : Signature} (ho : Expr.anyOpen args = true)
    (hr : Receiver.of? method.declaring = some receiver)
    (hl : lookup receiver method.name .staticMethod (args.map Expr.ty) = .found sig)
    (hlen : args.length = qs.length) (ha : ∀ {a b}, (a, b) ∈ args.zip qs → Lowers s levels a b) :
    Lowers s (levels + 1) (.staticCall method args ty) (.call sig.function qs ty)
  | entry {levels : Nat} {target key : Expr} {k : String} {ty pathTy : Ty} {path : List String}
    (ht : isTextKeyed target.ty = true) (hkt : key.ty.isText = true) (hc : key.isOpen = false)
    (hk : s.entryKey levels key = .ok k) (hp : path ≠ [])
    (ho : target.isOpen = true) (hl : Lowers s levels target (.member path pathTy)) :
    Lowers s (levels + 1) (.index target [key] ty) (.member (path ++ [k]) ty)
  | list {levels : Nat} {ty : Ty} {elements : List Expr} {qs : List Query}
    (ho : Expr.anyOpen elements = true) (hlen : elements.length = qs.length)
    (ha : ∀ {a b}, (a, b) ∈ elements.zip qs → Lowers s levels a b) :
    Lowers s (levels + 1) (.list ty elements) (.list qs ty)

theorem mem_zip_map {α β : Type} {f : α → β} {as : List α} {a : α} {b : β} :
    (a, b) ∈ as.zip (as.map f) ↔ a ∈ as ∧ b = f a := by
  induction as with
  | nil => simp
  | cons x xs ih =>
    simp only [List.map_cons, List.zip_cons_cons, List.mem_cons, ih, Prod.mk.injEq]
    constructor
    · rintro (⟨rfl, rfl⟩ | ⟨h, rfl⟩)
      · exact ⟨.inl rfl, rfl⟩
      · exact ⟨.inr h, rfl⟩
    · rintro ⟨rfl | h, rfl⟩
      · exact .inl ⟨rfl, rfl⟩
      · exact .inr ⟨h, rfl⟩

/-! ## The rules cover all trees without markers -/

section
variable {s : Scope} {levels : Nat}
  (ih : ∀ {e : Expr}, (s.lower levels e).isRepresentable = true → Lowers s levels e (s.lower levels e))
include ih

theorem lowers_all {es : List Expr} (h : ∀ q ∈ es.map (s.lower levels), q.isRepresentable = true) :
    ∀ {a b}, (a, b) ∈ es.zip (es.map (s.lower levels)) → Lowers s levels a b := by
  intro a b hab
  obtain ⟨ha, rfl⟩ := mem_zip_map.mp hab
  exact ih (h _ (List.mem_map_of_mem ha))

theorem lowers_member {target : Expr} {declaring : Ty} {name : String} {ty : Ty}
    (ho : target.isOpen = true)
    (h : (s.lower (levels + 1) (.member target declaring name ty)).isRepresentable = true) :
    Lowers s (levels + 1) (.member target declaring name ty)
      (s.lower (levels + 1) (.member target declaring name ty)) := by
  have hrole : s.role (.member target declaring name ty) = s.memberRole target declaring name := by
    simp [role, ifOpen, Expr.isOpen, ho]
  rw [lower, hrole] at h ⊢
  cases hn : nullableMember? declaring name with
  | some wrapper =>
    cases wrapper with
    | value =>
      simp only [memberRole, hn] at h ⊢
      exact .unwrap ho hn (ih h)
    | hasValue =>
      simp only [memberRole, hn] at h ⊢
      have hjoin := joined_of_isRepresentable h
      rw [hjoin] at h ⊢
      simp only [Query.isRepresentable, Bool.and_true] at h
      exact .hasValue ho hn (ih h)
  | none =>
    cases hr : Receiver.of? declaring with
    | some receiver =>
      cases hl : lookup receiver name .property [] with
      | found sig =>
        simp only [memberRole, hn, hr, hl] at h ⊢
        have hjoin := joined_of_isRepresentable h
        rw [hjoin, called_eq ((position_of_lookup hl).trans (by simp))] at h ⊢
        simp only [Query.isRepresentable, Query.allRepresentable_iff, Option.map_some, Signature.mem_arrange] at h
        exact .property ho hn hr hl (ih (h _ (.inl rfl)))
      | mismatch f detail => simp [memberRole, hn, hr, hl] at h
      | unknown => simp [memberRole, hn, hr, hl] at h
    | none =>
      cases hd : isDictionary declaring with
      | true => simp [memberRole, hn, hr, hd] at h
      | false =>
        cases hm : (s.mapping.property declaring name).mapped with
        | false => simp [memberRole, hn, hr, hd, hm] at h
        | true =>
          simp only [memberRole, hn, hr, hd, hm, Bool.false_eq_true, ↓reduceIte] at h ⊢
          have ha : asksMapping declaring name = true := by simp [asksMapping, hn, hr, hd]
          obtain ⟨path, pathTy, ht, hpath⟩ := extendPath_of_isRepresentable h
          rw [hpath]
          exact .path ho ha hm (ht ▸ ih (by rw [ht]; rfl))

theorem lowers_binary {op : BinaryOp} {left right : Expr} {ty : Ty}
    (ho : (left.isOpen || right.isOpen) = true)
    (h : (s.lower (levels + 1) (.binary op left right ty)).isRepresentable = true) :
    Lowers s (levels + 1) (.binary op left right ty)
      (s.lower (levels + 1) (.binary op left right ty)) := by
  have hrole : s.role (.binary op left right ty) = s.binaryRole op left right ty := by
    simp only [role, ifOpen, Expr.isOpen, ho, ↓reduceIte]
  rw [lower, hrole] at h ⊢
  cases op with
  | logical op =>
    simp only [binaryRole] at h ⊢
    have hjoin := joined_of_isRepresentable h
    rw [hjoin] at h ⊢
    simp only [Query.isRepresentable, Bool.and_eq_true] at h
    exact .logical ho (ih h.1) (ih h.2)
  | comparison op =>
    cases hop : op.isOrdering && !s.options.orderingComparisons with
    | true => simp [binaryRole, hop] at h
    | false =>
      simp only [binaryRole, hop, Bool.false_eq_true, ↓reduceIte] at h ⊢
      have hjoin := joined_of_isRepresentable h
      rw [hjoin] at h ⊢
      simp only [Query.isRepresentable, Bool.and_eq_true] at h
      exact .comparison ho hop (ih h.1) (ih h.2)
  | arithmetic op =>
    cases hop : s.options.arithmetic with
    | false => simp [binaryRole, hop] at h
    | true =>
      cases hc : op = .add && (ty.isText || left.ty.isText) with
      | true =>
        simp only [binaryRole, hop, hc, Bool.not_true, Bool.false_eq_true, ↓reduceIte] at h ⊢
        have hjoin := joined_of_isRepresentable h
        rw [hjoin] at h ⊢
        simp only [Query.isRepresentable, Query.allRepresentable, Bool.and_eq_true, Bool.and_true] at h
        obtain ⟨hadd, hc⟩ := Bool.and_eq_true_iff.mp hc
        obtain rfl : op = .add := of_decide_eq_true hadd
        exact .concat ho hop hc (ih h.1) (ih h.2)
      | false =>
        simp only [binaryRole, hop, hc, Bool.not_true, Bool.false_eq_true, ↓reduceIte] at h ⊢
        have hjoin := joined_of_isRepresentable h
        rw [hjoin] at h ⊢
        simp only [Query.isRepresentable, Bool.and_eq_true] at h
        exact .arithmetic ho hop hc (ih h.1) (ih h.2)

theorem lowers_call {target : Expr} {method : Method} {args : List Expr} {ty : Ty}
    (ho : (target.isOpen || Expr.anyOpen args) = true)
    (h : (s.lower (levels + 1) (.call target method args ty)).isRepresentable = true) :
    Lowers s (levels + 1) (.call target method args ty)
      (s.lower (levels + 1) (.call target method args ty)) := by
  have hrole : s.role (.call target method args ty) = callRole .method method (some target) args := by
    simp only [role, ifOpen, Expr.isOpen, ho, ↓reduceIte]
  rw [lower, hrole] at h ⊢
  cases hr : Receiver.of? method.declaring with
  | none => simp [callRole, hr] at h
  | some receiver =>
    cases hl : lookup receiver method.name .method (args.map Expr.ty) with
    | mismatch f detail => simp [callRole, hr, hl] at h
    | unknown => simp [callRole, hr, hl] at h
    | found sig =>
      simp only [callRole, hr, hl] at h ⊢
      have hjoin := joined_of_isRepresentable h
      rw [hjoin, called_eq ((position_of_lookup hl).trans (by simp))] at h ⊢
      simp only [Query.isRepresentable, Query.allRepresentable_iff, Option.map_some, Signature.mem_arrange] at h
      exact .method ho hr hl (ih (h _ (.inl rfl))) (by simp) (lowers_all ih fun q hq => h q (.inr hq))

theorem lowers_staticCall {method : Method} {args : List Expr} {ty : Ty}
    (ho : Expr.anyOpen args = true)
    (h : (s.lower (levels + 1) (.staticCall method args ty)).isRepresentable = true) :
    Lowers s (levels + 1) (.staticCall method args ty)
      (s.lower (levels + 1) (.staticCall method args ty)) := by
  have hrole : s.role (.staticCall method args ty) = callRole .staticMethod method none args := by
    simp only [role, ifOpen, Expr.isOpen, ho, ↓reduceIte]
  rw [lower, hrole] at h ⊢
  cases hr : Receiver.of? method.declaring with
  | none => simp [callRole, hr] at h
  | some receiver =>
    cases hl : lookup receiver method.name .staticMethod (args.map Expr.ty) with
    | mismatch f detail => simp [callRole, hr, hl] at h
    | unknown => simp [callRole, hr, hl] at h
    | found sig =>
      simp only [callRole, hr, hl] at h ⊢
      have hjoin := joined_of_isRepresentable h
      rw [hjoin, called_eq ((position_of_lookup hl).trans (by simp))] at h ⊢
      simp only [Query.isRepresentable, Query.allRepresentable_iff, Option.map_none,
        Signature.arrange] at h ⊢
      exact .staticMethod ho hr hl (by simp) (lowers_all ih h)

theorem lowers_index {target : Expr} {args : List Expr} {ty : Ty}
    (ho : (target.isOpen || Expr.anyOpen args) = true)
    (h : (s.lower (levels + 1) (.index target args ty)).isRepresentable = true) :
    Lowers s (levels + 1) (.index target args ty)
      (s.lower (levels + 1) (.index target args ty)) := by
  have hrole : s.role (.index target args ty) = indexRole target args := by
    simp only [role, ifOpen, Expr.isOpen, ho, ↓reduceIte]
  rw [lower, hrole] at h ⊢
  rcases args with _ | ⟨key, _ | ⟨second, rest⟩⟩
  · simp [indexRole] at h
  · cases htext : isTextKeyed target.ty && key.ty.isText with
    | false => simp [indexRole, htext] at h
    | true =>
      cases hc : key.isOpen with
      | true => simp [indexRole, htext, hc] at h
      | false =>
        simp only [indexRole, htext, hc, Bool.false_eq_true, ↓reduceIte] at h ⊢
        cases hk : s.entryKey levels key with
        | error cause => simp [hk] at h
        | ok k =>
          simp only [hk] at h ⊢
          obtain ⟨path, pathTy, hp, ht, hpath⟩ := extendEntry_of_isRepresentable h
          obtain ⟨htk, hkt⟩ := Bool.and_eq_true_iff.mp htext
          have hopen : target.isOpen = true := by simpa [Expr.anyOpen, hc] using ho
          rw [hpath]
          exact .entry htk hkt hc hk hp hopen (ht ▸ ih (by rw [ht]; rfl))
  · simp [indexRole] at h

end

/-- Every tree without markers comes from the rules. -/
theorem lowers_of_isRepresentable {s : Scope} {levels : Nat} {e : Expr}
    (h : (s.lower levels e).isRepresentable = true) : Lowers s levels e (s.lower levels e) := by
  induction levels generalizing e with
  | zero => cases h
  | succ levels ih =>
  cases ho : e.isOpen with
  | false =>
    rcases s.role_of_closed ho with ⟨value, ty, rfl⟩ | ⟨ty, rfl⟩ | hrole
    · simp only [lower, role] at h ⊢
      obtain ⟨text, hl, heq⟩ := literal_of_isRepresentable h
      rw [heq]
      exact .constant hl
    · exact .source
    · rw [lower, hrole] at h ⊢
      cases hf : s.fold levels e with
      | error cause => simp [hf] at h
      | ok value =>
        simp only [hf] at h ⊢
        obtain ⟨text, hl, heq⟩ := literal_of_isRepresentable h
        rw [heq]
        exact .folded ho hf hl
  | true =>
    cases e with
    | constant value ty => cases ho
    | staticMember declaring name ty => cases ho
    | source ty => cases ho
    | lambda ps body => cases h
    | parameter p =>
      by_cases hp : p.name = s.parameter.name
      · simp only [lower, role, hp, ↓reduceIte] at h ⊢
        exact .parameter hp
      · simp [lower, role, hp] at h
    | member target declaring name ty => exact lowers_member ih ho h
    | binary op left right ty => exact lowers_binary ih ho h
    | call target method args ty => exact lowers_call ih ho h
    | staticCall method args ty => exact lowers_staticCall ih ho h
    | index target args ty => exact lowers_index ih ho h
    | construct ty args members =>
      rw [lower, role, ifOpen, if_pos ho] at h
      cases hp : s.isProjection ty <;> simp [hp] at h
    | conditional test ifTrue ifFalse ty =>
      rw [lower, role, ifOpen, if_pos ho] at h
      cases h
    | list ty elements =>
      rw [lower, role, ifOpen, if_pos ho] at h ⊢
      have hjoin := joined_of_isRepresentable h
      simp only [hjoin, Query.isRepresentable, Query.allRepresentable_iff] at h ⊢
      exact .list ho (by simp) (lowers_all ih h)
    | unary op operand ty =>
      cases op with
      | convert =>
        rw [lower, role, ifOpen, if_pos ho] at h ⊢
        exact .convert ho (ih h)
      | not =>
        rw [lower, role, ifOpen, if_pos ho] at h ⊢
        have hjoin := joined_of_isRepresentable h
        simp only [hjoin, Query.isRepresentable] at h ⊢
        exact .not ho (ih h)
      | negate =>
        rw [lower, role, ifOpen, if_pos ho] at h ⊢
        have hjoin := joined_of_isRepresentable h
        simp only [hjoin, Query.isRepresentable] at h ⊢
        exact .negate ho (ih h)

end ResourceQuery.Scope
