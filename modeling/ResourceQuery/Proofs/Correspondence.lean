import Mathlib.Data.List.Forall2
import ResourceQuery.Proofs.Visits

/-! # Nodes that correspond

A node sees of a child whether it is open, what its type is but for nullability, and, if the child is
closed, its value. If this is all the same for the children of two nodes of one head, then the nodes
have the same role, with the other children for its parts.
-/
namespace ResourceQuery

namespace Ty
variable {t u : Ty}

theorem isBoolean_congr (h : u.underlying = t.underlying) : u.isBoolean = t.isBoolean := by
  rw [isBoolean, isBoolean, h]

theorem isText_congr (h : u.underlying = t.underlying) : u.isText = t.isText := by
  rw [isText, isText, h]

theorem isInteger_congr (h : u.underlying = t.underlying) : u.isInteger = t.isInteger := by
  rw [isInteger, isInteger, h]

theorem isNumeric_congr (h : u.underlying = t.underlying) : u.isNumeric = t.isNumeric := by
  rw [isNumeric, isNumeric, isInteger_congr h, h]

end Ty

namespace Expr
variable {e : Expr} {es : List Expr}

/-- The node with other nodes right below it, if these are as many as its own. -/
def withChildren : Expr → List Expr → Expr
  | .lambda ps _, [body] => .lambda ps body
  | .member _ declaring name ty, [target] => .member target declaring name ty
  | .unary op _ ty, [operand] => .unary op operand ty
  | .binary op _ _ ty, [left, right] => .binary op left right ty
  | .call _ method _ ty, target :: args => .call target method args ty
  | .staticCall method _ ty, args => .staticCall method args ty
  | .index _ _ ty, target :: args => .index target args ty
  | .construct ty _ members, args => .construct ty args members
  | .list ty _, elements => .list ty elements
  | .conditional _ _ _ ty, [test, ifTrue, ifFalse] => .conditional test ifTrue ifFalse ty
  | e, _ => e

theorem withChildren_children (e : Expr) : e.withChildren e.children = e := by
  cases e <;> rfl

theorem substitute_eq_withChildren {σ : Parameter → Expr} (he : ∀ p, e ≠ .parameter p) :
    e.substitute σ = e.withChildren (e.children.map (substitute σ)) := by
  cases e with
  | parameter p => exact absurd rfl (he p)
  | _ => simp only [substitute, withChildren, children, substituteAll_eq_map, List.map_cons, List.map_nil]

theorem construct_of_withChildren {ty : Ty} {args : List Expr} {members : Option (List String)}
    (h : e.withChildren es = .construct ty args members) : ∃ own, e = .construct ty own members := by
  unfold withChildren at h
  split at h <;> simp_all

theorem list_of_withChildren {ty : Ty} {elements : List Expr} (h : e.withChildren es = .list ty elements) :
    ∃ own, e = .list ty own := by
  unfold withChildren at h
  split at h <;> simp_all

theorem unary_of_withChildren {op : UnaryOp} {operand : Expr} {ty : Ty}
    (h : e.withChildren es = .unary op operand ty) : ∃ own, e = .unary op own ty := by
  unfold withChildren at h
  split at h <;> simp_all

/-- What a parent sees of a node is the same of the other. -/
structure Akin (a b : Expr) : Prop where
  isOpen : b.isOpen = a.isOpen
  underlying : b.ty.underlying = a.ty.underlying
  closed : a.isOpen = false → b = a

theorem anyOpen_of_akin {as bs : List Expr} (h : List.Forall₂ Akin as bs) : anyOpen bs = anyOpen as := by
  induction h with
  | nil => rfl
  | cons hab _ ih => rw [anyOpen, anyOpen, hab.isOpen, ih]

theorem eq_of_akin {as bs : List Expr} (h : List.Forall₂ Akin as bs)
    (ho : ∀ a ∈ as, a.isOpen = false) : bs = as := by
  induction h with
  | nil => rfl
  | cons hab _ ih =>
    rw [hab.closed (ho _ (.head _)), ih fun a ha => ho a (.tail _ ha)]

theorem isOpen_withChildren (h : List.Forall₂ Akin e.children es) :
    (e.withChildren es).isOpen = e.isOpen := by
  cases e with
  | parameter | constant | staticMember | source => rfl
  | lambda =>
    obtain ⟨b, bs, -, hbs, rfl⟩ := List.forall₂_cons_left_iff.mp h
    cases hbs
    rfl
  | member | unary =>
    obtain ⟨b, bs, hb, hbs, rfl⟩ := List.forall₂_cons_left_iff.mp h
    cases hbs
    exact hb.isOpen
  | binary =>
    obtain ⟨l, ls, hl, hls, rfl⟩ := List.forall₂_cons_left_iff.mp h
    obtain ⟨r, rs, hr, hrs, rfl⟩ := List.forall₂_cons_left_iff.mp hls
    cases hrs
    simp only [withChildren, isOpen, hl.isOpen, hr.isOpen]
  | call | index =>
    obtain ⟨b, bs, hb, hbs, rfl⟩ := List.forall₂_cons_left_iff.mp h
    simp only [withChildren, isOpen, hb.isOpen, anyOpen_of_akin hbs]
  | staticCall | construct | list => exact anyOpen_of_akin h
  | conditional =>
    obtain ⟨a, as, ha, has, rfl⟩ := List.forall₂_cons_left_iff.mp h
    obtain ⟨b, bs, hb, hbs, rfl⟩ := List.forall₂_cons_left_iff.mp has
    obtain ⟨c, cs, hc, hcs, rfl⟩ := List.forall₂_cons_left_iff.mp hbs
    cases hcs
    simp only [withChildren, isOpen, ha.isOpen, hb.isOpen, hc.isOpen]

theorem ty_withChildren (he : ∀ ps body, e ≠ .lambda ps body) (es : List Expr) :
    (e.withChildren es).ty = e.ty := by
  unfold withChildren
  split
  case h_1 => exact absurd rfl (he _ _)
  all_goals rfl

theorem Akin.withChildren (h : List.Forall₂ Akin e.children es) : Akin e (e.withChildren es) := by
  refine ⟨isOpen_withChildren h, ?_, fun ho => ?_⟩
  · by_cases he : ∃ ps body, e = .lambda ps body
    · obtain ⟨ps, body, rfl⟩ := he
      obtain ⟨b, bs, hb, hbs, rfl⟩ := List.forall₂_cons_left_iff.mp h
      cases hbs
      exact hb.underlying
    · rw [ty_withChildren (fun ps body heq => he ⟨ps, body, heq⟩)]
  · have hclosed : ∀ c ∈ e.children, c.isOpen = false := by
      intro c hc
      refine Bool.eq_false_iff.mpr fun hopen => ?_
      rw [isOpen_of_child hc hopen] at ho
      cases ho
    rw [eq_of_akin h hclosed, withChildren_children]

theorem unconverted_of_ne (h : ∀ operand ty, e ≠ .unary .convert operand ty) : e.unconverted = e := by
  unfold unconverted
  split
  · exact absurd rfl (h _ _)
  · rfl

theorem unconverted_withChildren (h : ∀ operand ty, e ≠ .unary .convert operand ty) :
    (e.withChildren es).unconverted = e.withChildren es :=
  unconverted_of_ne fun _ ty heq =>
    let ⟨own, he⟩ := unary_of_withChildren heq
    h own ty he

theorem akin_substitute {σ : Parameter → Expr} (hσ : Parameter.Keeps σ) (e : Expr) :
    Akin e (e.substitute σ) :=
  ⟨isOpen_substitute hσ e, by rw [ty_substitute hσ e], substitute_of_closed σ e⟩

end Expr

/-! ## Overloads -/

theorem ArgKind.accepts_congr (kind : ArgKind) {t u : Ty} (h : u.underlying = t.underlying) :
    kind.accepts u = kind.accepts t := by
  cases kind with
  | text => exact Ty.isText_congr h
  | integer => exact Ty.isInteger_congr h
  | numeric => exact Ty.isNumeric_congr h

section
variable {tys tys' : List Ty} (h : List.Forall₂ (fun t u => u.underlying = t.underlying) tys tys')
include h

theorem Signature.accepts_congr (s : Signature) : s.accepts tys' = s.accepts tys := by
  have hzip (f : ArgKind × Ty → Bool) (hf : ∀ kind ty, f (kind, ty) = kind.accepts ty) (kinds : List ArgKind) :
      (kinds.zip tys').all f = (kinds.zip tys).all f := by
    induction h generalizing kinds with
    | nil => rfl
    | cons hty _ ih =>
      cases kinds with
      | nil => rfl
      | cons kind kinds =>
        simp only [List.zip_cons_cons, List.all_cons, hf, kind.accepts_congr hty, ih]
  rw [accepts, accepts, h.length_eq, hzip _ fun _ _ => rfl]

/-- The same overload is found, or none is for the same reason. -/
theorem lookup_congr (receiver : Receiver) (member : String) (access : Access) :
    (∃ s, lookup receiver member access tys = .found s ∧ lookup receiver member access tys' = .found s) ∨
    (∃ f d d', lookup receiver member access tys = .mismatch f d ∧
      lookup receiver member access tys' = .mismatch f d') ∨
    lookup receiver member access tys = .unknown ∧ lookup receiver member access tys' = .unknown := by
  have haccepts : (fun s : Signature => s.accepts tys') = fun s => s.accepts tys :=
    funext (Signature.accepts_congr h)
  unfold lookup
  rw [haccepts]
  split
  · exact .inr (.inr ⟨rfl, rfl⟩)
  · split
    · exact .inl ⟨_, rfl, rfl⟩
    · exact .inr (.inl ⟨_, _, _, rfl, rfl⟩)

end

/-! ## Roles -/

/-- The same role with related parts. A refusal is for a cause of the same code. -/
inductive Role.Rel (R : Expr → Expr → Prop) : Role → Role → Prop
  | constant (value : Value) : Rel R (.constant value) (.constant value)
  | folded : Rel R .folded .folded
  | source (ty : Ty) : Rel R (.source ty) (.source ty)
  | parameter : Rel R .parameter .parameter
  | path {a b : Expr} (h : R a b) (declaring : Ty) (name : String) :
    Rel R (.path a declaring name) (.path b declaring name)
  | entry {a b : Expr} (h : R a b) (key : Expr) : Rel R (.entry a key) (.entry b key)
  | comparison {l l' r r' : Expr} (op : ComparisonOp) (hl : R l l') (hr : R r r') :
    Rel R (.comparison op l r) (.comparison op l' r')
  | logical {l l' r r' : Expr} (op : LogicalOp) (hl : R l l') (hr : R r r') :
    Rel R (.logical op l r) (.logical op l' r')
  | arithmetic {l l' r r' : Expr} (op : ArithmeticOp) (hl : R l l') (hr : R r r') :
    Rel R (.arithmetic op l r) (.arithmetic op l' r')
  | concat {l l' r r' : Expr} (hl : R l l') (hr : R r r') : Rel R (.concat l r) (.concat l' r')
  | not {a b : Expr} (h : R a b) : Rel R (.not a) (.not b)
  | negate {a b : Expr} (h : R a b) : Rel R (.negate a) (.negate b)
  | conversion {a b : Expr} (h : R a b) : Rel R (.conversion a) (.conversion b)
  | hasValue {a b : Expr} (h : R a b) (declaring : Ty) :
    Rel R (.hasValue a declaring) (.hasValue b declaring)
  | method {a b : Expr} {as bs : List Expr} (signature : Signature) (h : R a b)
    (hargs : List.Forall₂ R as bs) :
    Rel R (.function signature (some a) as) (.function signature (some b) bs)
  | staticMethod {as bs : List Expr} (signature : Signature) (hargs : List.Forall₂ R as bs) :
    Rel R (.function signature none as) (.function signature none bs)
  | record : Rel R .record .record
  | list {as bs : List Expr} (h : List.Forall₂ R as bs) : Rel R (.list as) (.list bs)
  | unsupported {cause cause' : Option Cause} (h : cause'.map Cause.code = cause.map Cause.code) :
    Rel R (.unsupported cause) (.unsupported cause')

namespace Scope
variable {s : Scope} {R : Expr → Expr → Prop} {e : Expr} {es : List Expr}

theorem rel_memberRole {a b : Expr} (h : R a b) (declaring : Ty) (name : String) :
    (s.memberRole a declaring name).Rel R (s.memberRole b declaring name) := by
  unfold memberRole
  split
  · exact .conversion h
  · exact .hasValue h declaring
  · split
    · split
      · exact .method _ h .nil
      · exact .unsupported rfl
    · split
      · exact .unsupported rfl
      · split
        · exact .path h declaring name
        · exact .unsupported rfl

theorem rel_binaryRole {l l' r r' : Expr} (op : BinaryOp) (ty : Ty) (hl : R l l') (hr : R r r')
    (htext : l'.ty.isText = l.ty.isText) :
    (s.binaryRole op l r ty).Rel R (s.binaryRole op l' r' ty) := by
  unfold binaryRole
  rw [htext]
  split
  · exact .logical _ hl hr
  · split
    · exact .unsupported rfl
    · exact .comparison _ hl hr
  · split
    · exact .unsupported rfl
    · split
      · exact .concat hl hr
      · exact .arithmetic _ hl hr

theorem rel_callRole {target target' : Option Expr} {args args' : List Expr} (access : Access)
    (method : Method) (hargs : List.Forall₂ Expr.Akin args args')
    (hfound : ∀ signature, Role.Rel R (.function signature target args) (.function signature target' args')) :
    (callRole access method target args).Rel R (callRole access method target' args') := by
  have htys : List.Forall₂ (fun t u => u.underlying = t.underlying) (args.map Expr.ty)
      (args'.map Expr.ty) := by
    rw [List.forall₂_map_left_iff, List.forall₂_map_right_iff]
    exact hargs.imp fun _ _ h => h.underlying
  unfold callRole
  dsimp only
  split
  · exact .unsupported rfl
  · rename_i receiver _
    rcases lookup_congr htys receiver method.name access with ⟨f, h, h'⟩ | ⟨f, d, d', h, h'⟩ | ⟨h, h'⟩
    · rw [h, h']
      exact hfound f
    · rw [h, h']
      exact .unsupported rfl
    · rw [h, h']
      exact .unsupported rfl

theorem rel_indexRole {target target' : Expr} {args args' : List Expr} (h : R target target')
    (ht : Expr.Akin target target') (hargs : List.Forall₂ Expr.Akin args args') :
    (indexRole target args).Rel R (indexRole target' args') := by
  have hkeyed : isTextKeyed target'.ty = isTextKeyed target.ty := by
    rw [isTextKeyed, isTextKeyed, ht.underlying]
  cases hargs with
  | nil => exact .unsupported rfl
  | cons hkey hrest =>
    cases hrest with
    | cons => exact .unsupported rfl
    | nil =>
      simp only [indexRole, hkeyed, Ty.isText_congr hkey.underlying, hkey.isOpen]
      split
      · split
        · exact .unsupported rfl
        · rename_i hc
          -- A closed key is the same for both.
          rw [hkey.closed (Bool.eq_false_iff.mpr hc)]
          exact .entry h _
      · exact .unsupported rfl

theorem rel_ifOpen {e' : Expr} {r r' : Role} (ho : e'.isOpen = e.isOpen) (h : r.Rel R r') :
    (ifOpen e r).Rel R (ifOpen e' r') := by
  rw [ifOpen, ifOpen, ho]
  split
  · exact h
  · exact .folded

/-- Nodes of one head with children that look the same have the same role. -/
theorem rel_role (s : Scope) (h : List.Forall₂ Expr.Akin e.children es) :
    (s.role e).Rel (fun a b => (a, b) ∈ e.children.zip es) (s.role (e.withChildren es)) := by
  have hall : List.Forall₂ (fun a b => (a, b) ∈ e.children.zip es) e.children es :=
    List.forall₂_iff_zip.mpr ⟨h.length_eq, id⟩
  have ho := Expr.isOpen_withChildren h
  generalize (fun a b => (a, b) ∈ e.children.zip es) = R at hall ⊢
  cases e with
  | constant value ty => exact .constant value
  | source ty => exact .source ty
  | staticMember => exact .folded
  | lambda ps body =>
    obtain ⟨b, bs, -, hbs, rfl⟩ := List.forall₂_cons_left_iff.mp h
    cases hbs
    exact .unsupported rfl
  | parameter p =>
    simp only [Expr.withChildren, role]
    split
    · exact .parameter
    · exact .unsupported rfl
  | member target declaring name ty =>
    obtain ⟨b, bs, hb, hbs, rfl⟩ := List.forall₂_cons_left_iff.mp hall
    cases hbs
    exact rel_ifOpen ho (rel_memberRole hb declaring name)
  | unary op operand ty =>
    obtain ⟨b, bs, hb, hbs, rfl⟩ := List.forall₂_cons_left_iff.mp hall
    cases hbs
    cases op with
    | not => exact rel_ifOpen ho (.not hb)
    | negate => exact rel_ifOpen ho (.negate hb)
    | convert => exact rel_ifOpen ho (.conversion hb)
  | binary op left right ty =>
    obtain ⟨l, ls, hl, hls, rfl⟩ := List.forall₂_cons_left_iff.mp hall
    obtain ⟨r, rs, hr, hrs, rfl⟩ := List.forall₂_cons_left_iff.mp hls
    cases hrs
    have htext := Ty.isText_congr (List.forall₂_cons.mp h).1.underlying
    exact rel_ifOpen ho (rel_binaryRole op ty hl hr htext)
  | call target method args ty =>
    obtain ⟨b, bs, hb, hbs, rfl⟩ := List.forall₂_cons_left_iff.mp hall
    have hargs := (List.forall₂_cons.mp h).2
    exact rel_ifOpen ho (rel_callRole .method method hargs fun f => .method f hb hbs)
  | staticCall method args ty =>
    exact rel_ifOpen ho (rel_callRole .staticMethod method h fun f => .staticMethod f hall)
  | index target args ty =>
    obtain ⟨b, bs, hb, hbs, rfl⟩ := List.forall₂_cons_left_iff.mp hall
    obtain ⟨htarget, hargs⟩ := List.forall₂_cons.mp h
    exact rel_ifOpen ho (rel_indexRole hb htarget hargs)
  | construct ty args members =>
    refine rel_ifOpen ho ?_
    split
    · exact .record
    · exact .unsupported rfl
  | list ty elements => exact rel_ifOpen ho (.list hall)
  | conditional test ifTrue ifFalse ty =>
    obtain ⟨a, as, -, has, rfl⟩ := List.forall₂_cons_left_iff.mp h
    obtain ⟨b, bs, -, hbs, rfl⟩ := List.forall₂_cons_left_iff.mp has
    obtain ⟨c, cs, -, hcs, rfl⟩ := List.forall₂_cons_left_iff.mp hbs
    cases hcs
    exact rel_ifOpen ho (.unsupported rfl)

end Scope
end ResourceQuery
