import ResourceQuery.Proofs.ChainRun
import ResourceQuery.Proofs.Correspondence

/-! # Trees that differ in their markers only

Markers quote the expression they stand for, so two ways to write one body give trees that differ in
these texts. Resemblance leaves them out of account. Corresponding nodes are lowered to trees that
resemble each other, and of these both are representable, and then equal, or neither is.
-/
namespace ResourceQuery

namespace Entries
variable {α β : Type} {R : α → β → Prop}

theorem forall₂_put {es : Entries α} {fs : Entries β} {a : α} {b : β}
    (h : List.Forall₂ (fun p q => p.1 = q.1 ∧ R p.2 q.2) es fs) (hab : R a b) (key : String) :
    List.Forall₂ (fun p q => p.1 = q.1 ∧ R p.2 q.2) (put key a es) (put key b fs) := by
  induction h with
  | nil => exact .cons ⟨rfl, hab⟩ .nil
  | @cons p q es fs hpq hrest ih =>
    obtain ⟨k, v⟩ := p
    obtain ⟨l, w⟩ := q
    obtain ⟨rfl, hvw⟩ := hpq
    rw [put, put]
    split
    · exact .cons ⟨rfl, hab⟩ hrest
    · exact .cons ⟨rfl, hvw⟩ ih

/-- Related values that are entered under the same keys are related entry by entry. -/
theorem forall₂_values_ofPairs {as : List α} {bs : List β} (h : List.Forall₂ R as bs)
    (keys : List String) :
    List.Forall₂ R (values (ofPairs (keys.zip as))) (values (ofPairs (keys.zip bs))) := by
  have hfold (es : Entries α) (fs : Entries β)
      (hes : List.Forall₂ (fun p q => p.1 = q.1 ∧ R p.2 q.2) es fs) :
      List.Forall₂ (fun p q => p.1 = q.1 ∧ R p.2 q.2)
        ((keys.zip as).foldl (fun es pair => put pair.1 pair.2 es) es)
        ((keys.zip bs).foldl (fun fs pair => put pair.1 pair.2 fs) fs) := by
    induction h generalizing keys es fs with
    | nil => simpa using hes
    | cons hab _ ih =>
      cases keys with
      | nil => exact hes
      | cons key keys => exact ih keys _ _ (forall₂_put hes hab key)
  rw [values, values, List.forall₂_map_left_iff, List.forall₂_map_right_iff]
  exact (hfold [] [] .nil).imp fun _ _ hpq => hpq.2

end Entries

namespace Query

/-- The trees are equal but for their markers, which may differ in text and have types that `T`
relates. Their causes are of the same code. -/
inductive Resembles (T : Ty → Ty → Prop) : Query → Query → Prop
  | refl (q : Query) : Resembles T q q
  | marker {text text' : String} {cause cause' : Option Cause} {nested nested' : List Query} {ty ty' : Ty}
    (hcause : cause'.map Cause.code = cause.map Cause.code) (hty : T ty ty')
    (hlen : nested.length = nested'.length)
    (h : ∀ {a b}, (a, b) ∈ nested.zip nested' → Resembles T a b) :
    Resembles T (.unsupported text cause nested ty) (.unsupported text' cause' nested' ty')
  | selector {q t : Query} (h : Resembles T q t) : Resembles T (.selector q) (.selector t)
  | selectMany {q t : Query} (base : Query) (h : Resembles T q t) :
    Resembles T (.selectMany base q q.ty) (.selectMany base t t.ty)

namespace Resembles
variable {T : Ty → Ty → Prop} {q t : Query}

theorem isUnsupported_eq (h : q.Resembles T t) : t.isUnsupported = q.isUnsupported := by
  cases h <;> rfl

theorem isRepresentable_eq (h : q.Resembles T t) : t.isRepresentable = q.isRepresentable := by
  induction h with
  | refl | marker => rfl
  | selector _ ih => exact ih
  | selectMany base _ ih => rw [isRepresentable, isRepresentable, ih]

theorem eq_of_isRepresentable (h : q.Resembles T t) (hq : q.isRepresentable = true) : t = q := by
  induction h with
  | refl => rfl
  | marker => cases hq
  | selector _ ih => rw [ih hq]
  | selectMany base _ ih => rw [ih (Bool.and_eq_true_iff.mp hq).2]

theorem print_eq (h : q.Resembles T t) (hq : q.isRepresentable = true) : t.print = q.print := by
  rw [h.eq_of_isRepresentable hq]

theorem any_isUnsupported_eq {qs ts : List Query} (h : List.Forall₂ (Resembles T) qs ts) :
    ts.any isUnsupported = qs.any isUnsupported := by
  induction h with
  | nil => rfl
  | cons hq _ ih => rw [List.any_cons, List.any_cons, hq.isUnsupported_eq, ih]

theorem list_eq {qs ts : List Query} (h : List.Forall₂ (Resembles T) qs ts)
    (hqs : ∀ q ∈ qs, q.isRepresentable = true) : ts = qs := by
  induction h with
  | nil => rfl
  | cons hq _ ih => rw [hq.eq_of_isRepresentable (hqs _ (.head _)), ih fun q hq => hqs q (.tail _ hq)]

section
variable {e e' : Expr} (hty : T e.ty e'.ty)
include hty

theorem refused {cause cause' : Option Cause} (h : cause'.map Cause.code = cause.map Cause.code) :
    (refused e cause).Resembles T (refused e' cause') :=
  .marker h hty rfl nofun

theorem propagated {qs ts : List Query} (h : List.Forall₂ (Resembles T) qs ts) :
    (propagated e qs).Resembles T (propagated e' ts) :=
  .marker rfl hty h.length_eq (List.forall₂_iff_zip.mp h).2

end
end Resembles
end Query

namespace Scope
open Query
variable {T : Ty → Ty → Prop} {s t : Scope} {n m : Nat} {e e' : Expr}

theorem resembles_literal (hty : T e.ty e'.ty) (heq : e'.ty = e.ty) (v : Value) :
    (literal e v).Resembles T (literal e' v) := by
  unfold literal
  split
  · rw [heq]
    exact .refl _
  · exact .refused hty rfl

theorem resembles_extendPath (hty : T e.ty e'.ty) (heq : e'.ty = e.ty) (name : String) {q u : Query}
    (h : q.Resembles T u) : (extendPath e name q).Resembles T (extendPath e' name u) := by
  cases h with
  | refl =>
    unfold extendPath
    split
    · rw [heq]
      exact .refl _
    · exact .propagated hty (.cons (.refl _) .nil)
    · exact .refused hty rfl
  | marker hcause hmarker hlen h =>
    exact .propagated hty (.cons (.marker hcause hmarker hlen h) .nil)
  | selector | selectMany => exact .refused hty rfl

theorem resembles_extendEntry (hty : T e.ty e'.ty) (heq : e'.ty = e.ty) (key : String) {q u : Query}
    (h : q.Resembles T u) : (extendEntry e key q).Resembles T (extendEntry e' key u) := by
  by_cases hroot : ∃ ty, q = .member [] ty
  · obtain ⟨ty, rfl⟩ := hroot
    cases h
    exact .refused hty rfl
  · have hq : extendEntry e key q = extendPath e key q := by
      unfold extendEntry
      split
      · exact absurd ⟨_, rfl⟩ hroot
      · rfl
    have hu : extendEntry e' key u = extendPath e' key u := by
      unfold extendEntry
      split
      · cases h
        exact absurd ⟨_, rfl⟩ hroot
      · rfl
    rw [hq, hu]
    exact resembles_extendPath hty heq key h

section
variable {as bs : List Expr}
  (h : List.Forall₂ (fun a b => (s.lower n a).Resembles T (t.lower m b)) as bs)
include h

theorem resembles_map_lower : List.Forall₂ (Resembles T) (as.map (s.lower n)) (bs.map (t.lower m)) := by
  rw [List.forall₂_map_left_iff, List.forall₂_map_right_iff]
  exact h

theorem map_lower_eq (hany : (as.map (s.lower n)).any isUnsupported = false) :
    bs.map (t.lower m) = as.map (s.lower n) := by
  refine Resembles.list_eq (resembles_map_lower h) fun q hq => ?_
  obtain ⟨a, ha, rfl⟩ := List.mem_map.mp hq
  exact isRepresentable_of_map_lower hany ha

/-- Nodes that join parts in one way resemble each other if the parts do. -/
theorem resembles_joined (hty : T e.ty e'.ty) {node node' : Query}
    (hnode : bs.map (t.lower m) = as.map (s.lower n) → node' = node) :
    (joined e (as.map (s.lower n)) node).Resembles T (joined e' (bs.map (t.lower m)) node') := by
  have hmap := resembles_map_lower h
  unfold joined
  rw [Resembles.any_isUnsupported_eq hmap]
  split
  · exact .propagated hty hmap
  · rename_i hany
    rw [hnode (map_lower_eq h (Bool.eq_false_iff.mpr hany))]
    exact .refl _

end

/-- Nodes of corresponding roles are lowered to trees that resemble each other if their parts are. -/
theorem resembles_lower {R : Expr → Expr → Prop} (hmapping : t.mapping = s.mapping)
    (hrole : (s.role e).Rel R (t.role e')) (hty : T e.ty e'.ty)
    (heq : (∀ cause, s.role e ≠ .unsupported cause) → e'.ty = e.ty)
    (hfold : s.role e = .folded → e' = e ∧ t.fold m e = s.fold n e)
    (hkey : ∀ target key, s.role e = .entry target key → t.entryKey m key = s.entryKey n key)
    (hparts : ∀ a b, R a b → a ∈ s.visited n (s.role e) → b ∈ t.visited m (t.role e') →
      (s.lower n a).Resembles T (t.lower m b)) :
    (s.lower (n + 1) e).Resembles T (t.lower (m + 1) e') := by
  have hcalled {signature : Signature} {receiver : Option Expr} {args : List Expr}
      (hfunction : s.role e = .function signature receiver args) (parts : List Query) :
      called e' signature (receiver.map (s.lower n)) parts = called e signature (receiver.map (s.lower n)) parts := by
    rw [called_of_role hfunction, called_of_role hfunction, heq (by simp [hfunction])]
  rw [lower, lower]
  generalize s.role e = r at hrole heq hfold hkey hparts hcalled ⊢
  generalize t.role e' = r' at hrole hparts ⊢
  have hall {as bs : List Expr} (h : List.Forall₂ R as bs) (has : ∀ a ∈ as, a ∈ s.visited n r)
      (hbs : ∀ b ∈ bs, b ∈ t.visited m r') :
      List.Forall₂ (fun a b => (s.lower n a).Resembles T (t.lower m b)) as bs := by
    rw [List.forall₂_iff_zip] at h ⊢
    refine ⟨h.1, fun {a b} hab => ?_⟩
    obtain ⟨ha, hb⟩ := List.of_mem_zip hab
    exact hparts a b (h.2 hab) (has a ha) (hbs b hb)
  cases hrole with
  | constant value => exact resembles_literal hty (heq (by simp)) value
  | folded =>
    obtain ⟨rfl, hf⟩ := hfold rfl
    rw [hf]
    exact .refl _
  | source => exact .refl _
  | parameter =>
    rw [heq (by simp)]
    exact .refl _
  | path h declaring name =>
    rw [hmapping]
    exact resembles_extendPath hty (heq (by simp)) _ (hparts _ _ h (.head _) (.head _))
  | @entry a b h key =>
    have hk := hkey _ _ rfl
    cases hn : s.entryKey n key with
    | error cause =>
      simp only [hk, hn]
      exact .refused hty rfl
    | ok k =>
      have ha : a ∈ s.visited n (.entry a key) := by simp [visited, hn, Except.isOk, Except.toBool]
      have hb : b ∈ t.visited m (.entry b key) := by simp [visited, hk, hn, Except.isOk, Except.toBool]
      simp only [hk, hn]
      exact resembles_extendEntry hty (heq (by simp)) k (hparts a b h ha hb)
  | comparison op hl hr | logical op hl hr =>
    refine resembles_joined (hall (.cons hl (.cons hr .nil)) (fun _ h => h) fun _ h => h) hty fun h => ?_
    obtain ⟨hl, hr⟩ := List.cons.inj h
    rw [hl, List.singleton_inj.mp hr]
  | arithmetic op hl hr | concat hl hr =>
    refine resembles_joined (hall (.cons hl (.cons hr .nil)) (fun _ h => h) fun _ h => h) hty fun h => ?_
    obtain ⟨hl, hr⟩ := List.cons.inj h
    rw [hl, List.singleton_inj.mp hr, heq (by simp)]
  | not h | negate h | hasValue h =>
    refine resembles_joined (hall (.cons h .nil) (fun _ h => h) fun _ h => h) hty fun h => ?_
    rw [List.singleton_inj.mp h]
  | conversion h => exact hparts _ _ h (.head _) (.head _)
  | method signature h hargs =>
    refine resembles_joined (hall (.cons h hargs) (fun _ h => h) fun _ h => h) hty fun h => ?_
    obtain ⟨hreceiver, hargs⟩ := List.cons.inj h
    rw [Option.map_some, hreceiver, hargs]
    exact hcalled rfl _
  | staticMethod signature hargs =>
    refine resembles_joined (hall hargs (fun _ h => h) fun _ h => h) hty fun h => ?_
    rw [h]
    exact hcalled rfl _
  | record => exact .refused hty rfl
  | list h =>
    refine resembles_joined (hall h (fun _ h => h) fun _ h => h) hty fun h => ?_
    rw [h, heq (by simp)]
  | unsupported hcause => exact .refused hty hcause

/-! ## Roots -/

/-- The parts of a selection at the root of a body, which are lowered each on its own. -/
def selected? (s : Scope) (form : Form) (body : Expr) : Option (List Expr) :=
  match body.unconverted with
  | .construct ty args _ => if s.isProjection ty then some args else none
  | .list _ elements => if form = .sequence then none else some elements
  | _ => none

theorem isProjection_congr (h : t.mapping = s.mapping) (ty : Ty) :
    t.isProjection ty = s.isProjection ty := by
  rw [isProjection, isProjection, h]

section
variable {form : Form} {body body' : Expr} {es parts : List Expr}

theorem lowerBody_of_selected?_eq_none (h : s.selected? form body = none) :
    s.lowerBody form body = s.lowerValue form body := by
  unfold selected? at h
  unfold lowerBody
  split <;> simp_all

theorem selected?_eq_some (h : s.selected? form body = some parts) :
    (∃ ty members, body.unconverted = .construct ty parts members ∧ s.isProjection ty = true) ∨
    ∃ ty, body.unconverted = .list ty parts ∧ form ≠ .sequence := by
  unfold selected? at h
  split at h
  · rename_i ty args members hu
    split at h
    · cases h
      exact .inl ⟨ty, members, hu, ‹_›⟩
    · cases h
  · rename_i ty elements hu
    split at h
    · cases h
    · cases h
      exact .inr ⟨ty, hu, ‹_›⟩
  · cases h

theorem children_of_selected?_eq_some (h : s.selected? form body = some parts) :
    body.unconverted.children = parts := by
  rcases selected?_eq_some h with ⟨ty, members, hbody, -⟩ | ⟨ty, hbody, -⟩ <;> rw [hbody] <;> rfl

/-- Bodies of one head are selections alike, each of its own parts. -/
theorem selected?_withChildren (hmapping : t.mapping = s.mapping)
    (hu : body'.unconverted = body.unconverted.withChildren es) :
    t.selected? form body' = (s.selected? form body).map fun _ => es := by
  cases h : s.selected? form body with
  | some parts =>
    rcases selected?_eq_some h with ⟨ty, members, hbody, hp⟩ | ⟨ty, hbody, hform⟩
    · rw [← isProjection_congr hmapping] at hp
      simp [selected?, hu, hbody, Expr.withChildren, hp]
    · simp [selected?, hu, hbody, Expr.withChildren, hform]
  | none =>
    cases h' : t.selected? form body' with
    | none => rfl
    | some parts =>
      rcases selected?_eq_some h' with ⟨ty, members, hbody', hp⟩ | ⟨ty, hbody', hform⟩
      · rw [hu] at hbody'
        obtain ⟨own, hbody⟩ := Expr.construct_of_withChildren hbody'
        rw [isProjection_congr hmapping] at hp
        simp [selected?, hbody, hp] at h
      · rw [hu] at hbody'
        obtain ⟨own, hbody⟩ := Expr.list_of_withChildren hbody'
        simp [selected?, hbody, hform] at h

end

theorem resembles_lowerValue (hoptions : t.options = s.options)
    (hparameter : t.parameter.ty = s.parameter.ty) (form : Form) {body body' : Expr}
    (h : (s.lower (s.options.maxDepth + 1) body).Resembles T
      (t.lower (s.options.maxDepth + 1) body')) :
    (s.lowerValue form body).Resembles T (t.lowerValue form body') := by
  unfold lowerValue
  rw [hoptions, hparameter]
  cases form with
  | predicate | value => exact h
  | selector => exact .selector h
  | sequence => exact .selectMany _ h

section
variable {body body' : Expr} {args args' : List Expr}
  (hmapping : t.mapping = s.mapping) (hty : T body.ty body'.ty)
  (h : List.Forall₂ (fun a b => (s.lower n a).Resembles T (t.lower n b)) args args')
include hmapping hty h

theorem resembles_project (hn : s.options.maxDepth = n) (hm : t.options.maxDepth = n) (ty : Ty)
    (members : Option (List String)) :
    (s.project body ty args members).Resembles T (t.project body' ty args' members) := by
  have hvalues := resembles_map_lower h
  have hnames : t.fieldNames ty args'.length members = s.fieldNames ty args.length members := by
    rw [fieldNames, fieldNames, hmapping, h.length_eq]
  unfold project
  simp only [hn, hm, hnames, Resembles.any_isUnsupported_eq hvalues]
  split
  · exact .propagated hty (Entries.forall₂_values_ofPairs hvalues _)
  · rename_i hany
    rw [map_lower_eq h (Bool.eq_false_iff.mpr hany)]
    exact .refl _

end

/-- Bodies are lowered to trees that resemble each other if both are selections of one head, and the
parts are lowered to such trees, or if neither is a selection, and the bodies are. -/
theorem resembles_lowerBody (hmapping : t.mapping = s.mapping) (hoptions : t.options = s.options)
    (hparameter : t.parameter.ty = s.parameter.ty) {form : Form} {body body' : Expr}
    (hty : T body.ty body'.ty)
    (hselection : ∀ parts, s.selected? form body = some parts →
      ∃ es, body'.unconverted = body.unconverted.withChildren es ∧ List.Forall₂ (fun a b =>
        (s.lower s.options.maxDepth a).Resembles T (t.lower s.options.maxDepth b)) parts es)
    (hvalue : s.selected? form body = none → t.selected? form body' = none ∧
      (s.lower (s.options.maxDepth + 1) body).Resembles T (t.lower (s.options.maxDepth + 1) body')) :
    (s.lowerBody form body).Resembles T (t.lowerBody form body') := by
  cases hsel : s.selected? form body with
  | none =>
    obtain ⟨hsel', hlower⟩ := hvalue hsel
    rw [lowerBody_of_selected?_eq_none hsel, lowerBody_of_selected?_eq_none hsel']
    exact resembles_lowerValue hoptions hparameter form hlower
  | some parts =>
    obtain ⟨es, hu, hparts⟩ := hselection parts hsel
    rcases selected?_eq_some hsel with ⟨ty, members, hbody, hp⟩ | ⟨ty, hbody, hform⟩
    · rw [hbody] at hu
      have hp' : t.isProjection ty = true := (isProjection_congr hmapping ty).trans hp
      simp only [lowerBody, hbody, hu, Expr.withChildren, hp, hp', ↓reduceIte]
      exact resembles_project hmapping hty hparts rfl (by rw [hoptions]) ty members
    · rw [hbody] at hu
      simp only [lowerBody, hbody, hu, Expr.withChildren, hform, ↓reduceIte, hoptions]
      exact resembles_joined hparts hty fun heq => by rw [heq]

end Scope

namespace Compiler
variable {c : Compiler} {form : Form} {expected : Option Ty}

/-- Lowering refuses a lambda only for the types of its body and its parameter. -/
theorem isOk_lower_lambda_iff {x : Parameter} {body : Expr} :
    (c.lower form expected (.lambda [x] body)).isOk = true ↔
      (form = .predicate → body.ty.isBoolean = true) ∧ ∀ ty, expected = some ty → ty = x.ty := by
  constructor
  · intro h
    cases hq : c.lower form expected (.lambda [x] body) with
    | error error =>
      rw [hq] at h
      cases h
    | ok q =>
      obtain ⟨l, hl, -⟩ := lower_eq_ok_iff.mp hq
      obtain ⟨hlambda, hvalid⟩ := validated_eq_ok_iff.mp hl
      cases hlambda
      exact hvalid
  · intro h
    have hl : validated form expected (.lambda [x] body) = .ok ⟨x, body⟩ :=
      validated_eq_ok_iff.mpr ⟨rfl, h⟩
    rw [lower_eq_ok_iff.mpr ⟨_, hl, rfl⟩]
    rfl

theorem isOk_lower_lambda_congr {x y : Parameter} {body body' : Expr} (hx : y.ty = x.ty)
    (hbody : body'.ty.underlying = body.ty.underlying) :
    (c.lower form expected (.lambda [y] body')).isOk = (c.lower form expected (.lambda [x] body)).isOk := by
  rw [Bool.eq_iff_iff, isOk_lower_lambda_iff, isOk_lower_lambda_iff, Ty.isBoolean_congr hbody, hx]

end Compiler
end ResourceQuery
