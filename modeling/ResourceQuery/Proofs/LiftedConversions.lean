import ResourceQuery.Proofs.Critters
import ResourceQuery.Proofs.Levels
import ResourceQuery.Proofs.Resemblance

/-! # Conversions that change nullability only

A host puts such conversions around operands wherever it mixes a type with the nullable one. They are
not seen in what a lambda is lowered to, wherever in its body they stand and however many they are.
-/
namespace ResourceQuery

namespace Expr
variable {e e' : Expr}

/-- The second expression is the first with conversions around open parts of it, each of which leaves
the type of its operand as it is but for nullability. -/
inductive Lifts : Expr → Expr → Prop
  | node {e : Expr} {es : List Expr} (hlen : e.children.length = es.length)
    (h : ∀ {a b}, (a, b) ∈ e.children.zip es → Lifts a b) : Lifts e (e.withChildren es)
  | convert {e e' : Expr} {ty : Ty} (ho : e.isOpen = true) (hty : ty.underlying = e.ty.underlying)
    (h : Lifts e e') : Lifts e (.unary .convert e' ty)

namespace Lifts

theorem of_children {es : List Expr} (h : List.Forall₂ Lifts e.children es) :
    Lifts e (e.withChildren es) :=
  .node h.length_eq (List.forall₂_iff_zip.mp h).2

theorem refl (e : Expr) : Lifts e e := by
  induction e using inductionOn with
  | node e ih =>
    have h := of_children (List.forall₂_same.mpr ih)
    rwa [withChildren_children] at h

theorem binary {l l' r r' : Expr} (op : BinaryOp) (ty : Ty) (hl : Lifts l l') (hr : Lifts r r') :
    Lifts (.binary op l r ty) (.binary op l' r' ty) := by
  have h : List.Forall₂ Lifts (Expr.binary op l r ty).children [l', r'] := .cons hl (.cons hr .nil)
  exact of_children h

theorem index {target target' : Expr} (args : List Expr) (ty : Ty) (ht : Lifts target target') :
    Lifts (.index target args ty) (.index target' args ty) := by
  have h : List.Forall₂ Lifts (Expr.index target args ty).children (target' :: args) :=
    .cons ht (List.forall₂_same.mpr fun arg _ => refl arg)
  exact of_children h

theorem akin (h : Lifts e e') : Akin e e' := by
  induction h with
  | node hlen _ ih => exact .withChildren (List.forall₂_iff_zip.mpr ⟨hlen, ih⟩)
  | convert ho hty _ ih =>
    refine ⟨ih.isOpen, hty, fun hclosed => ?_⟩
    rw [ho] at hclosed
    cases hclosed

/-- Without the conversions around them both expressions have the same head. -/
theorem unconverted (h : Lifts e e') :
    ∃ es, e'.unconverted = e.unconverted.withChildren es ∧
      List.Forall₂ Lifts e.unconverted.children es := by
  induction h with
  | convert _ _ _ ih => exact ih
  | @node e es hlen h ih =>
    have hall : List.Forall₂ Lifts e.children es := List.forall₂_iff_zip.mpr ⟨hlen, h⟩
    by_cases hconvert : ∃ operand ty, e = .unary .convert operand ty
    · obtain ⟨operand, ty, rfl⟩ := hconvert
      obtain ⟨b, bs, -, hbs, rfl⟩ := List.forall₂_cons_left_iff.mp hall
      cases hbs
      exact ih (a := operand) (b := b) (.head _)
    · have hne : ∀ operand ty, e ≠ .unary .convert operand ty := fun o ty he => hconvert ⟨o, ty, he⟩
      rw [unconverted_of_ne hne, unconverted_withChildren hne]
      exact ⟨es, rfl, hall⟩

end Lifts

theorem demand_lt_of_operand {c : Expr} (hc : c ∈ e.operands) : c.demand < e.demand := by
  cases ho : e.isOpen with
  | true => exact ((demand_le_iff ho).mp (Nat.le_refl _)).1 c hc
  | false =>
    have hheight := height_le_iff.mp (Nat.le_refl e.height) c (mem_children_iff.mpr (.inl hc))
    have hdemand := c.demand_le_height
    rw [demand_of_closed ho, foldDemand, if_neg (by omega)]
    omega

theorem demand_unconverted_le (e : Expr) : e.unconverted.demand ≤ e.demand := by
  induction e using inductionOn with
  | node e ih =>
    by_cases hconvert : ∃ operand ty, e = .unary .convert operand ty
    · obtain ⟨operand, ty, rfl⟩ := hconvert
      exact Nat.le_trans (ih operand (.head _)) (Nat.le_of_lt (demand_lt_of_operand (.head _)))
    · have hself := unconverted_of_ne fun o ty he => hconvert ⟨o, ty, he⟩
      exact Nat.le_of_eq (congrArg demand hself)

end Expr

namespace Scope
open Query
variable {s : Scope} {n m : Nat} {e e' part : Expr}

/-- If no limit is reported for a node, then none was hit in the parts that are lowered for it. -/
theorem isWithinLimit_visited (h : (s.lower (n + 1) e).IsWithinLimit)
    (hp : part ∈ s.visited n (s.role e)) : (s.lower n part).IsWithinLimit := by
  cases hc : (s.role e).isComposite with
  | true =>
    rcases lower_of_isComposite hc n with ⟨operand, hrole, heq⟩ | ⟨node, heq, -, -⟩
    · rw [hrole] at hp
      rw [List.mem_singleton.mp hp, ← heq]
      exact h
    · rw [heq] at h
      refine isWithinLimit_of_joined (fun q hq => ?_) h _ (List.mem_map_of_mem hp)
      obtain ⟨a, -, rfl⟩ := List.mem_map.mp hq
      exact s.inner_lower n a
  | false =>
    cases hrole : s.role e with
    | path target declaring name =>
      rw [hrole] at hp
      rw [lower, hrole] at h
      rw [List.mem_singleton.mp hp]
      exact isWithinLimit_of_extendPath (s.inner_lower n target) h
    | entry target key =>
      cases hk : s.entryKey n key with
      | error cause => simp [hrole, visited, hk, Except.isOk, Except.toBool] at hp
      | ok k =>
        rw [visited_of_entry hrole hk] at hp
        simp only [lower, hrole, hk] at h
        rw [List.mem_singleton.mp hp]
        exact isWithinLimit_of_extendEntry (s.inner_lower n target) h
    | constant | folded | source | parameter | record | unsupported =>
      rw [hrole] at hp
      cases hp
    | _ =>
      rw [hrole] at hc
      cases hc

theorem fold_ne_of_isWithinLimit (hrole : s.role e = .folded)
    (h : (s.lower (n + 1) e).IsWithinLimit) : s.fold n e ≠ .error (.tooDeep s.options.maxDepth) := by
  intro hf
  simp only [lower, hrole, hf] at h
  exact not_isWithinLimit_tooDeep e _ h

theorem entryKey_ne_of_isWithinLimit {target key : Expr} (hrole : s.role e = .entry target key)
    (h : (s.lower (n + 1) e).IsWithinLimit) :
    s.entryKey n key ≠ .error (.tooDeep s.options.maxDepth) := by
  intro hk
  simp only [lower, hrole, hk] at h
  exact not_isWithinLimit_tooDeep e _ h

/-- Budgets that suffice for folding give the same result. -/
theorem fold_eq_of_ne (hn : s.fold n e ≠ .error (.tooDeep s.options.maxDepth))
    (hm : s.fold m e ≠ .error (.tooDeep s.options.maxDepth)) : s.fold m e = s.fold n e := by
  rcases Nat.le_total n m with hle | hle
  · exact ((fold_refines hle).resolve_left hn).symm
  · exact (fold_refines hle).resolve_left hm

theorem entryKey_eq_of_ne (hn : s.entryKey n e ≠ .error (.tooDeep s.options.maxDepth))
    (hm : s.entryKey m e ≠ .error (.tooDeep s.options.maxDepth)) : s.entryKey m e = s.entryKey n e := by
  rcases Nat.le_total n m with hle | hle
  · exact ((entryKey_refines hle).resolve_left hn).symm
  · exact (entryKey_refines hle).resolve_left hm

theorem lower_convert (ho : e.isOpen = true) (ty : Ty) :
    s.lower (n + 1) (.unary .convert e ty) = s.lower n e := by
  have hrole : s.role (.unary .convert e ty) = .conversion e := if_pos ho
  rw [lower, hrole]

/-- The levels that are left may differ, as long as there are enough for both. -/
theorem resembles_lower_lifts (h : e.Lifts e') (hn : (s.lower n e).IsWithinLimit)
    (hm : (s.lower m e').IsWithinLimit) :
    (s.lower n e).Resembles (fun t u => u.underlying = t.underlying) (s.lower m e') := by
  induction h generalizing n m with
  | convert ho _ h ih =>
    cases m with
    | zero => exact absurd hm (not_isWithinLimit_tooDeep _ _)
    | succ m =>
      rw [lower_convert (h.akin.isOpen.trans ho)] at hm ⊢
      exact ih hn hm
  | @node e es hlen h ih =>
    have hakin : List.Forall₂ Expr.Akin e.children es :=
      List.forall₂_iff_zip.mpr ⟨hlen, fun hab => (h hab).akin⟩
    have hnode := Expr.Akin.withChildren hakin
    cases n with
    | zero => exact absurd hn (not_isWithinLimit_tooDeep _ _)
    | succ n =>
      cases m with
      | zero => exact absurd hm (not_isWithinLimit_tooDeep _ _)
      | succ m =>
        have hrole := s.rel_role hakin
        refine resembles_lower rfl hrole hnode.underlying (fun hsupported => ?_) (fun hfolded => ?_)
          (fun target key hentry => ?_) fun a b hab ha hb => ?_
        · refine Expr.ty_withChildren (fun ps body he => ?_) es
          exact hsupported none (by rw [he, role])
        · have heq := hnode.closed (isOpen_of_role_folded hfolded)
          rw [heq] at hm
          exact ⟨heq, fold_eq_of_ne (fold_ne_of_isWithinLimit hfolded hn)
            (fold_ne_of_isWithinLimit hfolded hm)⟩
        · obtain ⟨target', hentry'⟩ : ∃ target', s.role (e.withChildren es) = .entry target' key := by
            rw [hentry] at hrole
            generalize s.role (e.withChildren es) = r at hrole
            cases hrole
            exact ⟨_, rfl⟩
          exact entryKey_eq_of_ne (entryKey_ne_of_isWithinLimit hentry hn)
            (entryKey_ne_of_isWithinLimit hentry' hm)
        · exact ih hab (isWithinLimit_visited hn ha) (isWithinLimit_visited hm hb)

/-- The limit is not hit on the way: neither by the body nor, if it is a selection, by any part. -/
def LimitSuffices (s : Scope) (form : Form) (body : Expr) : Prop :=
  match s.selected? form body with
  | some parts => ∀ part ∈ parts, (s.lower s.options.maxDepth part).IsWithinLimit
  | none => (s.lower (s.options.maxDepth + 1) body).IsWithinLimit

theorem limitSuffices_of_demand_le {form : Form} {body : Expr} (h : body.demand ≤ s.options.maxDepth) :
    s.LimitSuffices form body := by
  unfold LimitSuffices
  split
  · rename_i parts hsel
    intro part hpart
    have hoperands : body.unconverted.operands = parts := by
      rcases selected?_eq_some hsel with ⟨ty, members, hbody, -⟩ | ⟨ty, hbody, -⟩ <;> rw [hbody] <;> rfl
    have hlt : part.demand < body.unconverted.demand := Expr.demand_lt_of_operand (hoperands ▸ hpart)
    have hle := body.demand_unconverted_le
    exact isWithinLimit_lower (by omega)
  · exact isWithinLimit_lower (Nat.lt_succ_of_le h)

theorem resembles_lowerBody_lifts {form : Form} {body lifted : Expr} (h : body.Lifts lifted)
    (hbody : s.LimitSuffices form body) (hlifted : s.LimitSuffices form lifted) :
    (s.lowerBody form body).Resembles (fun t u => u.underlying = t.underlying)
      (s.lowerBody form lifted) := by
  obtain ⟨es, hu, hes⟩ := h.unconverted
  have hselected : s.selected? form lifted = (s.selected? form body).map fun _ => es :=
    selected?_withChildren rfl hu
  refine resembles_lowerBody rfl rfl rfl h.akin.underlying (fun parts hsel => ?_) fun hsel => ?_
  · rw [children_of_selected?_eq_some hsel] at hes
    rw [LimitSuffices, hsel] at hbody
    rw [LimitSuffices, hselected, hsel] at hlifted
    refine ⟨es, hu, List.forall₂_iff_zip.mpr ⟨hes.length_eq, fun {a b} hab => ?_⟩⟩
    obtain ⟨ha, hb⟩ := List.of_mem_zip hab
    exact resembles_lower_lifts ((List.forall₂_iff_zip.mp hes).2 hab) (hbody a ha) (hlifted b hb)
  · rw [hsel] at hselected
    rw [LimitSuffices, hsel] at hbody
    rw [LimitSuffices, hselected] at hlifted
    exact ⟨hselected, resembles_lower_lifts h hbody hlifted⟩

end Scope

/-- A body and the body with nullability changed around its parts are lowered to the same tree, and so
to the same text, or both have no form in the grammar. As lambdas they are accepted or refused alike. -/
theorem Compiler.lower_lifts (c : Compiler) (form : Form) (expected : Option Ty) (x : Parameter)
    {body lifted : Expr} (h : body.Lifts lifted) (hbody : (c.scope x).LimitSuffices form body)
    (hlifted : (c.scope x).LimitSuffices form lifted) :
    let q := (c.scope x).lowerBody form body
    let t := (c.scope x).lowerBody form lifted
    (q.isRepresentable = true ∧ t = q ∧ t.print = q.print ∨
      q.isRepresentable = false ∧ t.isRepresentable = false) ∧
    (c.lower form expected (.lambda [x] lifted)).isOk = (c.lower form expected (.lambda [x] body)).isOk := by
  intro q t
  have hqt : q.Resembles _ t := Scope.resembles_lowerBody_lifts h hbody hlifted
  refine ⟨?_, isOk_lower_lambda_congr rfl h.akin.underlying⟩
  cases hq : q.isRepresentable with
  | true => exact .inl ⟨rfl, hqt.eq_of_isRepresentable hq, hqt.print_eq hq⟩
  | false => exact .inr ⟨rfl, hqt.isRepresentable_eq.trans hq⟩

/-! A dictionary, a text that another is appended to and a predicate, each made nullable. -/

namespace Expr

def asNullable (e : Expr) : Expr := .unary .convert e (.nullable e.ty)

theorem Lifts.asNullable {e e' : Expr} (ho : e.isOpen = true) (h : e.Lifts e') :
    e.Lifts e'.asNullable :=
  .convert ho h.akin.underlying h

namespace Lifting
open Critters

def marked (name : Expr) : Expr := .binary (.arithmetic .add) name (trait "Mark" .char) .string

def isMarked (coats name : Expr) : Expr := .binaryOf (.comparison .equal) (coat coats winter) (marked name)

theorem lifts_isMarked : (isMarked coats name).Lifts (isMarked coats.asNullable name.asNullable).asNullable := by
  have hcoat : (coat coats winter).Lifts (coat coats.asNullable winter) := .index _ _ (.asNullable rfl (.refl coats))
  have hmarked : (marked name).Lifts (marked name.asNullable) :=
    .binary _ _ (.asNullable rfl (.refl name)) (.refl _)
  exact .asNullable rfl (.binary _ _ hcoat hmarked)

end Lifting
end Expr

open Critters Expr.Lifting in
theorem Compiler.lower_lifts_critters :
    let q := critters.lowerBody .predicate (isMarked coats name)
    let t := critters.lowerBody .predicate (isMarked coats.asNullable name.asNullable).asNullable
    (q.isRepresentable = true ∧ t = q ∧ t.print = q.print) ∧
    q.print = .ok "Coats.winter eq concat(Name,Mark)" := by
  intro q t
  have h := (asDeclared.lower_lifts .predicate none x lifts_isMarked
    (Scope.limitSuffices_of_demand_le (by decide)) (Scope.limitSuffices_of_demand_le (by decide))).1
  exact ⟨h.resolve_right fun hr => absurd hr.1 (by decide), by rfl⟩

end ResourceQuery
