import Mathlib.Data.List.Induction
import ResourceQuery.Proofs.ChainRun
import ResourceQuery.Proofs.Critters
import ResourceQuery.Proofs.NestingLimit

/-! # One filter after the other

Filters that are applied one after the other are printed as one conjunction, and so is a single
filter whose body is this conjunction. The trees differ where something is refused: a marker below
a conjunction of filters has supported parents, one in a body has not. Their markers are the same.
-/
namespace ResourceQuery

namespace Expr

/-- Whether an object or a list is made, conversions aside. -/
def isConstruction (e : Expr) : Bool :=
  match e.unconverted with
  | .construct .. | .list .. => true
  | _ => false

/-- A body that can be tested for each element. -/
structure IsTest (body : Expr) : Prop where
  boolean : body.ty.isBoolean = true
  notConstruction : body.isConstruction = false

instance (body : Expr) : Decidable body.IsTest :=
  decidable_of_iff (body.ty.isBoolean = true ∧ body.isConstruction = false)
    ⟨fun h => ⟨h.1, h.2⟩, fun h => ⟨h.1, h.2⟩⟩

def conjunction (first : Expr) (rest : List Expr) : Expr := rest.foldl (binaryOf (.logical .and)) first

/-- The elements of a source that are left by one filter after the other. -/
def wheres (x : Parameter) (bodies : List Expr) : Expr :=
  (source x.ty).querySteps (bodies.map fun body => ⟨"Where", [.lambda [x] body]⟩)

theorem conjunction_concat (first : Expr) (rest : List Expr) (last : Expr) :
    conjunction first (rest ++ [last]) = binaryOf (.logical .and) (conjunction first rest) last := by
  simp [conjunction]

theorem isOpen_conjunction {first : Expr} (h : first.isOpen = true) (rest : List Expr) :
    (conjunction first rest).isOpen = true := by
  induction rest using List.reverseRecOn with
  | nil => exact h
  | append_singleton rest last ih =>
    rw [conjunction_concat]
    simp [binaryOf, isOpen, ih]

theorem isTest_conjunction {first : Expr} (h : first.IsTest) (rest : List Expr) :
    (conjunction first rest).IsTest := by
  cases rest using List.reverseRecOn with
  | nil => exact h
  | append_singleton rest last =>
    rw [conjunction_concat]
    exact ⟨rfl, rfl⟩

end Expr

namespace Query

/-- The same markers, and the same tree where there are none. -/
structure Agrees (q t : Query) : Prop where
  markers : q.markers = t.markers
  tree : q.isRepresentable = true → q = t

theorem Agrees.refl (q : Query) : q.Agrees q := ⟨rfl, fun _ => rfl⟩

theorem Agrees.print_eq {q t : Query} (h : q.Agrees t) : q.print = t.print := by
  have herror : q.error? = t.error? := by rw [error?, error?, h.markers]
  cases hq : q.error? with
  | none => rw [h.tree (error?_eq_none.mp hq)]
  | some error => rw [print, print, ← herror, hq]

/-- A conjunction of trees agrees with the conjunction that is lowered as a whole. -/
theorem Agrees.joined {q l r : Query} {op : LogicalOp} (h : q.Agrees l) (e : Expr) :
    (logical op q r).Agrees (Scope.joined e [l, r] (logical op l r)) := by
  constructor
  · rw [markers_joined (by simp [Query.markers, markersOf])]
    simp [Query.markers, markersOf, h.markers]
  · intro hr
    obtain ⟨hq, hr⟩ : q.isRepresentable = true ∧ r.isRepresentable = true := by
      simpa [isRepresentable] using hr
    obtain rfl := h.tree hq
    simp [Scope.joined, isUnsupported_of_isRepresentable hq, isUnsupported_of_isRepresentable hr]

end Query

namespace Scope

theorem lower_and (s : Scope) (levels : Nat) {left : Expr} (h : left.isOpen = true) (right : Expr) :
    s.lower (levels + 1) (Expr.binaryOf (.logical .and) left right) =
      joined (Expr.binaryOf (.logical .and) left right) [s.lower levels left, s.lower levels right]
        (.logical .and (s.lower levels left) (s.lower levels right)) := by
  have hrole : s.role (Expr.binaryOf (.logical .and) left right) = .logical .and left right := by
    simp [role, Expr.binaryOf, ifOpen, Expr.isOpen, h, binaryRole]
  rw [lower, hrole]

/-- If the conjunction is lowered without hitting the limit, so is each of its parts, and with more
levels left. -/
theorem agrees_lower_conjunction (s : Scope) {first : Expr} (hopen : first.isOpen = true)
    (rest : List Expr) {n m : Nat} (hnm : n ≤ m)
    (h : (s.lower n (Expr.conjunction first rest)).IsWithinLimit) :
    ((rest.map (s.lower m)).foldl (Query.logical .and) (s.lower m first)).Agrees
      (s.lower n (Expr.conjunction first rest)) := by
  -- From the end: the last body and the conjunction of the others are lowered one level below.
  induction rest using List.reverseRecOn generalizing n with
  | nil =>
    rw [← lower_of_isWithinLimit hnm h]
    exact .refl _
  | append_singleton rest last ih =>
    cases n with
    | zero => exact absurd h (Query.not_isWithinLimit_tooDeep _ _)
    | succ n =>
      rw [Expr.conjunction_concat, s.lower_and n (Expr.isOpen_conjunction hopen rest)] at h ⊢
      have hinner : ∀ p ∈ [s.lower n (Expr.conjunction first rest), s.lower n last],
          p.Throughout Query.IsInner := by
        intro p hp
        rcases List.mem_pair.mp hp with rfl | rfl <;> exact s.inner_lower n _
      have hparts := isWithinLimit_of_joined hinner h
      have hrest := ih (by omega) (hparts _ (.head _))
      have hlast : s.lower m last = s.lower n last :=
        lower_of_isWithinLimit (by omega) (hparts _ (.tail _ (.head _)))
      rw [List.map_append, List.foldl_append, List.map_singleton, hlast]
      exact hrest.joined _

theorem lowerBody_of_isTest (s : Scope) {body : Expr} (h : body.IsTest) :
    s.lowerBody .predicate body = s.lower (s.options.maxDepth + 1) body := by
  have hform := h.notConstruction
  unfold Expr.isConstruction at hform
  unfold lowerBody
  split <;> simp_all [lowerValue]

end Scope

namespace Compiler
open Progress
variable {c : Compiler} {x : Parameter}

theorem apply_where {body : Expr} (h : body.ty.isBoolean = true) (position : Nat) (qs : List Query) :
    apply c { elementTy := x.ty, filters := qs } position ⟨"Where", [.lambda [x] body]⟩ =
    .ok { elementTy := x.ty, filters := qs ++ [(c.scope x).lowerBody .predicate body] } := by
  have hvalid : validated .predicate (some x.ty) (.lambda [x] body) = .ok ⟨x, body⟩ :=
    validated_eq_ok_iff.mpr ⟨rfl, fun _ => h, fun _ hty => (Option.some.inj hty).symm⟩
  have hq : lowerArg c { elementTy := x.ty, filters := qs } .predicate
      ⟨"Where", [.lambda [x] body]⟩ = .ok ((c.scope x).lowerBody .predicate body) :=
    lowerArg_eq_ok_iff.mpr ⟨_, rfl, lower_eq_ok_iff.mpr ⟨_, hvalid, rfl⟩⟩
  have haccept : accept { elementTy := x.ty, filters := qs } position
      ⟨"Where", [.lambda [x] body]⟩ = .ok .filter := accept_eq_ok_iff.mpr ⟨rfl, rfl, rfl, rfl⟩
  exact apply_eq_ok_iff.mpr ⟨.filter, haccept, .filter hq⟩

theorem applyAll_wheres {bodies : List Expr} (h : ∀ body ∈ bodies, body.IsTest) (position : Nat)
    (qs : List Query) :
    applyAll c position { elementTy := x.ty, filters := qs }
      (bodies.map fun body => ⟨"Where", [.lambda [x] body]⟩) =
    .ok { elementTy := x.ty, filters := qs ++ bodies.map ((c.scope x).lowerBody .predicate) } := by
  induction bodies generalizing position qs with
  | nil => simp [applyAll]
  | cons body bodies ih =>
    have hrest := ih (fun body hbody => h body (by simp [hbody])) (position + 1)
      (qs ++ [(c.scope x).lowerBody .predicate body])
    rw [List.append_assoc] at hrest
    exact bind_eq_ok.mpr ⟨_, apply_where (h body (by simp)).boolean position qs, hrest⟩

def filterTree (c : Compiler) (x : Parameter) (first : Expr) (rest : List Expr) : Query :=
  (rest.map ((c.scope x).lowerBody .predicate)).foldl (.logical .and)
    ((c.scope x).lowerBody .predicate first)

theorem parameters_wheres {first : Expr} {rest : List Expr}
    (h : ∀ body ∈ first :: rest, body.IsTest) :
    c.parameters (Expr.wheres x (first :: rest)) =
      (c.filterTree x first rest).print.map fun text => { filter := some text } := by
  rw [Expr.wheres, parameters_of_isChainOf (Expr.IsChainOf.source.querySteps _), List.nil_append,
    applyAll_wheres h]
  change ((c.filterTree x first rest).print >>= fun text =>
    pure ({ filter := some text } : Parameters)) = _
  cases (c.filterTree x first rest).print <;> rfl

theorem exists_print_filterTree_iff {first : Expr} {rest : List Expr} :
    (∃ text, (c.filterTree x first rest).print = .ok text) ↔
      ∀ body ∈ first :: rest, ((c.scope x).lowerBody .predicate body).isRepresentable = true := by
  have hprint (body : Expr) := ((c.scope x).wellFormed_lowerBody .predicate body).exists_print_iff
  rw [filterTree, Query.exists_print_foldl_logical_iff]
  simp [hprint]

theorem agrees_filterTree {first : Expr} {rest : List Expr}
    (htest : ∀ body ∈ first :: rest, body.IsTest) (hopen : first.isOpen = true)
    (hlimit : ((c.scope x).lowerBody .predicate (Expr.conjunction first rest)).IsWithinLimit) :
    (c.filterTree x first rest).Agrees (c.filterTree x (Expr.conjunction first rest) []) := by
  have hwhole := Expr.isTest_conjunction (htest first (by simp)) rest
  have hrest : rest.map ((c.scope x).lowerBody .predicate) =
      rest.map ((c.scope x).lower (c.options.maxDepth + 1)) :=
    List.map_congr_left fun body hbody =>
      (c.scope x).lowerBody_of_isTest (htest body (by simp [hbody]))
  rw [(c.scope x).lowerBody_of_isTest hwhole] at hlimit
  rw [filterTree, hrest, (c.scope x).lowerBody_of_isTest (htest first (by simp)), filterTree,
    (c.scope x).lowerBody_of_isTest hwhole]
  exact (c.scope x).agrees_lower_conjunction hopen rest (Nat.le_refl _) hlimit

/-- Filters one after the other are the same as one filter for all of them: the same text if each
body has a form in the grammar, and otherwise the same error. -/
theorem parameters_wheres_eq_conjunction (c : Compiler) (x : Parameter) {first : Expr}
    {rest : List Expr} (htest : ∀ body ∈ first :: rest, body.IsTest) (hopen : first.isOpen = true)
    (hlimit : ((c.scope x).lowerBody .predicate (Expr.conjunction first rest)).IsWithinLimit) :
    let chained := c.parameters (Expr.wheres x (first :: rest))
    chained = c.parameters (Expr.wheres x [Expr.conjunction first rest]) ∧
    ((∀ body ∈ first :: rest, ((c.scope x).lowerBody .predicate body).isRepresentable = true) →
      ∃ text, chained = .ok { filter := some text }) ∧
    ((∃ body ∈ first :: rest, ((c.scope x).lowerBody .predicate body).isRepresentable = false) →
      ∃ error, chained = .error error) := by
  intro chained
  have hwhole := Expr.isTest_conjunction (htest first (by simp)) rest
  have hchained : chained = (c.filterTree x first rest).print.map _ := parameters_wheres htest
  refine ⟨?_, fun hall => ?_, fun ⟨body, hbody, hmarker⟩ => ?_⟩
  · rw [hchained, parameters_wheres (by simpa using hwhole),
      (agrees_filterTree htest hopen hlimit).print_eq]
  · obtain ⟨text, ht⟩ := exists_print_filterTree_iff.mpr hall
    exact ⟨text, by rw [hchained, ht]; rfl⟩
  · cases hprint : (c.filterTree x first rest).print with
    | ok text =>
      have hr := exists_print_filterTree_iff.mp ⟨text, hprint⟩ body hbody
      rw [hmarker] at hr
      cases hr
    | error error => exact ⟨error, by rw [hchained, hprint]; rfl⟩

end Compiler

namespace Expr.Sample
open Critters

def isAdult : Expr := .binaryOf (.comparison .greater) age (.ofValue (.int32 17))

def others : List Expr := [unknown "Barks" .boolean, .ofValue (.boolean true), unknown "Bites" .boolean]

end Expr.Sample

open Critters Expr.Sample in
theorem Compiler.parameters_wheres_eq_conjunction_critters :
    (asDeclared.parameters (.wheres x (isAdult :: others)) =
      asDeclared.parameters (.wheres x [.conjunction isAdult others])) ∧
    ∃ text, asDeclared.parameters (.wheres x [isAdult, .notOf isAdult]) = .ok { filter := some text } :=
  ⟨(parameters_wheres_eq_conjunction asDeclared x (by decide) rfl (by decide)).1,
    (parameters_wheres_eq_conjunction asDeclared x (by decide) rfl (by decide)).2.1 (by decide)⟩

end ResourceQuery
