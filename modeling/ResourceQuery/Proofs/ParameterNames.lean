import ResourceQuery.Proofs.Critters
import ResourceQuery.Proofs.Lowered
import ResourceQuery.Proofs.Resemblance

/-! # Names of parameters

A parameter is found by its name, and its name is quoted in what is reported. Another name that does
not occur in the body gives the same tree, but for these texts.
-/
namespace ResourceQuery

def Parameter.named (p : Parameter) (name : String) : Parameter := { p with name }

def Parameter.renamed (x y : String) (p : Parameter) : Parameter := if p.name = x then p.named y else p

namespace Expr

def renamed (x y : String) (e : Expr) : Expr := e.substitute fun p => .parameter (p.renamed x y)

theorem ty_parameterRenamed (x y : String) (p : Parameter) : (p.renamed x y).ty = p.ty := by
  unfold Parameter.renamed
  split <;> rfl

theorem keeps_renamed (x y : String) : Parameter.Keeps fun p => .parameter (p.renamed x y) :=
  ⟨ty_parameterRenamed x y, fun _ => rfl⟩

theorem ty_renamed (e : Expr) (x y : String) : (e.renamed x y).ty = e.ty :=
  ty_substitute (keeps_renamed x y) e

theorem akin_children_renamed (x y : String) (e : Expr) :
    List.Forall₂ Akin e.children (e.children.map (renamed x y)) := by
  rw [List.forall₂_map_right_iff, List.forall₂_same]
  exact fun c _ => akin_substitute (keeps_renamed x y) c

section
variable {e : Expr} (he : ∀ p, e ≠ .parameter p)
include he

theorem renamed_eq_withChildren (x y : String) :
    e.renamed x y = e.withChildren (e.children.map (renamed x y)) :=
  substitute_eq_withChildren he

theorem renamed_ne_parameter {x y : String} (p : Parameter) : e.renamed x y ≠ .parameter p := by
  cases e with
  | parameter q => exact absurd rfl (he q)
  | _ => simp [renamed, substitute]

end

theorem unconverted_renamed (x y : String) : (e : Expr) →
    (e.renamed x y).unconverted = e.unconverted.renamed x y
  | .unary .convert operand _ => unconverted_renamed x y operand
  | .unary .not .. | .unary .negate .. | .parameter _ | .constant .. | .lambda .. | .member ..
  | .staticMember .. | .binary .. | .call .. | .staticCall .. | .index .. | .construct .. | .list ..
  | .conditional .. | .source _ => rfl

def isParameter (name : String) : Expr → Bool
  | .parameter p => p.name == name
  | _ => false

/-- No parameter of the tree has the name. -/
def Avoids (name : String) (e : Expr) : Prop := e.Everywhere fun node => node.isParameter name = false

instance (name : String) (e : Expr) : Decidable (e.Avoids name) :=
  inferInstanceAs (Decidable (e.Everywhere fun node => node.isParameter name = false))

namespace Avoids
variable {name : String} {e c : Expr}

theorem child (h : e.Avoids name) (hc : c ∈ e.children) : c.Avoids name := Everywhere.child h hc

theorem name_ne {p : Parameter} (h : (Expr.parameter p).Avoids name) : p.name ≠ name := by
  simpa [isParameter] using h.self

theorem unconverted (h : e.Avoids name) : e.unconverted.Avoids name := Everywhere.unconverted h

end Avoids
end Expr

namespace Scope
open Query
variable {s : Scope} {y : String} {e : Expr}

def renamed (s : Scope) (y : String) : Scope := { s with parameter := s.parameter.named y }

/-- The scope has a part in the role of parameters only. -/
theorem role_renamed (he : ∀ p, e ≠ .parameter p) : (s.renamed y).role e = s.role e := by
  cases e with
  | parameter p => exact absurd rfl (he p)
  | unary op => cases op <;> rfl
  | _ => rfl

/-- The parameter itself is found under either name, and any other is foreign under both. -/
theorem lower_parameter_renamed (levels : Nat) {p : Parameter} (hp : p.name ≠ y) :
    (s.renamed y).lower (levels + 1) (.parameter (p.renamed s.parameter.name y)) =
      s.lower (levels + 1) (.parameter p) := by
  by_cases hx : p.name = s.parameter.name
  · have hrole : s.role (.parameter p) = .parameter := if_pos hx
    have hrole' : (s.renamed y).role (.parameter (p.named y)) = .parameter := if_pos rfl
    rw [Parameter.renamed, if_pos hx, lower, lower, hrole, hrole']
    rfl
  · have hrole : s.role (.parameter p) = .unsupported (some (.foreignParameter p.name)) := if_neg hx
    have hrole' : (s.renamed y).role (.parameter p) = .unsupported (some (.foreignParameter p.name)) :=
      if_neg hp
    rw [Parameter.renamed, if_neg hx, lower, lower, hrole, hrole']

/-- By induction on the levels: the children are renamed, and the node keeps its role. -/
theorem resembles_lower_renamed (levels : Nat) (h : e.Avoids y) :
    (s.lower levels e).Resembles Eq ((s.renamed y).lower levels (e.renamed s.parameter.name y)) := by
  induction levels generalizing e with
  | zero => exact .refused (e.ty_renamed _ _).symm rfl
  | succ levels ih =>
    by_cases hp : ∃ p, e = .parameter p
    · obtain ⟨p, rfl⟩ := hp
      change Resembles Eq _ ((s.renamed y).lower _ (.parameter (p.renamed _ _)))
      rw [lower_parameter_renamed levels h.name_ne]
      exact .refl _
    · have hne : ∀ p, e ≠ .parameter p := fun p he => hp ⟨p, he⟩
      have hnode := Expr.renamed_eq_withChildren hne s.parameter.name y
      have hrole := s.rel_role (Expr.akin_children_renamed s.parameter.name y e)
      rw [← hnode, ← role_renamed (y := y) (Expr.renamed_ne_parameter hne)] at hrole
      refine resembles_lower rfl hrole (e.ty_renamed _ _).symm (fun _ => e.ty_renamed _ _)
        (fun hfolded => ⟨?_, rfl⟩) (fun _ _ _ => rfl) fun a b hab _ _ => ?_
      · exact Expr.substitute_of_closed _ e (isOpen_of_role_folded hfolded)
      · obtain ⟨ha, rfl⟩ := mem_zip_map.mp hab
        exact ih (h.child ha)

theorem resembles_lowerBody_renamed (form : Form) {body : Expr} (h : body.Avoids y) :
    (s.lowerBody form body).Resembles Eq
      ((s.renamed y).lowerBody form (body.renamed s.parameter.name y)) := by
  have hu := Expr.unconverted_renamed s.parameter.name y body
  refine resembles_lowerBody (s := s) (t := s.renamed y) rfl rfl rfl (body.ty_renamed _ _).symm
    (fun parts hsel => ?_) fun hsel => ?_
  · have hchildren := children_of_selected?_eq_some hsel
    have hne : ∀ p, body.unconverted ≠ .parameter p := by
      rcases selected?_eq_some hsel with ⟨ty, members, hbody, -⟩ | ⟨ty, hbody, -⟩ <;> rw [hbody] <;> nofun
    rw [Expr.renamed_eq_withChildren hne] at hu
    refine ⟨_, hu, ?_⟩
    rw [hchildren, List.forall₂_map_right_iff, List.forall₂_same]
    intro part hpart
    exact resembles_lower_renamed _ (h.unconverted.child (hchildren ▸ hpart))
  · refine ⟨?_, resembles_lower_renamed _ h⟩
    by_cases hp : ∃ p, body.unconverted = .parameter p
    · obtain ⟨p, hp⟩ := hp
      rw [selected?, hu, hp]
      rfl
    · rw [Expr.renamed_eq_withChildren fun p he => hp ⟨p, he⟩] at hu
      rw [selected?_withChildren (s := s) (t := s.renamed y) rfl hu, hsel]
      rfl

end Scope

/-- The name of a parameter is in none of what a lambda is lowered to but the texts of its markers:
under a name that is new to the body, the tree is the same otherwise, and if it has no markers it is
the same tree with the same text. -/
theorem Compiler.lower_renamed (c : Compiler) (form : Form) (expected : Option Ty) (x : Parameter)
    (body : Expr) {y : String} (h : body.Avoids y) :
    let q := (c.scope x).lowerBody form body
    let t := (c.scope (x.named y)).lowerBody form (body.renamed x.name y)
    t.isRepresentable = q.isRepresentable ∧ (q.isRepresentable = true → t = q ∧ t.print = q.print) ∧
    q.Resembles Eq t ∧
    (c.lower form expected (.lambda [x.named y] (body.renamed x.name y))).isOk =
      (c.lower form expected (.lambda [x] body)).isOk := by
  intro q t
  have hqt : q.Resembles Eq t := Scope.resembles_lowerBody_renamed form h
  refine ⟨hqt.isRepresentable_eq, fun hq => ⟨hqt.eq_of_isRepresentable hq, hqt.print_eq hq⟩, hqt, ?_⟩
  exact isOk_lower_lambda_congr rfl (by rw [body.ty_renamed])

namespace Expr.Naming
open Critters

/-- A coat whose color is a property of the critter, if the key is closed. -/
def coatIs (key : Expr) : Expr := .binaryOf (.comparison .equal) (coat coats key) (trait "Color" .string)

/-- A key that depends on the parameter, and on one of another lambda. -/
def season : Expr :=
  .binaryOf (.arithmetic .add) (trait "Season" .string) (.parameter ⟨"z", .string⟩)

end Expr.Naming

open Critters Expr.Naming in
theorem Compiler.lower_renamed_critters :
    let tree (key : Expr) := critters.lowerBody .predicate (coatIs key)
    let renamed (key : Expr) := (asDeclared.scope ⟨"critter", .named "Critter"⟩).lowerBody .predicate
      ((coatIs key).renamed "x" "critter")
    (renamed winter = tree winter ∧ (tree winter).print = .ok "Coats.winter eq Color") ∧
    ((tree season).Resembles Eq (renamed season) ∧
      (tree season).markers = [⟨"x.Coats[(x.Season + z)]", some (.nonLiteralKey "(x.Season + z)"), true⟩] ∧
      (renamed season).markers =
        [⟨"critter.Coats[(critter.Season + z)]", some (.nonLiteralKey "(critter.Season + z)"), true⟩]) := by
  intro tree renamed
  have hwinter := asDeclared.lower_renamed .predicate none x (coatIs winter) (y := "critter") (by decide)
  have hseason := asDeclared.lower_renamed .predicate none x (coatIs season) (y := "critter") (by decide)
  exact ⟨⟨(hwinter.2.1 (by decide)).1, by rfl⟩, hseason.2.2.1, by decide, by decide⟩

end ResourceQuery
