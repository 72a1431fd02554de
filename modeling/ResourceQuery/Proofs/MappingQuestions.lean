import ResourceQuery.Proofs.CacheEntries
import ResourceQuery.Proofs.ChainRun
import ResourceQuery.Proofs.Critters
import ResourceQuery.Proofs.NodeShapes
import ResourceQuery.Proofs.Visits

/-! # What lowering asks of a mapping

Lowering a lambda depends on the mapping only through the answers to the questions that it is listed
to ask, and these are about the types of members and constructions in the lambda. So a type that is
entered in a registry has no part in the lowering of lambdas that are not about it.
-/
namespace ResourceQuery

/-! ## The questions -/

namespace Scope

/-- The question that the role of a node asks. -/
def asked (e : Expr) : List Question :=
  if !e.isOpen then []
  else match e with
    | .member _ declaring name _ =>
      if asksMapping declaring name then [.property declaring name] else []
    | .construct ty _ _ => [.type ty]
    | _ => []

def consulted (s : Scope) : Nat → Expr → List Question
  | 0, _ => []
  | levels + 1, e => asked e ++ (s.visited levels (s.role e)).flatMap (s.consulted levels)

def consultedBody (s : Scope) (form : Form) (body : Expr) : List Question :=
  let whole := s.consulted (s.options.maxDepth + 1) body
  let parts (es : List Expr) := es.flatMap (s.consulted s.options.maxDepth)
  match body.unconverted with
  | .construct ty args _ => .type ty :: if s.isProjection ty then parts args else whole
  | .list _ elements => if form = .sequence then whole else parts elements
  | _ => whole

end Scope

def Compiler.consulted (c : Compiler) (form : Form) (expected : Option Ty) (e : Expr) : List Question :=
  match validated form expected e with
  | .ok l => (c.scope l.parameter).consultedBody form l.body
  | .error _ => []

namespace Progress

def consulted (c : Compiler) (p : Progress) (position : Nat) (step : Step) : List Question :=
  match p.accept position step with
  | .error _ => []
  | .ok op =>
    match op.form?, step.args with
    | some form, [arg] => c.consulted form (some p.elementTy) arg
    | _, _ => []

def consultedAll (c : Compiler) : Nat → Progress → List Step → List Question
  | _, _, [] => []
  | position, p, step :: rest =>
    p.consulted c position step ++ match p.apply c position step with
      | .ok next => consultedAll c (position + 1) next rest
      | .error _ => []

end Progress

def Compiler.consultedChain (c : Compiler) (e : Expr) : List Question :=
  match chain e with
  | .ok chain => Progress.consultedAll c 0 { elementTy := chain.elementTy } chain.steps
  | .error _ => []

/-- The second mapping answers the question as the first does. -/
def Mapping.AgreesOn (m m' : Mapping) : Question → Prop
  | .property declaring name => m'.property declaring name = m.property declaring name
  | .type ty => m'.typeInfo ty = m.typeInfo ty

def Question.subject : Question → Ty
  | .property declaring _ => declaring
  | .type ty => ty

namespace Expr

/-- The type by which the mapping may be asked about a node. Static members are folded, so it is
never asked about them. -/
def subject? : Expr → Option Ty
  | .member _ declaring _ _ => some declaring
  | .construct ty _ _ => some ty
  | _ => none

/-- No member and no construction in the tree is of a type of this name, nullable or not. -/
def Spares (name : String) (e : Expr) : Prop :=
  e.Everywhere fun node => ∀ ty ∈ node.subject?, ty.underlying.name ≠ name

instance (name : String) (e : Expr) : Decidable (e.Spares name) :=
  inferInstanceAs (Decidable (e.Everywhere fun node => ∀ ty ∈ node.subject?, ty.underlying.name ≠ name))

end Expr

namespace Scope
open Query
variable {s : Scope} {m : Mapping} {n : Nat} {e : Expr} {question : Question}

def withMapping (s : Scope) (m : Mapping) : Scope := { s with mapping := m }

/-! ## Nodes -/

theorem memberRole_withMapping {declaring : Ty} {name : String} (target : Expr)
    (h : asksMapping declaring name = true → s.mapping.AgreesOn m (.property declaring name)) :
    (s.withMapping m).memberRole target declaring name = s.memberRole target declaring name := by
  unfold memberRole
  split
  · rfl
  · rfl
  · rename_i hnullable
    split
    · rfl
    · rename_i hreceiver
      split
      · rfl
      · rename_i hdictionary
        have hanswer := h (by simp [asksMapping, hnullable, hreceiver, hdictionary])
        simp only [withMapping, show m.property declaring name = _ from hanswer]

theorem isProjection_withMapping {ty : Ty} (h : s.mapping.AgreesOn m (.type ty)) :
    (s.withMapping m).isProjection ty = s.isProjection ty := by
  simp only [isProjection, withMapping, show m.typeInfo ty = _ from h]

theorem role_withMapping (h : ∀ q ∈ asked e, s.mapping.AgreesOn m q) :
    (s.withMapping m).role e = s.role e := by
  cases e with
  | member target declaring name ty =>
    simp only [role, ifOpen]
    split
    · rename_i hopen
      refine memberRole_withMapping target fun hasks => h _ ?_
      simp [asked, hopen, hasks]
    · rfl
  | construct ty args members =>
    simp only [role, ifOpen]
    split
    · rename_i hopen
      rw [isProjection_withMapping (h _ (by simp [asked, hopen]))]
    · rfl
  | unary op => cases op <;> rfl
  | _ => rfl

theorem asksMapping_of_memberRole {target : Expr} {declaring : Ty} {name : String}
    (h : s.memberRole e declaring name = .path target declaring name) : asksMapping declaring name = true := by
  unfold memberRole at h
  split at h
  · cases h
  · cases h
  · rename_i hnullable
    split at h
    · split at h <;> cases h
    · rename_i hreceiver
      split at h
      · cases h
      · rename_i hdictionary
        simp [asksMapping, hnullable, hreceiver, hdictionary]

/-- A member on a path is one that the mapping is asked about. -/
theorem asked_of_role_path {target : Expr} {declaring : Ty} {name : String}
    (h : s.role e = .path target declaring name) : .property declaring name ∈ asked e := by
  have hfits := s.fits_role e
  rw [h] at hfits
  cases hfits with
  | path _ _ _ ty =>
    rw [role, ifOpen] at h
    split at h
    · rename_i ho
      simp [asked, ho, asksMapping_of_memberRole h]
    · cases h

/-- By induction on the levels: what is asked for a part is asked for the node. -/
theorem lower_withMapping (h : ∀ q ∈ s.consulted n e, s.mapping.AgreesOn m q) :
    (s.withMapping m).lower n e = s.lower n e := by
  induction n generalizing e with
  | zero => rfl
  | succ n ih =>
    rw [consulted] at h
    refine lower_congr (role_withMapping fun q hq => h q (List.mem_append_left _ hq))
      (fun target declaring name hrole => ?_) (fun _ => rfl) (fun _ _ _ => rfl) fun part hpart => ih fun q hq => ?_
    · have hanswer := h _ (List.mem_append_left _ (asked_of_role_path hrole))
      exact congrArg PropertyMapping.name hanswer
    · exact h q (List.mem_append_right _ (List.mem_flatMap.mpr ⟨part, hpart, hq⟩))

theorem subject_of_asked (h : question ∈ asked e) : e.subject? = some question.subject := by
  unfold asked at h
  split at h
  · cases h
  · split at h
    · split at h
      · rw [List.mem_singleton.mp h]
        rfl
      · cases h
    · rw [List.mem_singleton.mp h]
      rfl
    · cases h

theorem forall_consulted {P : Ty → Prop} (h : e.Everywhere fun node => ∀ ty ∈ node.subject?, P ty) :
    ∀ q ∈ s.consulted n e, P q.subject := by
  induction n generalizing e with
  | zero => nofun
  | succ n ih =>
    intro q hq
    rcases List.mem_append.mp hq with hq | hq
    · exact h.self _ (subject_of_asked hq)
    · obtain ⟨part, hpart, hq⟩ := List.mem_flatMap.mp hq
      exact ih (h.child (child_of_visited hpart)) q hq

/-! ## Bodies -/

theorem map_lower_withMapping {es : List Expr}
    (h : ∀ q ∈ es.flatMap (s.consulted n), s.mapping.AgreesOn m q) :
    es.map ((s.withMapping m).lower n) = es.map (s.lower n) :=
  List.map_congr_left fun e he => lower_withMapping fun q hq => h q (List.mem_flatMap.mpr ⟨e, he, hq⟩)

theorem fieldNames_withMapping {ty : Ty} (h : s.mapping.AgreesOn m (.type ty)) (arity : Nat)
    (members : Option (List String)) :
    (s.withMapping m).fieldNames ty arity members = s.fieldNames ty arity members := by
  simp only [fieldNames, withMapping, show m.typeInfo ty = _ from h]

theorem lowerValue_withMapping {form : Form} {body : Expr}
    (h : ∀ q ∈ s.consulted (s.options.maxDepth + 1) body, s.mapping.AgreesOn m q) :
    (s.withMapping m).lowerValue form body = s.lowerValue form body := by
  have hlower := lower_withMapping h
  unfold lowerValue
  simp only [withMapping] at hlower ⊢
  rw [hlower]

/-- A body is lowered to the same tree under every mapping that answers alike what is asked for it. -/
theorem lowerBody_withMapping {form : Form} {body : Expr}
    (h : ∀ q ∈ s.consultedBody form body, s.mapping.AgreesOn m q) :
    (s.withMapping m).lowerBody form body = s.lowerBody form body := by
  unfold consultedBody at h
  dsimp only at h
  split at h
  · rename_i ty args members hu
    have htype := h _ (.head _)
    have hrest := (List.forall_mem_cons.mp h).2
    simp only [lowerBody, hu, isProjection_withMapping htype]
    split at hrest
    · rename_i hp
      rw [if_pos hp, if_pos hp]
      exact project_congr (fieldNames_withMapping htype _ _) (map_lower_withMapping hrest)
    · rename_i hp
      rw [if_neg hp, if_neg hp]
      exact lowerValue_withMapping hrest
  · rename_i ty elements hu
    simp only [lowerBody, hu]
    split at h
    · rename_i hform
      rw [if_pos hform, if_pos hform]
      exact lowerValue_withMapping h
    · rename_i hform
      have hparts := map_lower_withMapping h
      rw [if_neg hform, if_neg hform]
      exact congrArg (fun parts => joined body parts (.list parts ty)) hparts
  · rename_i hconstruct hlist
    have hvalue (t : Scope) : t.lowerBody form body = t.lowerValue form body := by
      unfold lowerBody
      split
      · exact absurd ‹_› (hconstruct _ _ _)
      · exact absurd ‹_› (hlist _ _)
      · rfl
    rw [hvalue, hvalue]
    exact lowerValue_withMapping h

theorem forall_consultedBody {P : Ty → Prop} {form : Form} {body : Expr}
    (h : body.Everywhere fun node => ∀ ty ∈ node.subject?, P ty) :
    ∀ q ∈ s.consultedBody form body, P q.subject := by
  have hwhole : ∀ q ∈ s.consulted (s.options.maxDepth + 1) body, P q.subject := forall_consulted h
  have hparts : ∀ q ∈ body.unconverted.children.flatMap (s.consulted s.options.maxDepth), P q.subject := by
    intro q hq
    obtain ⟨part, hpart, hq⟩ := List.mem_flatMap.mp hq
    exact forall_consulted (h.unconverted.child hpart) q hq
  have hroot := h.unconverted.self
  unfold consultedBody
  dsimp only
  split
  · rename_i hu
    rw [hu] at hparts hroot
    refine List.forall_mem_cons.mpr ⟨hroot _ rfl, ?_⟩
    split
    · exact hparts
    · exact hwhole
  · rename_i hu
    rw [hu] at hparts
    split
    · exact hwhole
    · exact hparts
  · exact hwhole

end Scope

def Compiler.withMapping (c : Compiler) (m : Mapping) : Compiler := { c with mapping := m }

/-- Compiling asks for what lowering the body asks for. -/
theorem Compiler.lower_withMapping {c : Compiler} {m : Mapping} {form : Form} {expected : Option Ty} {e : Expr}
    (h : ∀ q ∈ c.consulted form expected e, c.mapping.AgreesOn m q) :
    (c.withMapping m).lower form expected e = c.lower form expected e := by
  unfold consulted at h
  unfold lower
  cases hl : validated form expected e with
  | error error => rfl
  | ok l =>
    rw [hl] at h
    exact congrArg Except.ok (Scope.lowerBody_withMapping (s := c.scope l.parameter) h)

theorem Compiler.forall_consulted {c : Compiler} {form : Form} {expected : Option Ty} {e : Expr}
    {P : Ty → Prop} (h : e.Everywhere fun node => ∀ ty ∈ node.subject?, P ty) :
    ∀ q ∈ c.consulted form expected e, P q.subject := by
  unfold consulted
  cases hl : validated form expected e with
  | error error => nofun
  | ok l =>
    have hlambda := (validated_eq_ok_iff.mp hl).1
    have hbody := h.unconverted
    rw [hlambda] at hbody
    exact Scope.forall_consultedBody (hbody.child (.head _))

namespace Registry

/-- The types of other names are looked up as before. -/
theorem agreesOn_withType (r : Registry) {info : TypeInfo} {q : Question}
    (h : q.subject.underlying.name ≠ info.name) : r.mapping.AgreesOn (r.withType info).mapping q := by
  cases q with
  | property declaring name =>
    have hget : (r.withType info).get? declaring.underlying.name = _ := get?_withType_of_ne r h
    simp only [Mapping.AgreesOn, mapping, property?, hget]
    rfl
  | type ty =>
    have hget : (r.withType info).get? ty.underlying.name = _ := get?_withType_of_ne r h
    simp only [Mapping.AgreesOn, mapping, hget]

/-- A type that is entered in a registry, also in place of another, has no part in the trees, the
markers, the texts and the errors of lambdas without members and constructions of types of its name. -/
theorem lower_withType (r : Registry) {info : TypeInfo} (options : Options) (form : Form)
    (expected : Option Ty) {e : Expr} (h : e.Spares info.name) :
    let before : Compiler := ⟨r.mapping, options⟩
    let after : Compiler := ⟨(r.withType info).mapping, options⟩
    after.lower form expected e = before.lower form expected e ∧
    after.compile form expected e = before.compile form expected e := by
  intro before after
  have hagrees : ∀ q ∈ before.consulted form expected e, before.mapping.AgreesOn after.mapping q := by
    intro q hq
    exact r.agreesOn_withType (Compiler.forall_consulted h q hq)
  have hlower : after.lower form expected e = before.lower form expected e :=
    Compiler.lower_withMapping hagrees
  exact ⟨hlower, by rw [Compiler.compile, Compiler.compile, hlower]⟩

namespace Unrelated
open Critters

/-- Names of critters are titles, and owners are entered as a tuple. -/
def registry : Registry :=
  ⟨.asDeclared, [("Critter", ⟨"Critter", .resource, none, [("Name", ⟨"Name", .string, some "Title", true⟩)]⟩),
    ("Owner", ⟨"Owner", .tuple, some ["Name"], []⟩)]⟩

/-- Owners are entered anew, without their names. -/
def owner : TypeInfo := ⟨"Owner", .resource, none, [("Name", ⟨"Name", .string, none, false⟩)]⟩

def selection : Expr :=
  .lambda [x] (.recordOf "Pair" [("Title", name), ("Owner", trait "Owner" (.named "Owner"))])

end Unrelated

open Unrelated in
theorem lower_withType_critters :
    Compiler.compile ⟨(registry.withType owner).mapping, {}⟩ .selector none selection =
      Compiler.compile ⟨registry.mapping, {}⟩ .selector none selection ∧
    Compiler.compile ⟨registry.mapping, {}⟩ .selector none selection = .ok "Title as Title,Owner as Owner" := by
  have hspares : selection.Spares owner.name := by decide
  exact ⟨(registry.lower_withType {} .selector none hspares).2, by rfl⟩

end Registry
end ResourceQuery
