import ResourceQuery.Proofs.Critters
import ResourceQuery.Proofs.OperatorOrder
import ResourceQuery.Proofs.Rekeyed
import ResourceQuery.Proofs.Resemblance

/-! # Elements after a flattening

After `SelectMany`, every lambda of the chain takes the elements of what was flattened. Their type is read
off the lowered tree, and lowering drops conversions and the unwrapping of nullables with the types that
they declare: so it is the type before them that counts, and not the one that the selector declares.
-/
namespace ResourceQuery

/-! ## Types of lowered trees -/

namespace Expr

/-- The type of the tree that a node is lowered to, if it is closed or no selection at the root. What is
dropped leaves the type of what is inside, and truth values have a type of their own. -/
def treeTy : Expr → Ty
  | .unary .convert operand ty | .unary .negate operand ty => if operand.isOpen then operand.treeTy else ty
  | .unary .not operand ty => if operand.isOpen then .boolean else ty
  | .binary (.comparison _) left right ty | .binary (.logical _) left right ty =>
    if left.isOpen || right.isOpen then .boolean else ty
  | .member target declaring name ty =>
    if target.isOpen then
      match Scope.nullableMember? declaring name with
      | some .value => target.treeTy
      | some .hasValue => .boolean
      | none => ty
    else ty
  | e => e.ty

theorem treeTy_of_closed {e : Expr} (h : e.isOpen = false) : e.treeTy = e.ty := by
  cases e with
  | unary op operand ty =>
    have ho : operand.isOpen = false := h
    cases op <;> simp [treeTy, ho, Expr.ty]
  | binary op left right ty =>
    have ho : (left.isOpen || right.isOpen) = false := h
    cases op with
    | arithmetic => rfl
    | comparison | logical => rw [treeTy, ho]; rfl
  | member target declaring name ty =>
    have ho : target.isOpen = false := h
    rw [treeTy, ho]
    rfl
  | _ => rfl

end Expr

namespace Scope
variable {s : Scope} {levels : Nat} {e body : Expr} {q : Query}

theorem Lowers.ty_eq_treeTy (h : Lowers s levels e q) : q.ty = e.treeTy := by
  induction h with
  | folded ho => exact (Expr.treeTy_of_closed ho).symm
  | path ho ha => simp [Expr.treeTy, ho, nullableMember?_of_asksMapping ha, Query.ty]
  | unwrap ho hn _ ih => simpa [Expr.treeTy, ho, hn] using ih
  | hasValue ho hn => simp [Expr.treeTy, ho, hn, Query.ty]
  | property ho hn => simp [Expr.treeTy, ho, hn, Query.ty]
  | convert ho _ ih => simpa [Expr.treeTy, ho] using ih
  | not ho => simp [Expr.treeTy, ho, Query.ty]
  | negate ho _ ih => simpa [Expr.treeTy, ho, Query.ty] using ih
  | comparison ho => rw [Expr.treeTy, if_pos ho]; rfl
  | logical ho => rw [Expr.treeTy, if_pos ho]; rfl
  | _ => rfl

def flattenedTy (s : Scope) (body : Expr) : Ty :=
  match s.selected? .sequence body with
  | some _ => body.unconverted.ty
  | none => body.treeTy

theorem ty_lowerBody_sequence (h : (s.lowerBody .sequence body).isRepresentable = true) :
    (s.lowerBody .sequence body).ty = s.flattenedTy body := by
  unfold flattenedTy
  cases hsel : s.selected? .sequence body with
  | none =>
    rw [lowerBody_of_selected?_eq_none hsel] at h ⊢
    have hlowers := lowers_of_isRepresentable (isRepresentable_of_lowerValue h)
    exact hlowers.ty_eq_treeTy
  | some parts =>
    rcases selected?_eq_some hsel with ⟨ty, members, hbody, hprojection⟩ | ⟨ty, -, hform⟩
    · have hproject : s.lowerBody .sequence body = s.project body ty parts members := by
        rw [lowerBody, hbody]
        exact if_pos hprojection
      rw [hproject] at h ⊢
      rw [project_of_isRepresentable h, hbody]
      rfl
    · exact absurd rfl hform

/-- Whether the tree of a body has the type that the body declares. -/
def keepsTy (s : Scope) : Expr → Bool
  | .unary .convert operand _ => !operand.isOpen && (s.selected? .sequence operand).isNone
  | .unary _ operand _ => !operand.isOpen
  | .binary (.arithmetic _) .. => true
  | .binary _ left right _ => !(left.isOpen || right.isOpen)
  | .member target declaring name _ => !target.isOpen || (nullableMember? declaring name).isNone
  | _ => true

theorem flattenedTy_of_keepsTy (h : s.keepsTy body = true) : s.flattenedTy body = body.ty := by
  have hvalue (hsel : s.selected? .sequence body = none) (hty : body.treeTy = body.ty) :
      s.flattenedTy body = body.ty := by
    rw [flattenedTy, hsel]
    exact hty
  cases body with
  | unary op operand ty =>
    cases op with
    | convert =>
      simp only [keepsTy, Bool.and_eq_true, Bool.not_eq_true', Option.isNone_iff_eq_none] at h
      exact hvalue h.2 (Expr.treeTy_of_closed h.1)
    | not | negate =>
      have ho : operand.isOpen = false := by simpa [keepsTy] using h
      exact hvalue rfl (Expr.treeTy_of_closed ho)
  | binary op left right ty =>
    cases op with
    | arithmetic => exact hvalue rfl rfl
    | comparison | logical =>
      have ho : (left.isOpen || right.isOpen) = false := by simpa [keepsTy] using h
      exact hvalue rfl (Expr.treeTy_of_closed ho)
  | member target declaring name ty =>
    refine hvalue rfl ?_
    rw [Expr.treeTy]
    split
    · rename_i ho
      have hn : nullableMember? declaring name = none := by simpa [keepsTy, ho] using h
      rw [hn]
      rfl
    · rfl
  | construct ty args members =>
    unfold flattenedTy
    cases s.selected? .sequence (.construct ty args members) <;> rfl
  | _ => exact hvalue rfl rfl

end Scope

/-! ## Steps and the types of their parameters -/

namespace Step
variable {c : Compiler} {s : Step} {ty own : Ty}

def parameterTy? (s : Step) : Option Ty :=
  match (QueryOp.ofName? s.name).bind QueryOp.form?, s.args with
  | some _, [arg] => match arg.unconverted with
    | .lambda [x] _ => some x.ty
    | _ => none
  | _, _ => none

theorem HasLambda.parameterTy? {op : QueryOp} {form : Form} (h : s.HasLambda c own form)
    (hname : s.name = op.name) (hform : op.form? = some form) : s.parameterTy? = some own := by
  obtain ⟨arg, x, body, hargs, hlambda, rfl, -⟩ := h
  rw [Step.parameterTy?, QueryOp.ofName?_eq_some.mpr hname, Option.bind_some, hform, hargs]
  simp only [hlambda]

/-- The elements that a step is valid for only matter to a lambda. -/
theorem IsValid.cases (h : s.IsValid c own) :
    (s.parameterTy? = none ∧ ∀ ty, s.IsValid c ty) ∨
    ∃ (op : QueryOp) (form : Form), s.name = op.name ∧ op.form? = some form ∧ s.HasLambda c own form := by
  cases hop : QueryOp.ofName? s.name with
  | none => exact .inl ⟨by simp [Step.parameterTy?, hop], fun ty => by simp [IsValid, hop]⟩
  | some op =>
    have hname := QueryOp.ofName?_eq_some.mp hop
    cases hform : op.form? with
    | some form => exact .inr ⟨op, form, hname, hform, h.hasLambda hname hform⟩
    | none =>
      refine .inl ⟨by simp [Step.parameterTy?, hop, hform], fun ty => ?_⟩
      rw [IsValid, hop] at h ⊢
      cases op with
      | take | skip | first | totalCount => exact h
      | _ => cases hform

theorem IsValid.of_parameterTy (h : s.IsValid c own) (hty : ∀ t, s.parameterTy? = some t → t = ty) :
    s.IsValid c ty := by
  rcases h.cases with ⟨-, hany⟩ | ⟨op, form, hname, hform, hlambda⟩
  · exact hany ty
  · rw [← hty own (hlambda.parameterTy? hname hform)]
    exact h

end Step

namespace Progress
variable {c : Compiler} {ty own : Ty} {p p' : Progress} {done : List Step} {s : Step} {op : QueryOp}
  {form : Form} {position : Nat}

theorem exists_lowerArg_of_performed (h : Performed c p s op p') (hform : op.form? = some form) :
    ∃ q, lowerArg c p form s = .ok q := by
  cases h with
  | filter hq | selectMany hq =>
    cases hform
    exact ⟨_, hq⟩
  | select ht | orderBy _ ht | thenBy _ ht | expand ht | expandShallow ht =>
    cases hform
    obtain ⟨q, hq, -⟩ := bind_eq_ok.mp ht
    exact ⟨q, hq⟩
  | take | skip | first | totalCount => cases hform

/-- The lambda of a step that is applied takes the elements of the progress. -/
theorem parameterTy_of_apply (h : p.apply c position s = .ok p') (ht : s.parameterTy? = some own) :
    own = p.elementTy := by
  obtain ⟨op, haccept, hperformed⟩ := apply_eq_ok_iff.mp h
  obtain ⟨-, -, hname, -⟩ := accept_eq_ok_iff.mp haccept
  rw [Step.parameterTy?, QueryOp.ofName?_eq_some.mpr hname, Option.bind_some] at ht
  cases hform : op.form? with
  | none => simp [hform] at ht
  | some form =>
    obtain ⟨q, hq⟩ := exists_lowerArg_of_performed hperformed hform
    obtain ⟨arg, hargs, hlower⟩ := lowerArg_eq_ok_iff.mp hq
    obtain ⟨l, hl, -⟩ := Compiler.lower_eq_ok_iff.mp hlower
    obtain ⟨hlambda, -, hexpected⟩ := Compiler.validated_eq_ok_iff.mp hl
    simp only [hform, hargs, hlambda, Option.some.injEq] at ht
    rw [← ht, hexpected p.elementTy rfl]

theorem Run.exists_apply_of_mem (h : Run c ty done p) (hs : s ∈ done) :
    ∃ before after q q', done = before ++ s :: after ∧ Run c ty before q ∧
      q.apply c before.length s = .ok q' := by
  induction h with
  | start => cases hs
  | @step done p p' t hrun ht ih =>
    rcases List.mem_append.mp hs with hs | hs
    · obtain ⟨before, after, q, q', rfl, hbefore, happly⟩ := ih hs
      exact ⟨before, after ++ [t], q, q', by simp, hbefore, happly⟩
    · obtain rfl := List.mem_singleton.mp hs
      exact ⟨done, [], p, p', rfl, hrun, ht⟩

/-- A lambda that takes other elements is refused before it is lowered. -/
theorem lowerArg_of_ne (h : s.HasLambda c own form) (hne : own ≠ p.elementTy) :
    ∃ message, lowerArg c p form s = .error (.invalidArgument ⟨102⟩ message) := by
  obtain ⟨arg, x, body, hargs, hlambda, rfl, hboolean, -⟩ := h
  have hpredicate : ¬(form = .predicate && !body.ty.isBoolean) = true := by simpa using hboolean
  have hvalid : Compiler.validated form (some p.elementTy) arg = .error (.invalidArgument ⟨102⟩
      ("Lambda parameter '" ++ x.name ++ "' has type " ++ x.ty.name ++ " but " ++ p.elementTy.name ++
        " was expected")) := by
    simp only [Compiler.validated, UnaryLambda.ofExpr, hlambda]
    change (if (form = .predicate && !body.ty.isBoolean) = true then _ else _) = _
    rw [if_neg hpredicate]
    exact if_neg (Ne.symm hne)
  have hlower : lowerArg c p form s = c.lower form (some p.elementTy) arg := by
    rw [lowerArg, lambdaArg, hargs]
    rfl
  rw [hlower, Compiler.lower, hvalid]
  exact ⟨_, rfl⟩

theorem perform_of_lowerArg_error {error : CompileError} (hform : op.form? = some form)
    (h : lowerArg c p form s = .error error) : p.perform c s op = .error error := by
  cases op with
  | take | skip | first | totalCount => cases hform
  | filter | selectMany =>
    cases hform
    rw [perform, h]
    rfl
  | _ =>
    cases hform
    rw [perform, printArg, h]
    rfl

/-- A step with otherwise valid arguments, at a place where its operator may come, is refused only for
the elements that its lambda takes. -/
theorem parameterTy_of_apply_error {error : CompileError} (hrun : Run c ty done p) (hv : s.IsValid c own)
    (hfollows : Follows (done.map Step.name) s.name) (hskip : skipTotal (done ++ [s]) ≤ maxInt64)
    (herror : p.apply c done.length s = .error error) :
    s.parameterTy? = some own ∧ own ≠ p.elementTy ∧
      ∃ message, error = .invalidArgument ⟨102⟩ message := by
  obtain ⟨op, haccept⟩ := (reflects_of_run hrun).accept_iff.mpr hfollows
  rw [List.length_map] at haccept
  obtain ⟨-, -, hname, -⟩ := accept_eq_ok_iff.mp haccept
  have hinvalid : ¬s.IsValid c p.elementTy := by
    intro hvalid
    obtain ⟨p', hp⟩ := exists_apply hrun haccept hvalid hskip
    rw [hp] at herror
    cases herror
  rcases hv.cases with ⟨-, hany⟩ | ⟨op', form, hname', hform, hlambda⟩
  · exact absurd (hany _) hinvalid
  · obtain rfl : op = op' := QueryOp.name_injective (hname.symm.trans hname')
    have hne : own ≠ p.elementTy := fun heq => hinvalid (heq ▸ hv)
    obtain ⟨message, hlower⟩ := lowerArg_of_ne hlambda hne
    have happly : p.apply c done.length s = .error (.invalidArgument ⟨102⟩ message) := by
      rw [apply, haccept]
      exact perform_of_lowerArg_error hform hlower
    rw [happly] at herror
    cases herror
    exact ⟨hlambda.parameterTy? hname hform, hne, message, rfl⟩

end Progress

/-! ## Chains that begin with a flattening -/

namespace Compiler
variable {c : Compiler} {ty T : Ty} {arg : Expr} {x : Parameter} {body : Expr} {steps : List Step}

theorem elementTyAfter_of_ne {s : Step} (h : s.name ≠ "SelectMany") : c.elementTyAfter ty s = ty := by
  unfold elementTyAfter
  split
  · rename_i hop _
    exact absurd (QueryOp.ofName?_eq_some.mp hop) h
  · rfl

theorem foldl_elementTyAfter (h : "SelectMany" ∉ steps.map Step.name) :
    steps.foldl c.elementTyAfter ty = ty := by
  induction steps with
  | nil => rfl
  | cons s steps ih =>
    rw [List.map_cons, List.mem_cons, not_or] at h
    rw [List.foldl_cons, elementTyAfter_of_ne (Ne.symm h.1), ih h.2]

theorem elementTyAfter_selectMany (harg : arg.unconverted = .lambda [x] body) (hx : x.ty = ty)
    (hr : ((c.scope x).lowerBody .sequence body).isRepresentable = true) :
    c.elementTyAfter ty ⟨"SelectMany", [arg]⟩ = ((c.scope x).flattenedTy body).element?.getD ty := by
  have hvalid : validated .sequence (some ty) arg = .ok ⟨x, body⟩ :=
    validated_eq_ok_iff.mpr ⟨harg, by simp, fun _ h => by cases h; exact hx.symm⟩
  have hlower : c.lower .sequence (some ty) arg = .ok ((c.scope x).lowerBody .sequence body) :=
    lower_eq_ok_iff.mpr ⟨_, hvalid, rfl⟩
  have hop : QueryOp.ofName? "SelectMany" = some .selectMany := rfl
  rw [elementTyAfter, hop, ← Scope.ty_lowerBody_sequence hr]
  simp only [hlower]

theorem areValid_of_forall (h : "SelectMany" ∉ steps.map Step.name) (hv : ∀ s ∈ steps, s.IsValid c ty) :
    c.AreValid ty steps := by
  induction steps with
  | nil => trivial
  | cons s steps ih =>
    rw [List.map_cons, List.mem_cons, not_or] at h
    refine ⟨hv s (.head _), ?_⟩
    rw [elementTyAfter_of_ne (Ne.symm h.1)]
    exact ih h.2 fun t ht => hv t (.tail _ ht)

/-- A chain that flattens what a selector gives. The steps after it are in order, and their arguments are
valid for elements of some type or other. -/
structure Flattens (c : Compiler) (ty : Ty) (x : Parameter) (body : Expr) (arg : Expr) (steps : List Step) :
    Prop where
  selector : arg.unconverted = .lambda [x] body
  parameter : x.ty = ty
  representable : ((c.scope x).lowerBody .sequence body).isRepresentable = true
  valid : ∀ s ∈ steps, ∃ own, s.IsValid c own
  inOrder : InOrder ("SelectMany" :: steps.map Step.name)
  skip : skipTotal steps ≤ maxInt64

namespace Flattens

def elementTy (c : Compiler) (x : Parameter) (body : Expr) : Ty :=
  ((c.scope x).flattenedTy body).element?.getD x.ty

variable {before : List Step} {p : Progress} (h : c.Flattens ty x body arg steps)
include h

theorem notMem : "SelectMany" ∉ steps.map Step.name := h.inOrder.selectMany

theorem isValid_selectMany : Step.IsValid c ty ⟨"SelectMany", [arg]⟩ :=
  ⟨.sequence, rfl, arg, x, body, rfl, h.selector, h.parameter, by simp, h.representable⟩

theorem elementTy_of_run (hrun : Progress.Run c ty (⟨"SelectMany", [arg]⟩ :: before) p)
    (hbefore : "SelectMany" ∉ before.map Step.name) : p.elementTy = elementTy c x body := by
  rw [Progress.elementTy_of_run hrun, List.foldl_cons, foldl_elementTyAfter hbefore,
    elementTyAfter_selectMany h.selector h.parameter h.representable, elementTy, h.parameter]

/-- In a run of the chain, every lambda takes the elements after the flattening. -/
theorem parameterTy_of_run (hrun : Progress.Run c ty (⟨"SelectMany", [arg]⟩ :: steps) p) {s : Step}
    (hs : s ∈ steps) {own : Ty} (hown : s.parameterTy? = some own) : own = elementTy c x body := by
  obtain ⟨before, after, q, q', hcut, hbefore, happly⟩ := hrun.exists_apply_of_mem (.tail _ hs)
  rw [Progress.parameterTy_of_apply happly hown]
  cases before with
  | nil =>
    obtain ⟨rfl, -⟩ := List.cons.inj hcut
    exact absurd (List.mem_map_of_mem hs) h.notMem
  | cons first before =>
    obtain ⟨rfl, rfl⟩ := List.cons.inj hcut
    exact h.elementTy_of_run hbefore fun hmem => h.notMem (by simp [hmem])

/-- A chain without a run is refused at a lambda that takes other elements. -/
theorem parameterTy_of_applyAll_error {error : CompileError}
    (herror : Progress.applyAll c 0 { elementTy := ty } (⟨"SelectMany", [arg]⟩ :: steps) = .error error) :
    ∃ s ∈ steps, ∃ own message, s.parameterTy? = some own ∧ own ≠ elementTy c x body ∧
      error = .invalidArgument ⟨102⟩ message := by
  obtain ⟨before, s, after, q, hcut, hbefore, happly⟩ := Progress.Run.start.of_applyAll_error herror
  rw [List.nil_append] at hbefore happly
  have hin : InOrder (before.map Step.name ++ s.name :: after.map Step.name) := by
    rw [← List.map_cons, ← List.map_append, ← hcut]
    exact h.inOrder
  have hflatten : skipTotal [⟨"SelectMany", [arg]⟩] = 0 := skipTotal_singleton_of_ne (by simp)
  cases before with
  | nil =>
    -- The flattening itself is valid for the elements of the source.
    obtain ⟨rfl, -⟩ := List.cons.inj hcut
    have hskip : skipTotal ([] ++ [⟨"SelectMany", [arg]⟩]) ≤ maxInt64 := by
      rw [List.nil_append, hflatten]
      decide
    have hrefused := Progress.parameterTy_of_apply_error hbefore h.isValid_selectMany hin.follows hskip happly
    exact absurd (Progress.elementTy_of_run hbefore).symm hrefused.2.1
  | cons first before =>
    obtain ⟨rfl, rfl⟩ := List.cons.inj hcut
    have hs : s ∈ before ++ s :: after := by simp
    obtain ⟨own, hvalid⟩ := h.valid s hs
    have hskip : skipTotal (⟨"SelectMany", [arg]⟩ :: before ++ [s]) ≤ maxInt64 := by
      have hafter : ∀ t ∈ after, ∃ own, t.IsValid c own := fun t ht => h.valid t (by simp [ht])
      have hle := skipTotal_le_append (before ++ [s]) hafter
      rw [List.append_assoc, List.singleton_append] at hle
      rw [List.cons_append, ← List.singleton_append, skipTotal_append, hflatten, Int.zero_add]
      exact Int.le_trans hle h.skip
    obtain ⟨hown, hne, message, herror⟩ :=
      Progress.parameterTy_of_apply_error hbefore hvalid hin.follows hskip happly
    rw [h.elementTy_of_run hbefore fun hmem => h.notMem (by simp [hmem])] at hne
    exact ⟨s, hs, own, message, hown, hne, herror⟩

theorem areValid (hown : ∀ s ∈ steps, ∀ own, s.parameterTy? = some own → own = elementTy c x body) :
    c.AreValid ty (⟨"SelectMany", [arg]⟩ :: steps) := by
  refine ⟨h.isValid_selectMany, ?_⟩
  rw [elementTyAfter_selectMany h.selector h.parameter h.representable, ← h.parameter]
  apply areValid_of_forall h.notMem
  intro s hs
  obtain ⟨own, hvalid⟩ := h.valid s hs
  exact hvalid.of_parameterTy (hown s hs)

end Flattens

/-- After a flattening, a chain that is otherwise valid is accepted exactly if each of its lambdas takes the
elements of what was flattened, and is refused for the argument if one does not. These are the elements that
the selector declares if its body keeps its type when it is lowered. -/
theorem exists_parameters_after_selectMany {e : Expr} (he : e.IsChainOf ty (⟨"SelectMany", [arg]⟩ :: steps))
    (h : c.Flattens ty x body arg steps) :
    ((∃ ps, c.parameters e = .ok ps) ↔
      ∀ s ∈ steps, ∀ own, s.parameterTy? = some own → own = Flattens.elementTy c x body) ∧
    ((¬∃ ps, c.parameters e = .ok ps) →
      ∃ message, c.parameters e = .error (.invalidArgument ⟨102⟩ message)) ∧
    ∀ T, body.ty.element? = some T → (c.scope x).keepsTy body = true → Flattens.elementTy c x body = T := by
  rw [← and_assoc]
  constructor
  · rw [parameters_of_isChainOf he]
    cases hall : Progress.applyAll c 0 { elementTy := ty } (⟨"SelectMany", [arg]⟩ :: steps) with
    | ok p =>
      have hrun := Progress.Run.start.of_applyAll hall
      have hown : ∀ s ∈ steps, ∀ own, s.parameterTy? = some own → own = Flattens.elementTy c x body :=
        fun _ hs _ => h.parameterTy_of_run hrun hs
      have hps := Progress.exists_finish (Progress.exists_print_of_run hrun (h.areValid hown))
      exact ⟨⟨fun _ => hown, fun _ => hps⟩, fun hnot => absurd hps hnot⟩
    | error error =>
      obtain ⟨s, hs, own, message, hown, hne, rfl⟩ := h.parameterTy_of_applyAll_error hall
      refine ⟨⟨?_, fun hall => absurd (hall s hs own hown) hne⟩, fun _ => ⟨message, rfl⟩⟩
      rintro ⟨ps, hps⟩
      cases hps
  · intro T hT hkeeps
    rw [Flattens.elementTy, Scope.flattenedTy_of_keepsTy hkeeps, hT, Option.getD_some]

end Compiler

namespace Compiler.Flattens.Sample
open Critters InOrder.Sample

def animal : Parameter := ⟨"animal", .named "Animal"⟩

def kept : Expr := .memberOf (.parameter keeper) "Critters" (.list critter.ty)

/-- The critters of a keeper, taken for animals. -/
def asAnimals : Expr := .unary .convert kept (.queryable animal.ty)

def filteredAnimals : Step :=
  ⟨"Where", [.lambda [animal] (.binaryOf (.comparison .greater)
    (.memberOf (.parameter animal) "Age" .int32) (.ofValue (.int32 17)))]⟩

theorem inOrder : InOrder ["SelectMany", "Where"] where
  known := by decide
  last := by decide
  selectMany := by decide
  unpaged := by decide
  skip := by decide
  thenBy before name after hcut hname := by
    have hmem : name ∈ ["SelectMany", "Where"] := by simp [hcut]
    have hnone : ∀ name ∈ ["SelectMany", "Where"], name ∉ ["ThenBy", "ThenByDescending"] := by decide
    exact absurd hname (hnone name hmem)

theorem flattens {body : Expr} {s : Step} {own : Ty}
    (hr : ((asDeclared.scope keeper).lowerBody .sequence body).isRepresentable = true)
    (hs : s.IsValid asDeclared own) (hname : s.name = "Where") :
    asDeclared.Flattens keeper.ty keeper body (.lambda [keeper] body) [s] where
  selector := rfl
  parameter := rfl
  representable := hr
  valid t ht := ⟨own, List.mem_singleton.mp ht ▸ hs⟩
  inOrder := by
    rw [List.map_singleton, hname]
    exact inOrder
  skip := by
    rw [skipTotal_singleton_of_ne (by simp [hname])]
    decide

end Compiler.Flattens.Sample

open Critters InOrder.Sample Compiler.Flattens.Sample in
/-- Critters that are taken for animals are filtered as critters, and not as animals. -/
theorem Compiler.exists_parameters_after_selectMany_critters :
    asAnimals.ty.element? = some animal.ty ∧
    (∃ ps, asDeclared.parameters
      (keepers.querySteps [⟨"SelectMany", [.lambda [keeper] asAnimals]⟩, filtered]) = .ok ps) ∧
    (∃ message, asDeclared.parameters
      (keepers.querySteps [⟨"SelectMany", [.lambda [keeper] asAnimals]⟩, filteredAnimals]) =
        .error (.invalidArgument ⟨102⟩ message)) ∧
    Flattens.elementTy asDeclared keeper kept = critter.ty := by
  have hanimals : filteredAnimals.IsValid asDeclared animal.ty :=
    ⟨.predicate, rfl, _, _, _, rfl, rfl, rfl, by decide, by decide⟩
  have hr : ((asDeclared.scope keeper).lowerBody .sequence asAnimals).isRepresentable = true := by decide
  refine ⟨rfl, ?_, ?_, ?_⟩
  · refine (exists_parameters_after_selectMany (isChainOf _)
      (flattens hr isValid_filtered rfl)).1.mpr ?_
    intro s hs own hown
    rw [List.mem_singleton.mp hs] at hown
    cases hown
    decide
  · obtain ⟨haccepted, hrefused, -⟩ :=
      exists_parameters_after_selectMany (isChainOf _) (flattens hr hanimals rfl)
    apply hrefused
    intro hps
    have hsame := haccepted.mp hps filteredAnimals (.head _) animal.ty rfl
    exact absurd hsame (by decide)
  · have hkept : asDeclared.Flattens keeper.ty keeper kept (.lambda [keeper] kept) [filtered] :=
      flattens (by decide) isValid_filtered rfl
    exact (exists_parameters_after_selectMany (isChainOf _) hkept).2.2 critter.ty rfl (by decide)

end ResourceQuery
