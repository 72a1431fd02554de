import ResourceQuery.Chain
import ResourceQuery.Proofs.Evaluation

/-! # Runs of a chain

What an expression with query operators applies to its source, when an operator may come, and what
each makes of the progress. A run is the list of the steps that were accepted, with the progress
after them; a chain that is refused has a run up to the step that is refused.
-/
namespace ResourceQuery

theorem snoc_eq_append_cons {α : Type} {xs before after : List α} {x y : α}
    (h : xs ++ [x] = before ++ y :: after) :
    (xs = before ∧ x = y ∧ after = []) ∨ ∃ rest, after = rest ++ [x] ∧ xs = before ++ y :: rest := by
  rcases List.eq_nil_or_concat after with rfl | ⟨rest, z, rfl⟩
  · obtain ⟨hxs, hx⟩ := List.append_inj' h rfl
    exact .inl ⟨hxs, by simpa using hx, rfl⟩
  · rw [List.concat_eq_append] at h ⊢
    rw [← List.cons_append, ← List.append_assoc] at h
    obtain ⟨hxs, hx⟩ := List.append_inj' h rfl
    obtain rfl : x = z := by simpa using hx
    exact .inr ⟨rest, rfl, hxs⟩

/-- The expression applies these steps to a source of elements of this type. Conversions do not
count. -/
inductive Expr.IsChainOf (ty : Ty) : Expr → List Step → Prop
  | source : IsChainOf ty (.source ty) []
  | convert {e : Expr} {steps : List Step} (target : Ty) (h : IsChainOf ty e steps) :
    IsChainOf ty (.unary .convert e target) steps
  | call {e : Expr} {steps : List Step} (method : Method) (args : List Expr) (result : Ty)
    (h : IsChainOf ty e steps) : IsChainOf ty (.call e method args result) (steps ++ [⟨method.name, args⟩])

theorem Expr.IsChainOf.ofExpr? {ty : Ty} {e : Expr} {steps : List Step} (h : e.IsChainOf ty steps)
    (later : List Step) : Chain.ofExpr? later e = some ⟨ty, steps ++ later⟩ := by
  induction h generalizing later with
  | source => rfl
  | convert target _ ih => exact ih later
  | call method args result _ ih =>
    rw [Chain.ofExpr?, ih, List.append_assoc]
    rfl

theorem Expr.isChainOf_of_ofExpr? {e : Expr} {later : List Step} {chain : Chain}
    (h : Chain.ofExpr? later e = some chain) :
    ∃ steps, chain.steps = steps ++ later ∧ e.IsChainOf chain.elementTy steps := by
  fun_induction Chain.ofExpr? later e with
  | case1 later ty =>
    cases h
    exact ⟨[], rfl, .source⟩
  | case2 later operand ty ih =>
    obtain ⟨steps, hsteps, hchain⟩ := ih h
    exact ⟨steps, hsteps, .convert ty hchain⟩
  | case3 later target method args ty ih =>
    obtain ⟨steps, hsteps, hchain⟩ := ih h
    exact ⟨steps ++ [⟨method.name, args⟩], by simp [hsteps], .call method args ty hchain⟩
  | case4 => cases h

theorem Expr.isChainOf_iff {ty : Ty} {e : Expr} {steps : List Step} :
    e.IsChainOf ty steps ↔ Chain.ofExpr? [] e = some ⟨ty, steps⟩ := by
  constructor
  · intro h
    simpa using h.ofExpr? []
  · intro h
    obtain ⟨steps', hsteps, hchain⟩ := isChainOf_of_ofExpr? h
    obtain rfl : steps = steps' := by simpa using hsteps
    exact hchain

def Expr.querySteps (e : Expr) (steps : List Step) : Expr :=
  steps.foldl (fun e s => e.queryStep s.name s.args) e

theorem Expr.IsChainOf.querySteps {ty : Ty} {e : Expr} {done : List Step} (h : e.IsChainOf ty done)
    (steps : List Step) : (e.querySteps steps).IsChainOf ty (done ++ steps) := by
  induction steps generalizing e done with
  | nil => simpa [Expr.querySteps] using h
  | cons s steps ih =>
    have hstep : (e.queryStep s.name s.args).IsChainOf ty (done ++ [s]) := h.call _ _ _
    simpa [Expr.querySteps] using ih hstep

namespace Compiler
variable {c : Compiler} {form : Form} {expected : Option Ty} {e : Expr}

/-- A lambda fits if it has one parameter, of the expected type, and the body of a predicate is
boolean. -/
theorem validated_eq_ok_iff {l : UnaryLambda} : validated form expected e = .ok l ↔
    e.unconverted = .lambda [l.parameter] l.body ∧ (form = .predicate → l.body.ty.isBoolean = true) ∧
      ∀ ty, expected = some ty → ty = l.parameter.ty := by
  have hlambda {l : UnaryLambda} :
      UnaryLambda.ofExpr e = .ok l ↔ e.unconverted = .lambda [l.parameter] l.body := by
    obtain ⟨x, body⟩ := l
    unfold UnaryLambda.ofExpr
    split <;> simp_all
  unfold validated
  simp only [bind_eq_ok, hlambda]
  constructor
  · rintro ⟨l', hl, h⟩
    split at h
    · cases h
    · rename_i hboolean
      cases expected with
      | none =>
        cases h
        exact ⟨hl, by simpa using hboolean, fun _ h => by cases h⟩
      | some ty =>
        dsimp only at h
        split at h
        · cases h
          exact ⟨hl, by simpa using hboolean, fun _ h => by cases h; assumption⟩
        · cases h
  · rintro ⟨hl, hboolean, hexpected⟩
    refine ⟨l, hl, ?_⟩
    rw [if_neg (by simpa using hboolean)]
    cases expected with
    | none => rfl
    | some ty => exact if_pos (hexpected ty rfl)

theorem lower_eq_ok_iff {q : Query} : c.lower form expected e = .ok q ↔
    ∃ l, validated form expected e = .ok l ∧ (c.scope l.parameter).lowerBody form l.body = q := by
  simp only [lower, bind_eq_ok, pure_eq_ok]

/-- The type that is expected decides whether there is a text, but not which. -/
theorem compile_of_expected {text : String} (h : c.compile form expected e = .ok text) :
    c.compile form none e = .ok text := by
  obtain ⟨q, hq, ht⟩ := bind_eq_ok.mp h
  obtain ⟨l, hl, rfl⟩ := lower_eq_ok_iff.mp hq
  obtain ⟨hlambda, hboolean, -⟩ := validated_eq_ok_iff.mp hl
  have hnone : validated form none e = .ok l :=
    validated_eq_ok_iff.mpr ⟨hlambda, hboolean, fun _ h => by cases h⟩
  exact bind_eq_ok.mpr ⟨_, lower_eq_ok_iff.mpr ⟨l, hnone, rfl⟩, ht⟩

end Compiler

def Step.count? (step : Step) : Option Int :=
  match step.args with
  | [arg] => match arg.evaluate with
    | .ok v => v.integer?
    | .error _ => none
  | _ => none

namespace Progress
variable {c : Compiler} {p : Progress} {step : Step} {form : Form}

theorem countArg_eq_ok_iff {n : Int} : countArg step = .ok n ↔ step.count? = some n ∧ 0 ≤ n := by
  rcases hargs : step.args with _ | ⟨arg, _ | ⟨arg', rest⟩⟩
  · simp [countArg, Step.count?, hargs]
  · simp only [countArg, Step.count?, hargs]
    cases arg.evaluate with
    | error error => simp
    | ok v =>
      cases hv : v.integer? with
      | none => simp [hv]
      | some m =>
        simp only [hv, Option.some.injEq]
        split
        · simp only [Except.ok.injEq]
          constructor
          · rintro rfl
            exact ⟨rfl, ‹_›⟩
          · exact And.left
        · simp only [reduceCtorEq, false_iff]
          rintro ⟨rfl, hn⟩
          contradiction
  · simp [countArg, Step.count?, hargs]

theorem lowerArg_eq_ok_iff {q : Query} : lowerArg c p form step = .ok q ↔
    ∃ arg, step.args = [arg] ∧ c.lower form (some p.elementTy) arg = .ok q := by
  have hargs : ∀ arg, lambdaArg step = .ok arg ↔ step.args = [arg] := by
    intro arg
    unfold lambdaArg
    split <;> simp_all
  simp only [lowerArg, bind_eq_ok, hargs]

theorem printArg_eq_ok_iff {text : String} : printArg c p form step = .ok text ↔
    ∃ arg, step.args = [arg] ∧ c.compile form (some p.elementTy) arg = .ok text := by
  simp only [printArg, bind_eq_ok, lowerArg_eq_ok_iff, Compiler.compile]
  constructor
  · rintro ⟨q, ⟨arg, harg, hq⟩, ht⟩
    exact ⟨arg, harg, q, hq, ht⟩
  · rintro ⟨arg, harg, q, hq, ht⟩
    exact ⟨q, ⟨arg, harg, hq⟩, ht⟩

end Progress

namespace QueryOp

def name : QueryOp → String
  | .filter => "Where"
  | .select => "Select"
  | .selectMany => "SelectMany"
  | .orderBy false => "OrderBy"
  | .orderBy true => "OrderByDescending"
  | .thenBy false => "ThenBy"
  | .thenBy true => "ThenByDescending"
  | .take => "Take"
  | .skip => "Skip"
  | .expand => "Expand"
  | .expandShallow => "ExpandShallow"
  | .first => "FirstLazy"
  | .totalCount => "IncludeTotalCount"

theorem ofName?_eq_some {text : String} {op : QueryOp} : ofName? text = some op ↔ text = op.name := by
  constructor
  · intro h
    unfold ofName? at h
    split at h <;> cases h <;> rfl
  · rintro rfl
    rcases op with _ | _ | _ | ⟨_ | _⟩ | ⟨_ | _⟩ | _ | _ | _ | _ | _ | _ <;> rfl

theorem name_injective {op op' : QueryOp} (h : op.name = op'.name) : op = op' :=
  Option.some.inj ((ofName?_eq_some.mpr rfl).symm.trans (ofName?_eq_some.mpr h))

end QueryOp

namespace Progress
variable {c : Compiler} {p p' : Progress} {position : Nat} {step : Step} {op : QueryOp}

/-! ## When an operator may come -/

/-- Nothing before the operator keeps it from coming at this place. -/
def Admits (p : Progress) (position : Nat) : QueryOp → Prop
  | .filter | .orderBy _ => p.isPaged = false
  | .thenBy _ => p.isPaged = false ∧ p.parameters.orderBy ≠ []
  | .selectMany => position = 0
  | .skip => p.parameters.top = none
  | .select | .take | .expand | .expandShallow | .first | .totalCount => True

theorem sequencing_eq_ok_iff (step : Step) :
    p.sequencing position step op = .ok () ↔ p.Admits position op := by
  cases op with
  | filter | orderBy | selectMany => simp [sequencing, Admits]
  | thenBy =>
    rw [sequencing, Admits]
    split <;> simp_all
  | skip =>
    rw [sequencing, Admits]
    cases p.parameters.top <;> simp
  | _ => simp [sequencing, Admits]

theorem sequencing_eq_error {error : CompileError} (h : p.sequencing position step op = .error error) :
    ∃ reason, error = outOfOrder step reason := by
  unfold sequencing at h
  repeat' split at h
  all_goals cases h
  all_goals exact ⟨_, rfl⟩

/-- The three ways to an answer: nothing may come any more, the name is unknown, or the place of the
operator decides. -/
theorem accept_cases (p : Progress) (position : Nat) (step : Step) :
    (p.finished = true ∨ p.parameters.select ≠ none) ∧
      (∃ reason, p.accept position step = .error (outOfOrder step reason)) ∨
    p.finished = false ∧ p.parameters.select = none ∧
      (QueryOp.ofName? step.name = none ∧ (∃ message, p.accept position step = .error (.chain ⟨200⟩ message)) ∨
        ∃ op, QueryOp.ofName? step.name = some op ∧
          p.accept position step = (p.sequencing position step op).map fun _ => op) := by
  unfold accept
  cases hf : p.finished with
  | true => exact .inl ⟨.inl rfl, _, rfl⟩
  | false =>
    cases hs : p.parameters.select with
    | some text => exact .inl ⟨.inr (by simp), _, rfl⟩
    | none =>
      refine .inr ⟨rfl, rfl, ?_⟩
      cases hn : QueryOp.ofName? step.name with
      | none => exact .inl ⟨rfl, _, rfl⟩
      | some op =>
        refine .inr ⟨op, rfl, ?_⟩
        change (p.sequencing position step op >>= fun _ => pure op) = _
        cases p.sequencing position step op <;> rfl

theorem accept_eq_ok_iff : p.accept position step = .ok op ↔ p.finished = false ∧
    p.parameters.select = none ∧ step.name = op.name ∧ p.Admits position op := by
  rw [← QueryOp.ofName?_eq_some, ← sequencing_eq_ok_iff step]
  rcases accept_cases p position step with ⟨hclosed, reason, ha⟩ | ⟨hf, hs, ⟨hn, message, ha⟩ | ⟨op', hn, ha⟩⟩
  · rw [ha]
    rcases hclosed with hf | hs <;> simp_all
  · simp [ha, hn]
  · rw [ha, hn]
    cases hq : p.sequencing position step op' with
    | error error =>
      constructor
      · intro h
        cases h
      · rintro ⟨-, -, hop, hok⟩
        cases hop
        rw [hq] at hok
        cases hok
    | ok =>
      simp only [Except.map, Except.ok.injEq, Option.some.injEq]
      constructor
      · rintro rfl
        exact ⟨hf, hs, rfl, hq⟩
      · rintro ⟨-, -, hop, -⟩
        exact hop

theorem accept_eq_error {error : CompileError} (h : p.accept position step = .error error) :
    ∃ code message, error = .chain code message ∧ (code = ⟨200⟩ ∨ code = ⟨201⟩) := by
  rcases accept_cases p position step with ⟨-, reason, ha⟩ | ⟨-, -, ⟨-, message, ha⟩ | ⟨op, -, ha⟩⟩
  · rw [ha] at h
    cases h
    exact ⟨_, _, rfl, .inr rfl⟩
  · rw [ha] at h
    cases h
    exact ⟨_, _, rfl, .inl rfl⟩
  · rw [ha] at h
    cases hq : p.sequencing position step op with
    | ok =>
      rw [hq] at h
      cases h
    | error error' =>
      obtain ⟨reason, rfl⟩ := sequencing_eq_error hq
      rw [hq] at h
      cases h
      exact ⟨_, _, rfl, .inr rfl⟩

/-! ## What an operator does -/

inductive Performed (c : Compiler) (p : Progress) (step : Step) : QueryOp → Progress → Prop
  | filter {q : Query} (hq : lowerArg c p .predicate step = .ok q) :
    Performed c p step .filter { p with filters := p.filters ++ [q] }
  | select {text : String} (ht : printArg c p .selector step = .ok text) :
    Performed c p step .select { p with parameters := { p.parameters with select := some text } }
  | selectMany {q : Query} {text : String} (hq : lowerArg c p .sequence step = .ok q)
    (ht : q.print = .ok text) :
    Performed c p step .selectMany { p with
      elementTy := q.ty.element?.getD p.elementTy
      parameters := { p.parameters with selectMany := some text } }
  | orderBy {text : String} (descending : Bool) (ht : printArg c p .value step = .ok text) :
    Performed c p step (.orderBy descending) (p.withOrder [⟨text, descending⟩])
  | thenBy {text : String} (descending : Bool) (ht : printArg c p .value step = .ok text) :
    Performed c p step (.thenBy descending) (p.withOrder (p.parameters.orderBy ++ [⟨text, descending⟩]))
  | take {count : Int} (hn : countArg step = .ok count) :
    Performed c p step .take
      { p with parameters := { p.parameters with top := some (capped count p.parameters.top) } }
  | skip {count : Int} (hn : countArg step = .ok count)
    (hle : p.parameters.skip.getD 0 + count ≤ maxInt64) :
    Performed c p step .skip
      { p with parameters := { p.parameters with skip := some (p.parameters.skip.getD 0 + count) } }
  | expand {text : String} (ht : printArg c p .value step = .ok text) :
    Performed c p step .expand (p.withExpansion text)
  | expandShallow {text : String} (ht : printArg c p .value step = .ok text) :
    Performed c p step .expandShallow (p.withExpansion (text ++ "!"))
  | first (ha : step.args = []) :
    Performed c p step .first { p with
      parameters := { p.parameters with top := some (capped 1 p.parameters.top) }
      finished := true }
  | totalCount :
    Performed c p step .totalCount { p with parameters := { p.parameters with includeTotalCount := true } }

theorem perform_eq_ok_iff : p.perform c step op = .ok p' ↔ Performed c p step op p' := by
  constructor
  · intro h
    cases op with
    | filter | select | orderBy | thenBy | take | expand | expandShallow =>
      obtain ⟨_, hx, h⟩ := bind_eq_ok.mp h
      cases h
      constructor
      exact hx
    | selectMany =>
      obtain ⟨q, hq, h⟩ := bind_eq_ok.mp h
      obtain ⟨text, ht, h⟩ := bind_eq_ok.mp h
      cases h
      exact .selectMany hq ht
    | skip =>
      obtain ⟨count, hn, h⟩ := bind_eq_ok.mp h
      by_cases hlt : maxInt64 < p.parameters.skip.getD 0 + count
      · simp [hlt, bind, Except.bind, throw, throwThe, MonadExceptOf.throw] at h
      · simp only [hlt, ↓reduceIte] at h
        cases h
        exact .skip hn (by omega)
    | first =>
      cases ha : step.args with
      | nil =>
        simp only [perform, ha] at h
        cases h
        exact .first ha
      | cons => simp [perform, ha, bind, Except.bind, throw, throwThe, MonadExceptOf.throw] at h
    | totalCount =>
      cases h
      exact .totalCount
  · intro h
    cases h with
    | filter hx | select hx | orderBy _ hx | thenBy _ hx | take hx | expand hx | expandShallow hx =>
      exact bind_eq_ok.mpr ⟨_, hx, rfl⟩
    | selectMany hq ht => exact bind_eq_ok.mpr ⟨_, hq, bind_eq_ok.mpr ⟨_, ht, rfl⟩⟩
    | @skip count hn hle =>
      have hlt : ¬maxInt64 < p.parameters.skip.getD 0 + count := by omega
      exact bind_eq_ok.mpr ⟨count, hn, by simp only [hlt, ↓reduceIte]; rfl⟩
    | first ha => simp [perform, ha]; rfl
    | totalCount => rfl

theorem apply_eq_ok_iff : p.apply c position step = .ok p' ↔
    ∃ op, p.accept position step = .ok op ∧ Performed c p step op p' := by
  simp only [apply, bind_eq_ok, perform_eq_ok_iff]

/-- The filters are all that is added in the end. -/
theorem finish_eq_ok {ps : Parameters} (h : p.finish = .ok ps) :
    ∃ filter, ps = { p.parameters with filter := filter } := by
  unfold finish at h
  split at h
  · cases h
    exact ⟨_, rfl⟩
  · obtain ⟨text, -, h⟩ := bind_eq_ok.mp h
    cases h
    exact ⟨_, rfl⟩

/-! ## Runs -/

/-- The steps so far were accepted, one after the other, and this is what they have come to. -/
inductive Run (c : Compiler) (ty : Ty) : List Step → Progress → Prop
  | start : Run c ty [] { elementTy := ty }
  | step {done : List Step} {p p' : Progress} {s : Step} (h : Run c ty done p)
    (hs : p.apply c done.length s = .ok p') : Run c ty (done ++ [s]) p'

variable {ty : Ty} {done rest : List Step}

theorem Run.of_applyAll (h : Run c ty done p) (ha : applyAll c done.length p rest = .ok p') :
    Run c ty (done ++ rest) p' := by
  induction rest generalizing done p with
  | nil =>
    cases ha
    simpa using h
  | cons s rest ih =>
    obtain ⟨q, hq, ha⟩ := bind_eq_ok.mp ha
    have hrun := ih (h.step hq) (by simpa using ha)
    simpa using hrun

/-- A chain is refused at some step, after a run of the steps before it. -/
theorem Run.of_applyAll_error {error : CompileError} (h : Run c ty done p)
    (ha : applyAll c done.length p rest = .error error) :
    ∃ before s after q, rest = before ++ s :: after ∧ Run c ty (done ++ before) q ∧
      q.apply c (done ++ before).length s = .error error := by
  induction rest generalizing done p with
  | nil => cases ha
  | cons s rest ih =>
    cases hs : p.apply c done.length s with
    | error error' =>
      rw [applyAll, hs] at ha
      cases ha
      exact ⟨[], s, rest, p, rfl, by simpa using h, by simpa using hs⟩
    | ok q =>
      rw [applyAll, hs] at ha
      change applyAll c (done.length + 1) q rest = _ at ha
      have hrest : applyAll c (done ++ [s]).length q rest = .error error := by simpa using ha
      obtain ⟨before, s', after, q', rfl, hrun, herror⟩ := ih (h.step hs) hrest
      exact ⟨s :: before, s', after, q', rfl, by simpa using hrun, by simpa using herror⟩

end Progress

namespace Compiler
open Progress
variable {c : Compiler} {e : Expr} {ty : Ty} {steps : List Step}

theorem parameters_of_isChainOf (h : e.IsChainOf ty steps) :
    c.parameters e = applyAll c 0 { elementTy := ty } steps >>= finish := by
  unfold parameters chain
  rw [Expr.isChainOf_iff.mp h]
  rfl

theorem run_of_parameters {ps : Parameters} (h : c.parameters e = .ok ps) :
    ∃ ty steps p, e.IsChainOf ty steps ∧ Run c ty steps p ∧ p.finish = .ok ps := by
  obtain ⟨chain, hchain, hps⟩ := bind_eq_ok.mp h
  obtain ⟨p, hp, hfinish⟩ := bind_eq_ok.mp hps
  have hsome : Chain.ofExpr? [] e = some chain := by
    unfold Compiler.chain at hchain
    split at hchain
    · cases hchain
      assumption
    · cases hchain
  exact ⟨_, _, p, Expr.isChainOf_iff.mpr hsome, Run.start.of_applyAll hp, hfinish⟩

end Compiler
end ResourceQuery
