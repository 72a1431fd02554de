import ResourceQuery.Proofs.ChainRun
import ResourceQuery.Proofs.Reports

/-! # Errors that a caller may recover from

A caller decides by the code of an error alone whether to evaluate a query locally. So every part of
the compiler has to fail with a code of the range that its kind of error has: printing reports
constructs, the checks on arguments report arguments, and the order of operators is reported as an
error of the chain. What a lambda fails with is then a matter of its shape.
-/
namespace ResourceQuery

namespace CompileError

/-- Whether the error says that the grammar has no form for one construct, or for several. -/
def isReport : CompileError → Bool
  | .unsupported .. | .aggregate _ => true
  | .invalidArgument .. | .chain .. => false

/-- The code is of the range of its kind of error. -/
def IsCoded : CompileError → Prop
  | e@(.unsupported ..) | e@(.aggregate _) => e.code.isUnsupported = true
  | .invalidArgument code _ => code.isArgument = true
  | .chain code _ => code.isChain = true

variable {error : CompileError}

theorem isUnsupported_code (h : error.isReport = true) : error.code.isUnsupported = true := by
  cases error with
  | unsupported text cause =>
    cases cause with
    | none => rfl
    | some cause => exact cause.isUnsupported_code
  | aggregate => rfl
  | invalidArgument | chain => cases h

theorem isCoded_of_isReport (h : error.isReport = true) : error.IsCoded := by
  have hcode := isUnsupported_code h
  cases error with
  | unsupported | aggregate => exact hcode
  | invalidArgument | chain => cases h

/-- The ranges have no code in common. -/
theorem IsCoded.isRecoverable_eq (h : error.IsCoded) : error.isRecoverable = error.isReport := by
  cases error with
  | unsupported | aggregate => exact h
  | invalidArgument code message | chain code message =>
    simp only [IsCoded, Code.isArgument, Code.isChain, Bool.and_eq_true, decide_eq_true_eq] at h
    have hlarge : ¬code.number < 100 := by omega
    simp [isRecoverable, CompileError.code, Code.isUnsupported, isReport, hlarge]

end CompileError

open CompileError

/-- Every error that the computation can end with has the property. -/
def FailsOnly {α : Type} (P : CompileError → Prop) (r : Except CompileError α) : Prop :=
  ∀ error, r = .error error → P error

namespace FailsOnly
variable {α β : Type} {P Q : CompileError → Prop}

theorem ok (a : α) : FailsOnly P (.ok a) := nofun

theorem error {error : CompileError} (h : P error) : FailsOnly P (.error error : Except _ α) := by
  intro error' heq
  cases heq
  exact h

theorem mono {r : Except CompileError α} (h : FailsOnly P r) (hPQ : ∀ error, P error → Q error) :
    FailsOnly Q r :=
  fun error heq => hPQ error (h error heq)

theorem bind {r : Except CompileError α} {f : α → Except CompileError β} (h : FailsOnly P r)
    (hf : ∀ a, FailsOnly P (f a)) : FailsOnly P (r >>= f) := by
  cases r with
  | ok a => exact hf a
  | error e => exact .error (h e rfl)

theorem mapM {f : α → Except CompileError β} {as : List α} (h : ∀ a ∈ as, FailsOnly P (f a)) :
    FailsOnly P (as.mapM f) := by
  induction as with
  | nil => exact .ok _
  | cons a as ih =>
    have hrest := ih fun b hb => h b (.tail _ hb)
    rw [List.mapM_cons]
    exact (h a (.head _)).bind fun _ => hrest.bind fun _ => .ok _

end FailsOnly

/-! ## Printing -/

namespace Query

theorem bare_failsOnly (t : Query) : FailsOnly (·.isReport = true) t.bare := by
  induction t using inductionOn with
  | node q ih =>
    cases q with
    | constant value ty =>
      rw [bare]
      split
      · exact .ok _
      · exact .error rfl
    | unsupported => exact .error rfl
    | member | source => exact .ok _
    | comparison op left right | logical op left right | arithmetic op left right =>
      have hl := ih left (.head _)
      have hr := ih right (.tail _ (.head _))
      exact hl.bind fun _ => hr.bind fun _ => .ok _
    | not operand | negate operand | selector operand =>
      exact (ih operand (.head _)).bind fun _ => .ok _
    | selectMany base flattened => exact ih flattened (.tail _ (.head _))
    | call function args | list args =>
      rw [bare, bareAll_eq_mapM]
      exact (FailsOnly.mapM ih).bind fun _ => .ok _
    | projection fields ty =>
      have hfields : ∀ field ∈ fields, FailsOnly (·.isReport = true) (bareField field) := by
        intro field hfield
        exact (ih field.2 (List.mem_map_of_mem hfield)).bind fun _ => .ok _
      rw [bare, bareFields_eq_mapM]
      exact (FailsOnly.mapM hfields).bind fun _ => .ok _

theorem isReport_of_error? {t : Query} {error : CompileError} (h : t.error? = some error) :
    error.isReport = true := by
  unfold error? at h
  split at h <;> cases h <;> rfl

theorem print_failsOnly (t : Query) : FailsOnly (·.isReport = true) t.print := by
  unfold print
  split
  · exact .error (isReport_of_error? ‹_›)
  · exact bare_failsOnly t

theorem print_isCoded (t : Query) : FailsOnly IsCoded t.print :=
  t.print_failsOnly.mono fun _ h => isCoded_of_isReport h

end Query

/-! ## Lambdas -/

namespace Compiler
variable {c : Compiler} {form : Form} {expected : Option Ty} {e : Expr}

/-- A malformed lambda is an argument that is not as it should be. -/
theorem validated_failsOnly (form : Form) (expected : Option Ty) (e : Expr) :
    FailsOnly (fun error => error.IsCoded ∧ error.isReport = false) (validated form expected e) := by
  have hlambda : FailsOnly (fun error => error.IsCoded ∧ error.isReport = false) (UnaryLambda.ofExpr e) := by
    unfold UnaryLambda.ofExpr
    split
    · exact .ok _
    · exact .error ⟨rfl, rfl⟩
  refine hlambda.bind fun l => ?_
  by_cases hboolean : (decide (form = .predicate) && !l.body.ty.isBoolean) = true
  · rw [if_pos hboolean]
    exact .error ⟨rfl, rfl⟩
  · rw [if_neg hboolean]
    cases expected with
    | none => exact .ok _
    | some ty =>
      dsimp only
      split
      · exact .ok _
      · exact .error ⟨rfl, rfl⟩

/-- Once its lambda is as it should be, compiling fails for constructs only. -/
theorem compile_of_validated {l : UnaryLambda} (c : Compiler) (h : validated form expected e = .ok l) :
    FailsOnly (·.isReport = true) (c.compile form expected e) := by
  have hlower : c.lower form expected e = .ok ((c.scope l.parameter).lowerBody form l.body) :=
    lower_eq_ok_iff.mpr ⟨l, h, rfl⟩
  rw [compile, hlower]
  exact Query.print_failsOnly _

theorem lower_failsOnly (c : Compiler) (form : Form) (expected : Option Ty) (e : Expr) :
    FailsOnly IsCoded (c.lower form expected e) :=
  ((validated_failsOnly form expected e).mono fun _ h => h.1).bind fun _ => .ok _

theorem exists_validated_iff : (∃ l, validated form none e = .ok l) ↔
    ∃ x body, e.unconverted = .lambda [x] body ∧ (form = .predicate → body.ty.underlying = .boolean) := by
  simp only [validated_eq_ok_iff, reduceCtorEq, IsEmpty.forall_iff, implies_true, and_true, Ty.isBoolean,
    decide_eq_true_eq]
  constructor
  · rintro ⟨l, hl, hboolean⟩
    exact ⟨l.parameter, l.body, hl, hboolean⟩
  · rintro ⟨x, body, hl, hboolean⟩
    exact ⟨⟨x, body⟩, hl, hboolean⟩

/-- Compiling fails beyond recovery exactly if the lambda is malformed. -/
theorem exists_unrecoverable_iff :
    (∃ error, c.compile form none e = .error error ∧ error.isRecoverable = false) ↔
      ¬∃ l, validated form none e = .ok l := by
  constructor
  · rintro ⟨error, herror, hunrecoverable⟩ ⟨l, hl⟩
    have hreport := compile_of_validated c hl error herror
    have hrecoverable : error.isRecoverable = true := isUnsupported_code hreport
    rw [hunrecoverable] at hrecoverable
    cases hrecoverable
  · intro hnone
    cases hv : validated form none e with
    | ok l => exact absurd ⟨l, hv⟩ hnone
    | error error =>
      obtain ⟨hcoded, hreport⟩ := validated_failsOnly form none e error hv
      refine ⟨error, ?_, hcoded.isRecoverable_eq.trans hreport⟩
      rw [compile, lower, hv]
      rfl

end Compiler

/-! ## Chains -/

namespace Progress

theorem accept_failsOnly (p : Progress) (position : Nat) (step : Step) :
    FailsOnly IsCoded (p.accept position step) := by
  intro error h
  obtain ⟨code, message, rfl, rfl | rfl⟩ := accept_eq_error h <;> exact rfl

theorem lambdaArg_failsOnly (step : Step) : FailsOnly IsCoded (lambdaArg step) := by
  unfold lambdaArg
  split
  · exact .ok _
  · exact .error rfl

theorem countArg_failsOnly (step : Step) : FailsOnly IsCoded (countArg step) := by
  unfold countArg
  split
  · split
    · exact .error rfl
    · dsimp only
      split
      · split
        · exact .ok _
        · exact .error rfl
      · exact .error rfl
  · exact .error rfl

theorem lowerArg_failsOnly (c : Compiler) (p : Progress) (form : Form) (step : Step) :
    FailsOnly IsCoded (lowerArg c p form step) :=
  (lambdaArg_failsOnly step).bind fun arg => c.lower_failsOnly _ _ arg

theorem printArg_failsOnly (c : Compiler) (p : Progress) (form : Form) (step : Step) :
    FailsOnly IsCoded (printArg c p form step) :=
  (lowerArg_failsOnly c p form step).bind fun q => q.print_isCoded

theorem perform_failsOnly (c : Compiler) (p : Progress) (step : Step) (op : QueryOp) :
    FailsOnly IsCoded (p.perform c step op) := by
  have hprint (form : Form) := printArg_failsOnly c p form step
  cases op with
  | filter => exact (lowerArg_failsOnly c p _ step).bind fun _ => .ok _
  | select | orderBy | thenBy | expand | expandShallow => exact (hprint _).bind fun _ => .ok _
  | selectMany =>
    exact (lowerArg_failsOnly c p _ step).bind fun q => q.print_isCoded.bind fun _ => .ok _
  | take => exact (countArg_failsOnly step).bind fun _ => .ok _
  | skip =>
    refine (countArg_failsOnly step).bind fun count => ?_
    dsimp only
    split
    · exact .error rfl
    · exact .ok _
  | first =>
    rw [perform]
    split
    · exact .error rfl
    · exact .ok _
  | totalCount => exact .ok _

theorem apply_failsOnly (c : Compiler) (p : Progress) (position : Nat) (step : Step) :
    FailsOnly IsCoded (p.apply c position step) :=
  (accept_failsOnly p position step).bind fun op => perform_failsOnly c p step op

theorem applyAll_failsOnly (c : Compiler) (position : Nat) (p : Progress) (steps : List Step) :
    FailsOnly IsCoded (applyAll c position p steps) := by
  induction steps generalizing position p with
  | nil => exact .ok _
  | cons step steps ih => exact (apply_failsOnly c p position step).bind fun next => ih _ next

theorem finish_failsOnly (p : Progress) : FailsOnly IsCoded p.finish := by
  unfold finish
  split
  · exact .ok _
  · exact (Query.print_isCoded _).bind fun _ => .ok _

end Progress

namespace Compiler
open Progress

theorem parameters_failsOnly (c : Compiler) (e : Expr) : FailsOnly IsCoded (c.parameters e) := by
  have hchain : FailsOnly IsCoded (chain e) := by
    unfold chain
    split
    · exact .ok _
    · exact .error rfl
  exact hchain.bind fun _ => (applyAll_failsOnly c _ _ _).bind fun p => finish_failsOnly p

end Compiler
end ResourceQuery
