import Mathlib.Algebra.Ring.Int.Defs
import ResourceQuery.Proofs.ChainRun
import ResourceQuery.Proofs.Critters
import ResourceQuery.Proofs.WellFormed

/-! # Orders of operators

A chain whose operators have valid arguments is accepted exactly if they come in an order that
parameters can express. What may come next is read off the parameters so far; these reflect which
operators have come.
-/
namespace ResourceQuery

def operatorNames : List String :=
  ["Where", "Select", "SelectMany", "OrderBy", "OrderByDescending", "ThenBy", "ThenByDescending",
    "Take", "Skip", "Expand", "ExpandShallow", "FirstLazy", "IncludeTotalCount"]

/-- The orders that parameters can express. -/
structure InOrder (names : List String) : Prop where
  known : ∀ name ∈ names, name ∈ operatorNames
  last : names.Pairwise fun earlier _ => earlier ∉ ["Select", "FirstLazy"]
  selectMany : "SelectMany" ∉ names.tail
  unpaged : names.Pairwise fun earlier later => earlier ∈ ["Take", "Skip"] →
    later ∉ ["Where", "OrderBy", "OrderByDescending", "ThenBy", "ThenByDescending"]
  skip : names.Pairwise fun earlier later => earlier = "Take" → later ≠ "Skip"
  thenBy : ∀ before name after, names = before ++ name :: after → name ∈ ["ThenBy", "ThenByDescending"] →
    ∃ earlier ∈ before, earlier ∈ ["OrderBy", "OrderByDescending"]

/-- The operator may come after these. -/
structure Follows (names : List String) (name : String) : Prop where
  known : name ∈ operatorNames
  last : ∀ earlier ∈ names, earlier ∉ ["Select", "FirstLazy"]
  selectMany : name = "SelectMany" → names = []
  unpaged : ∀ earlier ∈ names, earlier ∈ ["Take", "Skip"] →
    name ∉ ["Where", "OrderBy", "OrderByDescending", "ThenBy", "ThenByDescending"]
  skip : ∀ earlier ∈ names, earlier = "Take" → name ≠ "Skip"
  thenBy : name ∈ ["ThenBy", "ThenByDescending"] →
    ∃ earlier ∈ names, earlier ∈ ["OrderBy", "OrderByDescending"]

section
variable {names rest : List String} {name : String}

theorem inOrder_nil : InOrder [] where
  known := by simp
  last := .nil
  selectMany := by simp
  unpaged := .nil
  skip := .nil
  thenBy := by simp

theorem pairwise_snoc {α : Type} {R : α → α → Prop} {as : List α} {a : α} (h : as.Pairwise R)
    (ha : ∀ b ∈ as, R b a) : (as ++ [a]).Pairwise R := by
  refine List.pairwise_append.mpr ⟨h, List.pairwise_singleton R a, fun b hb c hc => ?_⟩
  rw [List.mem_singleton.mp hc]
  exact ha b hb

theorem InOrder.snoc (h : InOrder names) (hname : Follows names name) : InOrder (names ++ [name]) where
  known := by
    intro other hother
    rcases List.mem_append.mp hother with hother | hother
    · exact h.known other hother
    · rw [List.mem_singleton.mp hother]
      exact hname.known
  last := pairwise_snoc h.last hname.last
  selectMany := by
    cases names with
    | nil => simp
    | cons first rest =>
      have hne : "SelectMany" ≠ name := fun heq => by cases hname.selectMany heq.symm
      have htail := h.selectMany
      simp_all
  unpaged := pairwise_snoc h.unpaged hname.unpaged
  skip := pairwise_snoc h.skip hname.skip
  thenBy := by
    intro before other after hcut hother
    rcases snoc_eq_append_cons hcut with ⟨rfl, rfl, -⟩ | ⟨after', -, hcut'⟩
    · exact hname.thenBy hother
    · exact h.thenBy before other after' hcut' hother

/-- In an order that can be expressed, each operator may come after those before it. -/
theorem InOrder.follows (h : InOrder (names ++ name :: rest)) : Follows names name where
  known := h.known name (by simp)
  last := fun a ha => (List.pairwise_append.mp h.last).2.2 a ha name (by simp)
  selectMany := by
    rintro rfl
    cases names with
    | nil => rfl
    | cons first names =>
      have htail := h.selectMany
      simp at htail
  unpaged := fun a ha => (List.pairwise_append.mp h.unpaged).2.2 a ha name (by simp)
  skip := fun a ha => (List.pairwise_append.mp h.skip).2.2 a ha name (by simp)
  thenBy := h.thenBy names name rest rfl

theorem mem_operatorNames : name ∈ operatorNames ↔ ∃ op : QueryOp, name = op.name := by
  constructor
  · intro h
    have hsome : ∀ name ∈ operatorNames, (QueryOp.ofName? name).isSome = true := by decide
    obtain ⟨op, hop⟩ := Option.isSome_iff_exists.mp (hsome name h)
    exact ⟨op, QueryOp.ofName?_eq_some.mp hop⟩
  · rintro ⟨op, rfl⟩
    rcases op with _ | _ | _ | ⟨_ | _⟩ | ⟨_ | _⟩ | _ | _ | _ | _ | _ | _ <;> decide

theorem forall_notMem_pair {α : Type} {as : List α} {x y : α} :
    (∀ a ∈ as, a ∉ [x, y]) ↔ x ∉ as ∧ y ∉ as := by
  constructor
  · intro h
    exact ⟨fun hx => h x hx (by simp), fun hy => h y hy (by simp)⟩
  · rintro ⟨hx, hy⟩ a ha hmem
    rcases List.mem_pair.mp hmem with rfl | rfl
    · exact hx ha
    · exact hy ha

end

namespace Progress
variable {c : Compiler} {ty : Ty} {names : List String} {p p' : Progress} {done : List Step} {s : Step}

/-! ## What the parameters tell about the operators so far -/

/-- Which parameters are set tells which operators have come. -/
structure Reflects (names : List String) (p : Progress) : Prop where
  finished : p.finished = true ↔ "FirstLazy" ∈ names
  select : p.parameters.select.isSome = true ↔ "Select" ∈ names
  top : p.parameters.top.isSome = true ↔ "Take" ∈ names ∨ "FirstLazy" ∈ names
  skip : p.parameters.skip.isSome = true ↔ "Skip" ∈ names
  orderBy : p.parameters.orderBy ≠ [] ↔ ∃ name ∈ names, name ∈ ["OrderBy", "OrderByDescending"]

theorem Reflects.step {position : Nat} (h : p.Reflects names) (hs : p.apply c position s = .ok p') :
    p'.Reflects (names ++ [s.name]) := by
  obtain ⟨op, haccept, hperformed⟩ := apply_eq_ok_iff.mp hs
  obtain ⟨-, -, hname, hadmits⟩ := accept_eq_ok_iff.mp haccept
  have hordered : ¬p.parameters.orderBy = [] ↔ _ := h.orderBy
  rw [hname]
  cases hperformed with
  | orderBy descending =>
    cases descending <;> constructor <;>
      simp [QueryOp.name, withOrder, h.finished, h.select, h.top, h.skip]
  | thenBy descending =>
    have hsorted := h.orderBy.mp hadmits.2
    cases descending <;> constructor <;>
      simp [QueryOp.name, withOrder, h.finished, h.select, h.top, h.skip] <;> simpa using hsorted
  | _ =>
    constructor <;>
      simp [QueryOp.name, withExpansion, h.finished, h.select, h.top, h.skip, hordered]

theorem reflects_of_run (h : Run c ty done p) : p.Reflects (done.map Step.name) := by
  induction h with
  | start => constructor <;> simp
  | step _ hs ih =>
    rw [List.map_append]
    exact ih.step hs

theorem Reflects.open_iff (h : p.Reflects names) :
    (∀ earlier ∈ names, earlier ∉ ["Select", "FirstLazy"]) ↔
      p.finished = false ∧ p.parameters.select = none := by
  rw [forall_notMem_pair, ← h.select, ← h.finished, Option.not_isSome_iff_eq_none,
    Bool.not_eq_true, and_comm]

/-- While more may come, a bound on the page was given by `Take`. -/
theorem Reflects.top_eq_none_iff (h : p.Reflects names) (hf : p.finished = false) :
    p.parameters.top = none ↔ "Take" ∉ names := by
  have hfirst : "FirstLazy" ∉ names := fun hmem => by simp [h.finished.mpr hmem] at hf
  have htop := h.top
  simp only [hfirst, or_false] at htop
  rw [← htop, Option.not_isSome_iff_eq_none]

theorem Reflects.isPaged_iff (h : p.Reflects names) (hf : p.finished = false) :
    p.isPaged = false ↔ ∀ earlier ∈ names, earlier ∉ ["Take", "Skip"] := by
  rw [forall_notMem_pair, ← h.top_eq_none_iff hf, ← h.skip, isPaged, Bool.or_eq_false_iff]
  simp

theorem Reflects.follows_iff (h : p.Reflects names) (op : QueryOp) : Follows names op.name ↔
    p.finished = false ∧ p.parameters.select = none ∧ p.Admits names.length op := by
  constructor
  · intro hfollows
    obtain ⟨hf, hs⟩ := h.open_iff.mp hfollows.last
    have hunpaged (hop : op.name ∈ ["Where", "OrderBy", "OrderByDescending", "ThenBy", "ThenByDescending"]) :
        p.isPaged = false :=
      (h.isPaged_iff hf).mpr fun earlier hmem hpaged => hfollows.unpaged earlier hmem hpaged hop
    refine ⟨hf, hs, ?_⟩
    cases op with
    | filter => exact hunpaged (by decide)
    | orderBy descending => exact hunpaged (by cases descending <;> decide)
    | thenBy descending =>
      have hsorted := hfollows.thenBy (by cases descending <;> decide)
      exact ⟨hunpaged (by cases descending <;> decide), h.orderBy.mpr hsorted⟩
    | selectMany =>
      rw [hfollows.selectMany rfl]
      exact rfl
    | skip => exact (h.top_eq_none_iff hf).mpr fun hmem => hfollows.skip _ hmem rfl rfl
    | _ => trivial
  · rintro ⟨hf, hs, hadmits⟩
    refine ⟨mem_operatorNames.mpr ⟨op, rfl⟩, h.open_iff.mpr ⟨hf, hs⟩, ?_, ?_, ?_, ?_⟩
    · intro hop
      obtain rfl : op = .selectMany := QueryOp.name_injective hop
      exact List.eq_nil_of_length_eq_zero hadmits
    · intro earlier hmem hpaged hop
      have hunpaged : p.isPaged = false := by
        cases op with
        | filter | orderBy => exact hadmits
        | thenBy => exact hadmits.1
        | _ => simp [QueryOp.name] at hop
      exact (h.isPaged_iff hf).mp hunpaged earlier hmem hpaged
    · rintro earlier hmem rfl hop
      obtain rfl : op = .skip := QueryOp.name_injective hop
      exact (h.top_eq_none_iff hf).mp hadmits hmem
    · intro hop
      apply h.orderBy.mp
      cases op with
      | thenBy => exact hadmits.2
      | orderBy descending => cases descending <;> simp [QueryOp.name] at hop
      | _ => simp [QueryOp.name] at hop

/-- An operator is accepted exactly if it may come after those before it. -/
theorem Reflects.accept_iff (h : p.Reflects names) :
    (∃ op, p.accept names.length s = .ok op) ↔ Follows names s.name := by
  constructor
  · rintro ⟨op, hop⟩
    obtain ⟨hf, hs, hname, hadmits⟩ := accept_eq_ok_iff.mp hop
    rw [hname]
    exact (h.follows_iff op).mpr ⟨hf, hs, hadmits⟩
  · intro hfollows
    obtain ⟨op, hop⟩ := mem_operatorNames.mp hfollows.known
    rw [hop] at hfollows
    obtain ⟨hf, hs, hadmits⟩ := (h.follows_iff op).mp hfollows
    exact ⟨op, accept_eq_ok_iff.mpr ⟨hf, hs, hop, hadmits⟩⟩

theorem inOrder_of_run (h : Run c ty done p) : InOrder (done.map Step.name) := by
  induction h with
  | start => exact inOrder_nil
  | @step done p p' s hrun hs ih =>
    obtain ⟨op, haccept, -⟩ := apply_eq_ok_iff.mp hs
    rw [List.map_append]
    refine ih.snoc ((reflects_of_run hrun).accept_iff.mp ⟨op, ?_⟩)
    rwa [List.length_map]

end Progress

/-! ## Valid arguments -/

/-- The only argument of the step is a lambda over such elements whose body has a form in the grammar. -/
def Step.HasLambda (c : Compiler) (ty : Ty) (form : Form) (s : Step) : Prop :=
  ∃ arg x body, s.args = [arg] ∧ arg.unconverted = .lambda [x] body ∧ x.ty = ty ∧
    (form = .predicate → body.ty.isBoolean = true) ∧
    ((c.scope x).lowerBody form body).isRepresentable = true

/-- The step has the arguments that its operator takes. -/
def Step.IsValid (c : Compiler) (ty : Ty) (s : Step) : Prop :=
  match QueryOp.ofName? s.name with
  | none | some .totalCount => True
  | some .take | some .skip => ∃ n, s.count? = some n ∧ 0 ≤ n
  | some .first => s.args = []
  | some op => ∃ form, op.form? = some form ∧ s.HasLambda c ty form

theorem Step.IsValid.hasLambda {c : Compiler} {ty : Ty} {s : Step} {op : QueryOp} {form : Form}
    (h : s.IsValid c ty) (hname : s.name = op.name) (hform : op.form? = some form) :
    s.HasLambda c ty form := by
  rw [Step.IsValid, QueryOp.ofName?_eq_some.mpr hname] at h
  cases op with
  | take | skip | first | totalCount => cases hform
  | _ =>
    obtain ⟨form', hform', hlambda⟩ := h
    cases hform.symm.trans hform'
    exact hlambda

namespace Compiler

/-- The type of the elements after a step: what is flattened has elements of its own. -/
def elementTyAfter (c : Compiler) (ty : Ty) (s : Step) : Ty :=
  match QueryOp.ofName? s.name, s.args with
  | some .selectMany, [arg] => match c.lower .sequence (some ty) arg with
    | .ok q => q.ty.element?.getD ty
    | .error _ => ty
  | _, _ => ty

/-- Each step is valid for the elements that it is applied to. -/
def AreValid (c : Compiler) : Ty → List Step → Prop
  | _, [] => True
  | ty, s :: rest => s.IsValid c ty ∧ AreValid c (c.elementTyAfter ty s) rest

theorem areValid_append {c : Compiler} {ty : Ty} {steps rest : List Step} :
    c.AreValid ty (steps ++ rest) ↔
      c.AreValid ty steps ∧ c.AreValid (steps.foldl c.elementTyAfter ty) rest := by
  induction steps generalizing ty with
  | nil => simp [AreValid]
  | cons s steps ih => simp [AreValid, ih, and_assoc]

theorem AreValid.exists_isValid {c : Compiler} {ty : Ty} {steps : List Step} (h : c.AreValid ty steps) :
    ∀ s ∈ steps, ∃ own, s.IsValid c own := by
  induction steps generalizing ty with
  | nil => simp
  | cons s steps ih =>
    rw [List.forall_mem_cons]
    exact ⟨⟨ty, h.1⟩, ih h.2⟩

end Compiler

def skipTotal (steps : List Step) : Int :=
  ((steps.filter fun s => s.name == "Skip").map fun s => s.count?.getD 0).sum

theorem skipTotal_append (steps rest : List Step) :
    skipTotal (steps ++ rest) = skipTotal steps + skipTotal rest := by
  simp [skipTotal]

theorem skipTotal_singleton_of_ne {s : Step} (h : s.name ≠ "Skip") : skipTotal [s] = 0 := by
  simp [skipTotal, h]

theorem skipTotal_singleton {s : Step} (h : s.name = "Skip") : skipTotal [s] = s.count?.getD 0 := by
  simp [skipTotal, h]

theorem Step.IsValid.skipTotal_nonneg {c : Compiler} {ty : Ty} {s : Step} (h : s.IsValid c ty) :
    0 ≤ skipTotal [s] := by
  by_cases hname : s.name = "Skip"
  · have hop : QueryOp.ofName? s.name = some .skip := QueryOp.ofName?_eq_some.mpr hname
    rw [Step.IsValid, hop] at h
    obtain ⟨n, hn, hnonneg⟩ := h
    rw [skipTotal_singleton hname, hn]
    exact hnonneg
  · exact Int.le_of_eq (skipTotal_singleton_of_ne hname).symm

theorem skipTotal_le_append {c : Compiler} (steps : List Step) {rest : List Step}
    (h : ∀ s ∈ rest, ∃ ty, s.IsValid c ty) : skipTotal steps ≤ skipTotal (steps ++ rest) := by
  induction rest generalizing steps with
  | nil => exact Int.le_of_eq (by rw [List.append_nil])
  | cons s rest ih =>
    obtain ⟨ty, hs⟩ := h s (.head _)
    have hfirst := hs.skipTotal_nonneg
    have hrest := ih (steps ++ [s]) fun t ht => h t (.tail _ ht)
    rw [List.append_assoc, List.singleton_append, skipTotal_append steps [s]] at hrest
    omega

namespace Progress
variable {c : Compiler} {ty : Ty} {p p' : Progress} {done rest : List Step} {s : Step} {op : QueryOp}

theorem elementTy_of_run (h : Run c ty done p) : p.elementTy = done.foldl c.elementTyAfter ty := by
  induction h with
  | start => rfl
  | @step done p p' s _ hs ih =>
    obtain ⟨op, haccept, hperformed⟩ := apply_eq_ok_iff.mp hs
    obtain ⟨-, -, hname, -⟩ := accept_eq_ok_iff.mp haccept
    have hop := QueryOp.ofName?_eq_some.mpr hname
    rw [List.foldl_append, ← ih, List.foldl_cons, List.foldl_nil, Compiler.elementTyAfter, hop]
    cases hperformed with
    | selectMany hq =>
      obtain ⟨arg, hargs, hlower⟩ := lowerArg_eq_ok_iff.mp hq
      simp only [hargs, hlower]
    | _ => rfl

theorem skip_of_run (h : Run c ty done p) : p.parameters.skip.getD 0 = skipTotal done := by
  induction h with
  | start => rfl
  | @step done p p' s _ hs ih =>
    obtain ⟨op, haccept, hperformed⟩ := apply_eq_ok_iff.mp hs
    obtain ⟨-, -, hname, -⟩ := accept_eq_ok_iff.mp haccept
    have hother (hne : op ≠ .skip) : skipTotal [s] = 0 :=
      skipTotal_singleton_of_ne fun h => hne (QueryOp.name_injective (hname.symm.trans h))
    rw [skipTotal_append, ← ih]
    cases hperformed with
    | skip hn =>
      rw [skipTotal_singleton hname, (countArg_eq_ok_iff.mp hn).1]
      rfl
    | _ =>
      rw [hother nofun]
      exact (Int.add_zero _).symm

theorem exists_lowerArg {form : Form} (h : s.HasLambda c p.elementTy form) :
    ∃ q text, lowerArg c p form s = .ok q ∧ q.print = .ok text := by
  obtain ⟨arg, x, body, hargs, hlambda, hty, hboolean, hr⟩ := h
  have hvalid : Compiler.validated form (some p.elementTy) arg = .ok ⟨x, body⟩ :=
    Compiler.validated_eq_ok_iff.mpr ⟨hlambda, hboolean, fun _ h => by cases h; exact hty.symm⟩
  obtain ⟨text, ht⟩ := ((c.scope x).wellFormed_lowerBody form body).exists_print_iff.mpr hr
  exact ⟨_, text, lowerArg_eq_ok_iff.mpr ⟨arg, hargs, Compiler.lower_eq_ok_iff.mpr ⟨_, hvalid, rfl⟩⟩, ht⟩

theorem exists_printArg {form : Form} (h : s.HasLambda c p.elementTy form) :
    ∃ text, printArg c p form s = .ok text := by
  obtain ⟨q, text, hq, ht⟩ := exists_lowerArg h
  exact ⟨text, bind_eq_ok.mpr ⟨q, hq, ht⟩⟩

/-- An operator with valid arguments does what it is for, unless too much is skipped. -/
theorem exists_performed (hname : s.name = op.name) (hv : s.IsValid c p.elementTy)
    (hskip : op = .skip → p.parameters.skip.getD 0 + s.count?.getD 0 ≤ maxInt64) :
    ∃ p', Performed c p s op p' := by
  have hargs := hv
  rw [Step.IsValid, QueryOp.ofName?_eq_some.mpr hname] at hargs
  cases op with
  | filter =>
    obtain ⟨q, -, hq, -⟩ := exists_lowerArg (hv.hasLambda hname rfl)
    exact ⟨_, .filter hq⟩
  | selectMany =>
    obtain ⟨q, text, hq, ht⟩ := exists_lowerArg (hv.hasLambda hname rfl)
    exact ⟨_, .selectMany hq ht⟩
  | select | orderBy | thenBy | expand | expandShallow =>
    obtain ⟨text, ht⟩ := exists_printArg (hv.hasLambda hname rfl)
    constructor
    constructor
    exact ht
  | take =>
    obtain ⟨n, hn⟩ := hargs
    exact ⟨_, .take (countArg_eq_ok_iff.mpr hn)⟩
  | skip =>
    obtain ⟨n, hn⟩ := hargs
    have hle := hskip rfl
    rw [hn.1] at hle
    exact ⟨_, .skip (countArg_eq_ok_iff.mpr hn) hle⟩
  | first => exact ⟨_, .first hargs⟩
  | totalCount => exact ⟨_, .totalCount⟩

/-- The filters of valid predicates have texts. -/
theorem exists_print_of_run (h : Run c ty done p) (hv : c.AreValid ty done) :
    ∀ q ∈ p.filters, ∃ text, q.print = .ok text := by
  induction h with
  | start => simp
  | @step done p p' s hrun hs ih =>
    obtain ⟨hdone, hlast⟩ := Compiler.areValid_append.mp hv
    have hvalid : s.IsValid c p.elementTy := by
      rw [elementTy_of_run hrun]
      exact hlast.1
    obtain ⟨op, haccept, hperformed⟩ := apply_eq_ok_iff.mp hs
    obtain ⟨-, -, hname, -⟩ := accept_eq_ok_iff.mp haccept
    cases hperformed with
    | @filter q hq =>
      intro q' hq'
      rcases List.mem_append.mp hq' with hq' | hq'
      · exact ih hdone q' hq'
      · obtain ⟨q'', text, hlower, ht⟩ := exists_lowerArg (hvalid.hasLambda hname rfl)
        rw [hq] at hlower
        cases hlower
        rw [List.mem_singleton.mp hq']
        exact ⟨text, ht⟩
    | _ => exact ih hdone

theorem exists_finish (h : ∀ q ∈ p.filters, ∃ text, q.print = .ok text) : ∃ ps, p.finish = .ok ps := by
  unfold finish conjunction?
  cases hfilters : p.filters with
  | nil => exact ⟨_, rfl⟩
  | cons q qs =>
    rw [hfilters] at h
    obtain ⟨text, ht⟩ := Query.exists_print_foldl_logical_iff.mpr h
    exact ⟨_, bind_eq_ok.mpr ⟨text, ht, rfl⟩⟩

theorem exists_apply (h : Run c ty done p) (haccept : p.accept done.length s = .ok op)
    (hv : s.IsValid c p.elementTy) (hskip : skipTotal (done ++ [s]) ≤ maxInt64) :
    ∃ p', p.apply c done.length s = .ok p' := by
  obtain ⟨-, -, hname, -⟩ := accept_eq_ok_iff.mp haccept
  have hbound (hop : op = .skip) : p.parameters.skip.getD 0 + s.count?.getD 0 ≤ maxInt64 := by
    rw [skipTotal_append, ← skip_of_run h, skipTotal_singleton (by rw [hname, hop]; rfl)] at hskip
    exact hskip
  obtain ⟨p', hperformed⟩ := exists_performed hname hv hbound
  exact ⟨p', apply_eq_ok_iff.mpr ⟨op, haccept, hperformed⟩⟩

/-- A step with valid arguments is refused only for its place. -/
theorem not_inOrder_of_apply_error {error : CompileError} (h : Run c ty done p)
    (hv : c.AreValid ty (done ++ s :: rest)) (hskip : skipTotal (done ++ s :: rest) ≤ maxInt64)
    (herror : p.apply c done.length s = .error error) :
    ¬InOrder ((done ++ s :: rest).map Step.name) ∧
      ∃ code message, error = .chain code message ∧ (code = ⟨200⟩ ∨ code = ⟨201⟩) := by
  obtain ⟨-, hvalid, hrest⟩ := Compiler.areValid_append.mp hv
  rw [← elementTy_of_run h] at hvalid
  cases haccept : p.accept done.length s with
  | ok op =>
    have hle := skipTotal_le_append (done ++ [s]) hrest.exists_isValid
    rw [List.append_assoc, List.singleton_append] at hle
    obtain ⟨p', hp⟩ := exists_apply h haccept hvalid (Int.le_trans hle hskip)
    rw [hp] at herror
    cases herror
  | error error' =>
    have heq : error' = error := by
      rw [apply, haccept] at herror
      cases herror
      rfl
    refine ⟨fun hin => ?_, heq ▸ accept_eq_error haccept⟩
    rw [List.map_append, List.map_cons] at hin
    obtain ⟨op, hop⟩ := (reflects_of_run h).accept_iff.mpr hin.follows
    rw [List.length_map, haccept] at hop
    cases hop

end Progress

namespace Compiler

/-- A chain of steps with valid arguments has parameters exactly if its operators are in order, and
otherwise is refused as a chain. -/
theorem exists_parameters_iff_inOrder (c : Compiler) {e : Expr} {ty : Ty} {steps : List Step}
    (he : e.IsChainOf ty steps) (hv : c.AreValid ty steps) (hskip : skipTotal steps ≤ maxInt64) :
    ((∃ ps, c.parameters e = .ok ps) ↔ InOrder (steps.map Step.name)) ∧
    (¬InOrder (steps.map Step.name) → ∃ code message,
      c.parameters e = .error (.chain code message) ∧ (code = ⟨200⟩ ∨ code = ⟨201⟩)) := by
  rw [parameters_of_isChainOf he]
  cases hall : Progress.applyAll c 0 { elementTy := ty } steps with
  | ok p =>
    have hrun : Progress.Run c ty steps p := Progress.Run.start.of_applyAll hall
    have hin := Progress.inOrder_of_run hrun
    obtain ⟨ps, hps⟩ := Progress.exists_finish (Progress.exists_print_of_run hrun hv)
    exact ⟨⟨fun _ => hin, fun _ => ⟨ps, hps⟩⟩, fun hnot => absurd hin hnot⟩
  | error error =>
    obtain ⟨before, s, after, p, rfl, hrun, herror⟩ := Progress.Run.start.of_applyAll_error hall
    obtain ⟨hnot, code, message, rfl, hcode⟩ :=
      Progress.not_inOrder_of_apply_error hrun hv hskip herror
    refine ⟨⟨?_, fun hin => absurd hin hnot⟩, fun _ => ⟨code, message, rfl, hcode⟩⟩
    rintro ⟨ps, hps⟩
    cases hps

end Compiler

namespace InOrder.Sample
open Critters

def keeper : Parameter := ⟨"keeper", .named "Keeper"⟩

def critter : Parameter := ⟨"critter", .named "Critter"⟩

def flattened : Step :=
  ⟨"SelectMany", [.lambda [keeper] (.memberOf (.parameter keeper) "Critters" (.list critter.ty))]⟩

def filtered : Step :=
  ⟨"Where", [.lambda [critter] (.binaryOf (.comparison .greater)
    (.memberOf (.parameter critter) "Age" .int32) (.ofValue (.int32 17)))]⟩

def skipped : Step := ⟨"Skip", [.ofValue (.int32 2)]⟩

def keepers : Expr := .source keeper.ty

theorem isChainOf (steps : List Step) : (keepers.querySteps steps).IsChainOf keeper.ty steps :=
  Expr.IsChainOf.source.querySteps steps

theorem isValid_flattened : flattened.IsValid asDeclared keeper.ty :=
  ⟨.sequence, rfl, _, _, _, rfl, rfl, rfl, by decide, by decide⟩

theorem isValid_filtered : filtered.IsValid asDeclared critter.ty :=
  ⟨.predicate, rfl, _, _, _, rfl, rfl, rfl, by decide, by decide⟩

theorem isValid_skipped : skipped.IsValid asDeclared critter.ty := ⟨2, by decide, by decide⟩

end InOrder.Sample

open Critters InOrder.Sample in
theorem Compiler.exists_parameters_iff_inOrder_critters :
    InOrder ["SelectMany", "Where", "Skip"] ∧
    ∃ code message, asDeclared.parameters (keepers.querySteps [flattened, skipped, filtered]) =
      .error (.chain code message) ∧ (code = ⟨200⟩ ∨ code = ⟨201⟩) := by
  constructor
  · have hvalid : asDeclared.AreValid keeper.ty [flattened, filtered, skipped] :=
      ⟨isValid_flattened, isValid_filtered, isValid_skipped, trivial⟩
    exact (exists_parameters_iff_inOrder asDeclared (isChainOf _) hvalid
      (by decide)).1.mp ⟨_, rfl⟩
  · have hvalid : asDeclared.AreValid keeper.ty [flattened, skipped, filtered] :=
      ⟨isValid_flattened, isValid_skipped, isValid_filtered, trivial⟩
    exact (exists_parameters_iff_inOrder asDeclared (isChainOf _) hvalid
      (by decide)).2 fun h => absurd h.unpaged (by decide)

end ResourceQuery
