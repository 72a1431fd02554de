import ResourceQuery.Proofs.ChainRun
import ResourceQuery.Proofs.Critters

/-! # What the parameters of a chain stand for

The page that the parameters ask for is what the paging operators leave of a sequence, one after
the other. The sort keys are those of the last new order and of what refines it, and the expanded
paths are those of all expansions.
-/
namespace ResourceQuery

namespace Step

def page {α : Type} (s : Step) (xs : List α) : List α :=
  if s.name = "Skip" then xs.drop (s.count?.getD 0).toNat
  else if s.name = "Take" then xs.take (s.count?.getD 0).toNat
  else if s.name = "FirstLazy" then xs.take 1
  else xs

def isOrderBy (s : Step) : Bool := s.name == "OrderBy" || s.name == "OrderByDescending"

def isThenBy (s : Step) : Bool := s.name == "ThenBy" || s.name == "ThenByDescending"

def isExpansion (s : Step) : Bool := s.name == "Expand" || s.name == "ExpandShallow"

/-- The only argument of the step is a lambda with this text. -/
def Writes (c : Compiler) (s : Step) (text : String) : Prop :=
  ∃ arg, s.args = [arg] ∧ c.compile .value none arg = .ok text

structure IsKey (c : Compiler) (s : Step) (key : OrderKey) : Prop where
  writes : s.Writes c key.expression
  descending_iff : key.descending = true ↔ "Descending".toList <:+ s.name.toList

/-- An expansion to references only is marked. -/
def Expands (c : Compiler) (s : Step) (path : String) : Prop :=
  ∃ text, s.Writes c text ∧ path = if s.name = "ExpandShallow" then text ++ "!" else text

theorem writes_of_printArg {c : Compiler} {p : Progress} {s : Step} {text : String}
    (h : Progress.printArg c p .value s = .ok text) : s.Writes c text := by
  obtain ⟨arg, harg, ht⟩ := Progress.printArg_eq_ok_iff.mp h
  exact ⟨arg, harg, Compiler.compile_of_expected ht⟩

end Step

namespace Parameters

def page {α : Type} (ps : Parameters) (xs : List α) : List α :=
  match ps.top with
  | some n => (xs.drop (ps.skip.getD 0).toNat).take n.toNat
  | none => xs.drop (ps.skip.getD 0).toNat

/-- The page is what the steps leave, and its bounds are not negative. -/
structure Pages (steps : List Step) (ps : Parameters) : Prop where
  page_eq {α : Type} (xs : List α) : steps.foldl (fun ys s => s.page ys) xs = ps.page xs
  top_nonneg (n : Int) (h : ps.top = some n) : 0 ≤ n
  skip_nonneg (n : Int) (h : ps.skip = some n) : 0 ≤ n

/-- The sort keys are those of the last new order and of the steps after it that refine it. -/
structure Sorts (c : Compiler) (steps : List Step) (ps : Parameters) : Prop where
  sinceLast {before after : List Step} {s : Step} (hsteps : steps = before ++ s :: after)
    (hs : s.isOrderBy = true) (hafter : ∀ t ∈ after, t.isOrderBy = false) :
    List.Forall₂ (Step.IsKey c) (s :: after.filter Step.isThenBy) ps.orderBy
  unsorted (h : ∀ s ∈ steps, s.isOrderBy = false) : ps.orderBy = []

/-- What the parameters of an accepted chain say about its steps. -/
structure StandFor (c : Compiler) (steps : List Step) (ps : Parameters) : Prop where
  counted : ∀ s ∈ steps, s.name ∈ ["Skip", "Take"] → ∃ n, s.count? = some n ∧ 0 ≤ n
  pages : ps.Pages steps
  sorts : ps.Sorts c steps
  expand : List.Forall₂ (Step.Expands c) (steps.filter Step.isExpansion) ps.expand

variable {c : Compiler} {done : List Step} {s : Step} {ps ps' : Parameters}

/-! ## Paging -/

theorem exists_count {p p' : Progress} {position : Nat} (hs : p.apply c position s = .ok p')
    (hpaging : s.name ∈ ["Skip", "Take"]) : ∃ n, s.count? = some n ∧ 0 ≤ n := by
  obtain ⟨op, haccept, hperformed⟩ := Progress.apply_eq_ok_iff.mp hs
  obtain ⟨-, -, hname, -⟩ := Progress.accept_eq_ok_iff.mp haccept
  rw [hname] at hpaging
  cases hperformed with
  | take hn | skip hn => exact ⟨_, Progress.countArg_eq_ok_iff.mp hn⟩
  | orderBy descending | thenBy descending =>
    cases descending <;> simp [QueryOp.name] at hpaging
  | _ => simp [QueryOp.name] at hpaging

theorem page_capped {α : Type} (ps : Parameters) (count : Int) (xs : List α) :
    { ps with top := some (Progress.capped count ps.top) }.page xs = (ps.page xs).take count.toNat := by
  unfold page
  cases ps.top with
  | none => rfl
  | some n =>
    have hmin : (min n count).toNat = min count.toNat n.toNat := by omega
    simp only [Progress.capped, hmin, List.take_take]

theorem page_skipped {α : Type} {ps : Parameters} (htop : ps.top = none) {count : Int}
    (hcount : 0 ≤ count) (hskip : 0 ≤ ps.skip.getD 0) (xs : List α) :
    { ps with skip := some (ps.skip.getD 0 + count) }.page xs = (ps.page xs).drop count.toNat := by
  have hsum : (ps.skip.getD 0 + count).toNat = (ps.skip.getD 0).toNat + count.toNat := by omega
  simp only [page, htop, Option.getD_some, hsum, List.drop_drop]

theorem Pages.capped {count : Int} (h : ps.Pages done) (hcount : 0 ≤ count)
    (hs : ∀ {α : Type} (ys : List α), s.page ys = ys.take count.toNat) :
    { ps with top := some (Progress.capped count ps.top) }.Pages (done ++ [s]) := by
  refine ⟨fun xs => ?_, fun n hn => ?_, h.skip_nonneg⟩
  · rw [List.foldl_append, h.page_eq, page_capped]
    exact hs _
  · cases hn
    have htop := h.top_nonneg
    cases ht : ps.top with
    | none => exact hcount
    | some m => exact Int.le_min.mpr ⟨htop m ht, hcount⟩

theorem Pages.skipped {count : Int} (h : ps.Pages done) (htop : ps.top = none) (hcount : 0 ≤ count)
    (hs : ∀ {α : Type} (ys : List α), s.page ys = ys.drop count.toNat) :
    { ps with skip := some (ps.skip.getD 0 + count) }.Pages (done ++ [s]) := by
  have hskip : 0 ≤ ps.skip.getD 0 := by
    cases hskip : ps.skip with
    | none => exact Int.le_refl 0
    | some m => exact h.skip_nonneg m hskip
  refine ⟨fun xs => ?_, h.top_nonneg, fun n hn => ?_⟩
  · rw [List.foldl_append, h.page_eq, page_skipped htop hcount hskip]
    exact hs _
  · cases hn
    omega

theorem Pages.kept (h : ps.Pages done) (hs : ∀ {α : Type} (ys : List α), s.page ys = ys)
    (htop : ps'.top = ps.top) (hskip : ps'.skip = ps.skip) : ps'.Pages (done ++ [s]) := by
  refine ⟨fun xs => ?_, htop ▸ h.top_nonneg, hskip ▸ h.skip_nonneg⟩
  rw [List.foldl_append, h.page_eq, page, page, htop, hskip]
  exact hs _

theorem Pages.step {p p' : Progress} {position : Nat} (h : p.parameters.Pages done)
    (hs : p.apply c position s = .ok p') : p'.parameters.Pages (done ++ [s]) := by
  obtain ⟨op, haccept, hperformed⟩ := Progress.apply_eq_ok_iff.mp hs
  obtain ⟨-, -, hname, hadmits⟩ := Progress.accept_eq_ok_iff.mp haccept
  cases hperformed with
  | take hn =>
    obtain ⟨hcount, hnonneg⟩ := Progress.countArg_eq_ok_iff.mp hn
    exact h.capped hnonneg fun ys => by simp [Step.page, hname, QueryOp.name, hcount]
  | skip hn =>
    obtain ⟨hcount, hnonneg⟩ := Progress.countArg_eq_ok_iff.mp hn
    exact h.skipped hadmits hnonneg fun ys => by simp [Step.page, hname, QueryOp.name, hcount]
  | first => exact h.capped (by decide) fun ys => by simp [Step.page, hname, QueryOp.name]
  | orderBy descending | thenBy descending =>
    refine h.kept (fun ys => ?_) rfl rfl
    cases descending <;> simp [Step.page, hname, QueryOp.name]
  | _ => exact h.kept (fun ys => by simp [Step.page, hname, QueryOp.name]) rfl rfl

/-! ## Sort keys -/

theorem descending_iff_name (descending : Bool) :
    (descending = true ↔ "Descending".toList <:+ (QueryOp.orderBy descending).name.toList) ∧
    (descending = true ↔ "Descending".toList <:+ (QueryOp.thenBy descending).name.toList) := by
  cases descending <;> decide

theorem Sorts.anew {key : OrderKey} (hs : s.isOrderBy = true) (hkey : s.IsKey c key)
    (hps : ps.orderBy = [key]) : ps.Sorts c (done ++ [s]) := by
  refine ⟨fun {before after t} hsteps ht hafter => ?_, fun h => ?_⟩
  · rcases snoc_eq_append_cons hsteps with ⟨-, rfl, rfl⟩ | ⟨rest, rfl, -⟩
    · rw [hps]
      exact .cons hkey .nil
    · have := hafter s (by simp)
      simp [hs] at this
  · have := h s (by simp)
    simp [hs] at this

theorem Sorts.refined {key : OrderKey} (h : ps.Sorts c done) (hne : ps.orderBy ≠ [])
    (hs : s.isOrderBy = false) (hthen : s.isThenBy = true) (hkey : s.IsKey c key)
    (hps : ps'.orderBy = ps.orderBy ++ [key]) : ps'.Sorts c (done ++ [s]) := by
  refine ⟨fun {before after t} hsteps ht hafter => ?_, fun hnone => ?_⟩
  · rcases snoc_eq_append_cons hsteps with ⟨-, rfl, -⟩ | ⟨rest, rfl, hdone⟩
    · simp [hs] at ht
    · have hkeys := h.sinceLast hdone ht fun t ht => hafter t (by simp [ht])
      rw [hps, List.filter_append, List.filter_singleton, hthen, ← List.cons_append]
      exact List.rel_append hkeys (.cons hkey .nil)
  · exact absurd (h.unsorted fun t ht => hnone t (by simp [ht])) hne

theorem Sorts.kept (h : ps.Sorts c done) (hs : s.isOrderBy = false) (hthen : s.isThenBy = false)
    (hps : ps'.orderBy = ps.orderBy) : ps'.Sorts c (done ++ [s]) := by
  refine ⟨fun {before after t} hsteps ht hafter => ?_, fun hnone => ?_⟩
  · rcases snoc_eq_append_cons hsteps with ⟨-, rfl, -⟩ | ⟨rest, rfl, hdone⟩
    · simp [hs] at ht
    · have hkeys := h.sinceLast hdone ht fun t ht => hafter t (by simp [ht])
      rw [hps, List.filter_append, List.filter_singleton, hthen]
      simpa using hkeys
  · rw [hps]
    exact h.unsorted fun t ht => hnone t (by simp [ht])

theorem Sorts.step {p p' : Progress} {position : Nat} (h : p.parameters.Sorts c done)
    (hs : p.apply c position s = .ok p') : p'.parameters.Sorts c (done ++ [s]) := by
  obtain ⟨op, haccept, hperformed⟩ := Progress.apply_eq_ok_iff.mp hs
  obtain ⟨-, -, hname, hadmits⟩ := Progress.accept_eq_ok_iff.mp haccept
  cases hperformed with
  | @orderBy text descending ht =>
    have hkey : s.IsKey c ⟨text, descending⟩ :=
      ⟨Step.writes_of_printArg ht, hname ▸ (descending_iff_name descending).1⟩
    refine Sorts.anew ?_ hkey rfl
    cases descending <;> simp [Step.isOrderBy, hname, QueryOp.name]
  | @thenBy text descending ht =>
    have hkey : s.IsKey c ⟨text, descending⟩ :=
      ⟨Step.writes_of_printArg ht, hname ▸ (descending_iff_name descending).2⟩
    refine h.refined hadmits.2 ?_ ?_ hkey rfl
    · cases descending <;> simp [Step.isOrderBy, hname, QueryOp.name]
    · cases descending <;> simp [Step.isThenBy, hname, QueryOp.name]
  | _ =>
    refine h.kept ?_ ?_ rfl
    · simp [Step.isOrderBy, hname, QueryOp.name]
    · simp [Step.isThenBy, hname, QueryOp.name]

/-! ## Expansions -/

theorem expand_step {p p' : Progress} {position : Nat}
    (h : List.Forall₂ (Step.Expands c) (done.filter Step.isExpansion) p.parameters.expand)
    (hs : p.apply c position s = .ok p') :
    List.Forall₂ (Step.Expands c) ((done ++ [s]).filter Step.isExpansion) p'.parameters.expand := by
  obtain ⟨op, haccept, hperformed⟩ := Progress.apply_eq_ok_iff.mp hs
  obtain ⟨-, -, hname, -⟩ := Progress.accept_eq_ok_iff.mp haccept
  rw [List.filter_append, List.filter_singleton]
  cases hperformed with
  | @expand text ht =>
    have hs : s.isExpansion = true := by simp [Step.isExpansion, hname, QueryOp.name]
    have hpath : s.Expands c text := ⟨text, Step.writes_of_printArg ht, by simp [hname, QueryOp.name]⟩
    rw [hs]
    exact List.rel_append h (.cons hpath .nil)
  | @expandShallow text ht =>
    have hs : s.isExpansion = true := by simp [Step.isExpansion, hname, QueryOp.name]
    have hpath : s.Expands c (text ++ "!") :=
      ⟨text, Step.writes_of_printArg ht, by simp [hname, QueryOp.name]⟩
    rw [hs]
    exact List.rel_append h (.cons hpath .nil)
  | orderBy descending | thenBy descending =>
    have hs : s.isExpansion = false := by
      cases descending <;> simp [Step.isExpansion, hname, QueryOp.name]
    simpa [hs, Progress.withOrder] using h
  | _ =>
    have hs : s.isExpansion = false := by simp [Step.isExpansion, hname, QueryOp.name]
    simpa [hs] using h

/-! ## All steps -/

theorem standFor_of_run {ty : Ty} {p : Progress} (h : Progress.Run c ty done p) :
    p.parameters.StandFor c done := by
  induction h with
  | start =>
    refine ⟨by simp, ⟨fun xs => rfl, ?_, ?_⟩, ⟨fun hsteps => ?_, fun _ => rfl⟩, .nil⟩
    · rintro n ⟨⟩
    · rintro n ⟨⟩
    · simp at hsteps
  | step _ hs ih =>
    refine ⟨fun t ht => ?_, ih.pages.step hs, ih.sorts.step hs, expand_step ih.expand hs⟩
    rcases List.mem_append.mp ht with ht | ht
    · exact ih.counted t ht
    · rw [List.mem_singleton.mp ht]
      exact exists_count hs

end Parameters

namespace Compiler

/-- An accepted expression is a chain, and its parameters stand for its steps: for the page that
they leave of any sequence, for the order that the last of them gave and for all expansions. -/
theorem parameters_standFor {c : Compiler} {e : Expr} {ps : Parameters} (h : c.parameters e = .ok ps) :
    ∃ ty steps, e.IsChainOf ty steps ∧ ps.StandFor c steps := by
  obtain ⟨ty, steps, p, hchain, hrun, hfinish⟩ := run_of_parameters h
  obtain ⟨filter, rfl⟩ := Progress.finish_eq_ok hfinish
  have hstand := Parameters.standFor_of_run hrun
  refine ⟨ty, steps, hchain, hstand.counted, ?_, ?_, hstand.expand⟩
  · exact ⟨hstand.pages.page_eq, hstand.pages.top_nonneg, hstand.pages.skip_nonneg⟩
  · exact ⟨hstand.sorts.sinceLast, hstand.sorts.unsorted⟩

end Compiler

namespace Parameters.Sample
open Critters

def property (name : String) (ty : Ty) : Expr := .lambda [x] (trait name ty)

def sorted : Expr :=
  (((Expr.source x.ty).queryStep "OrderBy" [property "Age" .int32]).queryStep
    "OrderByDescending" [property "Name" .string]).queryStep "ThenBy" [property "Age" .int32]

def expanded : Expr :=
  (sorted.queryStep "Expand" [property "Hat" (.named "Hat")]).queryStep
    "ExpandShallow" [property "Friends" (.list x.ty)]

/-- The first critter after five, out of at most three. -/
def paged : Expr :=
  let skipped := (expanded.queryStep "Skip" [.ofValue (.int32 2)]).queryStep "Skip"
    [.binaryOf (.arithmetic .add) (.ofValue (.int32 1)) (.ofValue (.byte 2))]
  (((Expr.unary .convert skipped (.queryable .object)).queryStep "Take" [.ofValue (.int64 4)]).queryStep
    "Take" [.ofValue (.int64 3)]).queryStep "FirstLazy" []

end Parameters.Sample

open Critters Parameters.Sample in
theorem Compiler.parameters_standFor_critters :
    asDeclared.parameters paged = .ok {
      orderBy := [⟨"Name", true⟩, ⟨"Age", false⟩]
      top := some 1
      skip := some 5
      expand := ["Hat", "Friends!"] } ∧
    ∃ ty steps, paged.IsChainOf ty steps ∧ Parameters.StandFor asDeclared steps {
      orderBy := [⟨"Name", true⟩, ⟨"Age", false⟩]
      top := some 1
      skip := some 5
      expand := ["Hat", "Friends!"] } :=
  ⟨by rfl, parameters_standFor (by rfl)⟩

end ResourceQuery
