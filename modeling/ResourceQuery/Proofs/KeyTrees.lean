import ResourceQuery.Proofs.ChainParameters
import ResourceQuery.Proofs.Critters
import ResourceQuery.Proofs.Rekeyed
import ResourceQuery.Proofs.WellFormed

/-! # What sort keys and expanded paths are

Each sort key and each expanded path of an accepted chain is the text of one value, with one exception: a
lambda that constructs a record or a tuple is lowered to a selection of its fields here too, and its text
is a list of fields.
-/
namespace ResourceQuery

namespace Query

/-- Neither the tree nor a part of it is a selection. -/
def IsSingle (q : Query) : Prop := q.Throughout fun part => part.isSelection = false

theorem isSingle_of_inner {q : Query} (h : q.Throughout IsInner) : q.IsSingle :=
  h.mono fun _ hpart => hpart.unselected

theorem items_of_print {fields : List (String × Query)} {ty : Ty} {text : String}
    (h : (projection fields ty).print = .ok text) :
    ∃ items, List.Forall₂ (fun field item => bareField field = .ok item) fields items ∧
      text = ",".intercalate items := by
  rw [print_of_isRepresentable (isRepresentable_of_print h), bare] at h
  obtain ⟨items, hitems, h⟩ := bind_eq_ok.mp h
  rw [bareFields_eq_mapM] at hitems
  cases h
  exact ⟨items, mapM_eq_ok.mp hitems, rfl⟩

end Query

namespace Step

def isSort (s : Step) : Bool := s.isOrderBy || s.isThenBy

def Takes (s : Step) (l : UnaryLambda) : Prop :=
  ∃ arg, s.args = [arg] ∧ arg.unconverted = .lambda [l.parameter] l.body

end Step

namespace Compiler
open Query
variable {c : Compiler} {l : UnaryLambda} {s : Step} {text : String}

def keyTree (c : Compiler) (l : UnaryLambda) : Query := (c.scope l.parameter).lowerBody .value l.body

/-- Whether the lambda constructs a record or a tuple. Conversions do not count. -/
def listsFields (c : Compiler) (l : UnaryLambda) : Bool :=
  match l.body.unconverted with
  | .construct ty _ _ => (c.scope l.parameter).isProjection ty
  | _ => false

theorem isSingle_keyTree (h : c.listsFields l = false) : (c.keyTree l).IsSingle := by
  apply isSingle_of_inner
  unfold listsFields at h
  unfold keyTree Scope.lowerBody
  split at h
  case h_1 ty args members hbody =>
    simp only [hbody, h]
    exact Scope.inner_lower _ _ _
  case h_2 hbody =>
    split
    case h_1 ty args members hconstruct => exact absurd hconstruct (hbody ty args members)
    case h_2 =>
      refine Scope.inner_joined (fun q hq => ?_) (fun q hq => .inl hq) rfl trivial
      obtain ⟨element, -, rfl⟩ := List.mem_map.mp hq
      exact Scope.inner_lower _ _ element
    case h_3 => exact Scope.inner_lower _ _ _

/-- A record that can be printed is a projection of single values. -/
theorem keyTree_of_listsFields (h : c.listsFields l = true) (hr : (c.keyTree l).isRepresentable = true) :
    ∃ fields ty, c.keyTree l = .projection fields ty ∧ ∀ field ∈ fields, field.2.IsSingle := by
  unfold listsFields at h
  split at h
  case h_1 ty args members hbody =>
    have hproject : c.keyTree l = (c.scope l.parameter).project l.body ty args members := by
      rw [keyTree, Scope.lowerBody, hbody]
      exact if_pos h
    rw [hproject] at hr ⊢
    refine ⟨_, ty, Scope.project_of_isRepresentable hr, fun field hfield => ?_⟩
    obtain ⟨arg, -, rfl⟩ := List.mem_map.mp hfield
    exact isSingle_of_inner (Scope.inner_lower _ _ _)
  case h_2 => cases h

/-- What the text of a sort key or of an expanded path shows. -/
structure KeyText (c : Compiler) (l : UnaryLambda) (text : String) : Prop where
  printed : (c.keyTree l).print = .ok text
  single : c.listsFields l = false → (c.keyTree l).IsSingle
  fields : c.listsFields l = true → ∃ fields ty items, c.keyTree l = .projection fields ty ∧
    (∀ field ∈ fields, field.2.IsSingle) ∧
    List.Forall₂ (fun field item => bareField field = .ok item) fields items ∧
    text = ",".intercalate items

theorem keyText_of_print (h : (c.keyTree l).print = .ok text) : c.KeyText l text := by
  refine ⟨h, isSingle_keyTree, fun hlists => ?_⟩
  obtain ⟨fields, ty, htree, hsingle⟩ := keyTree_of_listsFields hlists (isRepresentable_of_print h)
  rw [htree] at h
  obtain ⟨items, hitems, htext⟩ := items_of_print h
  exact ⟨fields, ty, items, htree, hsingle, hitems, htext⟩

theorem keyText_of_writes (h : s.Writes c text) : ∃ l, s.Takes l ∧ c.KeyText l text := by
  obtain ⟨arg, hargs, hcompile⟩ := h
  obtain ⟨q, hlower, hprint⟩ := bind_eq_ok.mp hcompile
  obtain ⟨l, hl, rfl⟩ := lower_eq_ok_iff.mp hlower
  exact ⟨l, ⟨arg, hargs, (validated_eq_ok_iff.mp hl).1⟩, keyText_of_print hprint⟩

end Compiler

namespace Parameters
variable {c : Compiler} {done : List Step} {s : Step} {ps ps' : Parameters}

/-- The keys and paths so far are texts of steps, and every step that gives one has a text. -/
structure KeysOf (c : Compiler) (done : List Step) (ps : Parameters) : Prop where
  written : ∀ s ∈ done, (s.isSort || s.isExpansion) = true → ∃ text, s.Writes c text
  orderBy : ∀ key ∈ ps.orderBy, ∃ s ∈ done, s.isSort = true ∧ s.Writes c key.expression
  expand : ∀ path ∈ ps.expand, ∃ s ∈ done, s.isExpansion = true ∧ s.Expands c path

/-- A step gives the keys and paths that were not there before. -/
theorem KeysOf.snoc (h : ps.KeysOf c done)
    (hwritten : (s.isSort || s.isExpansion) = true → ∃ text, s.Writes c text)
    (horderBy : ∀ key ∈ ps'.orderBy, key ∈ ps.orderBy ∨ s.isSort = true ∧ s.Writes c key.expression)
    (hexpand : ∀ path ∈ ps'.expand, path ∈ ps.expand ∨ s.isExpansion = true ∧ s.Expands c path) :
    ps'.KeysOf c (done ++ [s]) := by
  refine ⟨fun t ht hkey => ?_, fun key hkey => ?_, fun path hpath => ?_⟩
  · rcases List.mem_append.mp ht with ht | ht
    · exact h.written t ht hkey
    · obtain rfl := List.mem_singleton.mp ht
      exact hwritten hkey
  · rcases horderBy key hkey with hkey | hkey
    · obtain ⟨t, ht, hwrites⟩ := h.orderBy key hkey
      exact ⟨t, List.mem_append_left _ ht, hwrites⟩
    · exact ⟨s, by simp, hkey⟩
  · rcases hexpand path hpath with hpath | hpath
    · obtain ⟨t, ht, hexpands⟩ := h.expand path hpath
      exact ⟨t, List.mem_append_left _ ht, hexpands⟩
    · exact ⟨s, by simp, hpath⟩

theorem KeysOf.step {p p' : Progress} {position : Nat} (h : p.parameters.KeysOf c done)
    (hs : p.apply c position s = .ok p') : p'.parameters.KeysOf c (done ++ [s]) := by
  obtain ⟨op, haccept, hperformed⟩ := Progress.apply_eq_ok_iff.mp hs
  obtain ⟨-, -, hname, -⟩ := Progress.accept_eq_ok_iff.mp haccept
  cases hperformed with
  | @orderBy text descending ht =>
    have hwrites := Step.writes_of_printArg ht
    have hsort : s.isSort = true := by
      cases descending <;> simp [Step.isSort, Step.isOrderBy, hname, QueryOp.name]
    refine h.snoc (fun _ => ⟨text, hwrites⟩) (fun key hkey => ?_) fun path hpath => .inl hpath
    obtain rfl := List.mem_singleton.mp hkey
    exact .inr ⟨hsort, hwrites⟩
  | @thenBy text descending ht =>
    have hwrites := Step.writes_of_printArg ht
    have hsort : s.isSort = true := by
      cases descending <;> simp [Step.isSort, Step.isThenBy, hname, QueryOp.name]
    refine h.snoc (fun _ => ⟨text, hwrites⟩) (fun key hkey => ?_) fun path hpath => .inl hpath
    rcases List.mem_append.mp hkey with hkey | hkey
    · exact .inl hkey
    · obtain rfl := List.mem_singleton.mp hkey
      exact .inr ⟨hsort, hwrites⟩
  | @expand text ht | @expandShallow text ht =>
    have hwrites := Step.writes_of_printArg ht
    have hexpansion : s.isExpansion = true := by simp [Step.isExpansion, hname, QueryOp.name]
    refine h.snoc (fun _ => ⟨text, hwrites⟩) (fun key hkey => .inl hkey) fun path hpath => ?_
    rcases List.mem_append.mp hpath with hpath | hpath
    · exact .inl hpath
    · obtain rfl := List.mem_singleton.mp hpath
      exact .inr ⟨hexpansion, _, hwrites, by simp [hname, QueryOp.name]⟩
  | _ =>
    have hother : (s.isSort || s.isExpansion) = false := by
      simp [Step.isSort, Step.isOrderBy, Step.isThenBy, Step.isExpansion, hname, QueryOp.name]
    refine h.snoc (fun hkey => ?_) (fun key hkey => .inl hkey) fun path hpath => .inl hpath
    rw [hother] at hkey
    cases hkey

theorem keysOf_of_run {ty : Ty} {p : Progress} (h : Progress.Run c ty done p) : p.parameters.KeysOf c done := by
  induction h with
  | start => exact ⟨by simp, by simp, by simp⟩
  | step _ hs ih => exact ih.step hs

end Parameters

namespace Compiler

/-- Every lambda that an accepted chain sorts by or expands is lowered to a single value, or to a list of
fields exactly if it constructs a record or a tuple; and the sort keys and expanded paths are the texts of
these trees. -/
theorem keys_of_parameters {c : Compiler} {e : Expr} {ps : Parameters} (h : c.parameters e = .ok ps) :
    ∃ ty steps, e.IsChainOf ty steps ∧
      (∀ s ∈ steps, (s.isSort || s.isExpansion) = true → ∃ l text, s.Takes l ∧ c.KeyText l text) ∧
      (∀ key ∈ ps.orderBy, ∃ s ∈ steps, s.isSort = true ∧
        ∃ l, s.Takes l ∧ c.KeyText l key.expression) ∧
      ∀ path ∈ ps.expand, ∃ s ∈ steps, s.isExpansion = true ∧
        ∃ l text, s.Takes l ∧ c.KeyText l text ∧
          path = if s.name = "ExpandShallow" then text ++ "!" else text := by
  obtain ⟨ty, steps, p, hchain, hrun, hfinish⟩ := run_of_parameters h
  obtain ⟨filter, rfl⟩ := Progress.finish_eq_ok hfinish
  have hkeys := Parameters.keysOf_of_run hrun
  refine ⟨ty, steps, hchain, fun s hs hkey => ?_, fun key hkey => ?_, fun path hpath => ?_⟩
  · obtain ⟨text, hwrites⟩ := hkeys.written s hs hkey
    obtain ⟨l, hl, htext⟩ := keyText_of_writes hwrites
    exact ⟨l, text, hl, htext⟩
  · obtain ⟨s, hs, hsort, hwrites⟩ := hkeys.orderBy key hkey
    exact ⟨s, hs, hsort, keyText_of_writes hwrites⟩
  · obtain ⟨s, hs, hexpansion, text, hwrites, hpath⟩ := hkeys.expand path hpath
    obtain ⟨l, hl, htext⟩ := keyText_of_writes hwrites
    exact ⟨s, hs, hexpansion, l, text, hl, htext, hpath⟩

end Compiler

namespace Parameters.Sample
open Critters

/-- The name and the age of a critter in one record. -/
def summary : UnaryLambda := ⟨x, .recordOf "Summary" [("Label", name), ("Years", age)]⟩

def years : UnaryLambda := ⟨x, age⟩

def sortedBy (l : UnaryLambda) : Expr :=
  ((Expr.source x.ty).queryStep "OrderBy" [.lambda [l.parameter] l.body]).queryStep
    "ExpandShallow" [property "Hat" (.named "Hat")]

end Parameters.Sample

open Critters Parameters.Sample in
/-- A record to sort by is listed with its fields, where one value is just this value. -/
theorem Compiler.keys_of_parameters_critters :
    asDeclared.listsFields summary = true ∧ asDeclared.listsFields years = false ∧
    asDeclared.parameters (sortedBy summary) = .ok {
      orderBy := [⟨"Name as Label,Age as Years", false⟩]
      expand := ["Hat!"] } ∧
    asDeclared.parameters (sortedBy years) = .ok {
      orderBy := [⟨"Age", false⟩]
      expand := ["Hat!"] } ∧
    (∃ l, asDeclared.KeyText l "Name as Label,Age as Years") ∧ ∃ l, asDeclared.KeyText l "Age" := by
  have hsummary : asDeclared.parameters (sortedBy summary) = .ok {
      orderBy := [⟨"Name as Label,Age as Years", false⟩]
      expand := ["Hat!"] } := by rfl
  have hage : asDeclared.parameters (sortedBy years) = .ok {
      orderBy := [⟨"Age", false⟩]
      expand := ["Hat!"] } := by rfl
  obtain ⟨_, _, -, -, hlisted, -⟩ := keys_of_parameters hsummary
  obtain ⟨_, _, -, -, hvalued, -⟩ := keys_of_parameters hage
  obtain ⟨_, -, -, l, -, hl⟩ := hlisted _ (.head _)
  obtain ⟨_, -, -, k, -, hk⟩ := hvalued _ (.head _)
  exact ⟨rfl, rfl, hsummary, hage, ⟨l, hl⟩, k, hk⟩

end ResourceQuery
