import ResourceQuery.Proofs.Critters
import ResourceQuery.Proofs.Meaning
import ResourceQuery.Proofs.Rekeyed
import ResourceQuery.Proofs.Visits

/-! # Where the paths of a query come from

Each path of a tree without markers belongs to a chain of accesses on the parameter of the lambda,
and its segments are the mapped names and the keys of this chain. Every member that the mapping
decides about is mapped.
-/
namespace ResourceQuery

/-- Whether a member is one more access of a chain. -/
def Scope.continuesPath (declaring : Ty) (name : String) : Bool :=
  match nullableMember? declaring name with
  | some .value => true
  | some .hasValue => false
  | none => asksMapping declaring name

namespace Expr

def isAccess : Expr → Bool
  | .parameter _ => true
  | .member target declaring name _ => Scope.continuesPath declaring name && target.isAccess
  | .unary .convert operand _ => operand.isAccess
  | .index target _ _ => target.isAccess
  | _ => false

def orAccesses (e : Expr) (below : List Expr) : List Expr := if e.isAccess then [e] else below

mutual
/-- The longest chains of accesses in the order of their paths: what is searched for in a text
stands before the text. -/
def accesses : Expr → List Expr
  | .parameter p => [.parameter p]
  | .constant .. | .staticMember .. | .source _ => []
  | .lambda _ body => body.accesses
  | .member target declaring name ty => (Expr.member target declaring name ty).orAccesses target.accesses
  | .unary op operand ty => (Expr.unary op operand ty).orAccesses operand.accesses
  | .binary _ left right _ => left.accesses ++ right.accesses
  | .call target method args _ =>
    if method.name = "Contains" then accessesOf args ++ target.accesses
    else target.accesses ++ accessesOf args
  | .index target args ty =>
    (Expr.index target args ty).orAccesses (target.accesses ++ accessesOf args)
  | .staticCall _ args _ | .construct _ args _ | .list _ args => accessesOf args
  | .conditional test ifTrue ifFalse _ => test.accesses ++ ifTrue.accesses ++ ifFalse.accesses
def accessesOf : List Expr → List Expr
  | [] => []
  | e :: rest => e.accesses ++ accessesOf rest
end

theorem accessesOf_eq_flatMap (es : List Expr) : accessesOf es = es.flatMap accesses := by
  induction es with
  | nil => rfl
  | cons e es ih => rw [accessesOf, List.flatMap_cons, ih]

theorem isOpen_of_isAccess : (e : Expr) → e.isAccess = true → e.isOpen = true
  | .parameter _, _ => rfl
  | .member target _ _ _, h => isOpen_of_isAccess target (Bool.and_eq_true_iff.mp h).2
  | .unary .convert operand _, h => isOpen_of_isAccess operand h
  | .index target args _, h => by rw [isOpen, isOpen_of_isAccess target h, Bool.true_or]

theorem accesses_of_isAccess {e : Expr} (h : e.isAccess = true) : e.accesses = [e] := by
  cases e with
  | parameter => rfl
  | member | unary | index => exact if_pos h
  | _ => cases h

theorem mem_accesses {a e : Expr} (h : a ∈ e.accesses) :
    (a = e ∧ e.isAccess = true) ∨ ∃ c ∈ e.children, a ∈ c.accesses := by
  by_cases he : e.isAccess = true
  · rw [accesses_of_isAccess he, List.mem_singleton] at h
    exact .inl ⟨h, he⟩
  · right
    cases e with
    | parameter => exact absurd rfl he
    | constant | staticMember | source => cases h
    | call =>
      rw [accesses] at h
      split at h <;> simpa [accessesOf_eq_flatMap, children, or_comm] using h
    | _ => simpa [accesses, orAccesses, he, accessesOf_eq_flatMap, children, or_assoc] using h

theorem isOpen_of_mem_accesses {a e : Expr} (h : a ∈ e.accesses) : e.isOpen = true := by
  induction e using inductionOn with
  | node e ih =>
    rcases mem_accesses h with ⟨-, he⟩ | ⟨c, hc, ha⟩
    · exact isOpen_of_isAccess e he
    · exact isOpen_of_child hc (ih c hc ha)

theorem accesses_of_closed {e : Expr} (ho : e.isOpen = false) : e.accesses = [] := by
  refine List.eq_nil_iff_forall_not_mem.mpr fun a ha => ?_
  rw [isOpen_of_mem_accesses ha] at ho
  cases ho

theorem isOpen_unconverted (e : Expr) : e.unconverted.isOpen = e.isOpen := by
  fun_induction unconverted e with
  | case1 operand ty ih => exact ih
  | case2 => rfl

theorem mem_unconverted_parts {node e : Expr} (hn : ∀ operand ty, node ≠ .unary .convert operand ty)
    (h : node ∈ e :: e.parts) : node ∈ e.unconverted :: e.unconverted.parts := by
  fun_induction unconverted e with
  | case1 operand ty ih =>
    rcases List.mem_cons.mp h with rfl | h
    · exact absurd rfl (hn operand ty)
    · exact ih h
  | case2 => exact h

end Expr

namespace Query

mutual
def paths : Query → List (List String)
  | .constant .. | .source _ => []
  | .member path _ => [path]
  | .comparison _ left right | .logical _ left right | .arithmetic _ left right _
  | .selectMany left right _ => left.paths ++ right.paths
  | .not operand | .negate operand | .selector operand => operand.paths
  | .call _ args _ => pathsOf args
  | .projection fields _ => fieldPaths fields
  | .list elements _ => pathsOf elements
  | .unsupported _ _ nested _ => pathsOf nested
def pathsOf : List Query → List (List String)
  | [] => []
  | q :: rest => q.paths ++ pathsOf rest
def fieldPaths : List (String × Query) → List (List String)
  | [] => []
  | (_, q) :: rest => q.paths ++ fieldPaths rest
end

theorem pathsOf_eq_flatMap (qs : List Query) : pathsOf qs = qs.flatMap paths := by
  induction qs with
  | nil => rfl
  | cons q qs ih => rw [pathsOf, List.flatMap_cons, ih]

theorem fieldPaths_eq_flatMap (fields : List (String × Query)) :
    fieldPaths fields = (Entries.values fields).flatMap paths := by
  induction fields with
  | nil => rfl
  | cons field fields ih =>
    rw [fieldPaths, ih, Entries.values, Entries.values, List.map_cons, List.flatMap_cons]

end Query

theorem position_eq_last_iff {sig : Signature} (h : sig ∈ allowList) :
    sig.position = .last ↔ sig.member = "Contains" := by
  revert sig
  decide

namespace Scope
variable {s : Scope}

/-- The paths of the tree are those of the chains in the expression, one after the other. -/
def Reads (s : Scope) (e : Expr) (q : Query) : Prop := List.Forall₂ s.Path e.accesses q.paths

theorem Path.isAccess {e : Expr} {names : List String} (h : s.Path e names) : e.isAccess = true := by
  induction h with
  | parameter => rfl
  | member ha _ ih => simp [Expr.isAccess, continuesPath, nullableMember?_of_asksMapping ha, ha, ih]
  | unwrap hn _ ih => simp [Expr.isAccess, continuesPath, hn, ih]
  | convert _ ih | entry _ _ ih => exact ih

theorem Path.reads {e : Expr} {names : List String} {ty : Ty} (h : s.Path e names) :
    s.Reads e (.member names ty) := by
  rw [Reads, Expr.accesses_of_isAccess h.isAccess]
  exact .cons h .nil

theorem reads_of_closed {e : Expr} {q : Query} (ho : e.isOpen = false) (hq : q.paths = []) :
    s.Reads e q := by
  rw [Reads, Expr.accesses_of_closed ho, hq]
  exact .nil

/-- A wrapper that filtering does not see has the paths of what it wraps. -/
theorem reads_wrapper_iff {wrapper e : Expr} {q : Query}
    (ha : wrapper.accesses = wrapper.orAccesses e.accesses) (hw : wrapper.isAccess = e.isAccess)
    (hpath : ∀ names, s.Path wrapper names ↔ s.Path e names) : s.Reads wrapper q ↔ s.Reads e q := by
  rw [Reads, Reads, ha, Expr.orAccesses, hw]
  split
  · rename_i h
    rw [Expr.accesses_of_isAccess h]
    simp only [List.forall₂_cons_left_iff, hpath]
  · rfl

theorem reads_convert_iff {operand : Expr} {ty : Ty} {q : Query} :
    s.Reads (.unary .convert operand ty) q ↔ s.Reads operand q := by
  refine reads_wrapper_iff rfl rfl fun names => ⟨fun h => ?_, .convert⟩
  cases h
  assumption

theorem reads_unwrap_iff {target : Expr} {declaring : Ty} {name : String} {ty : Ty} {q : Query}
    (hn : nullableMember? declaring name = some .value) :
    s.Reads (.member target declaring name ty) q ↔ s.Reads target q := by
  have hw : (Expr.member target declaring name ty).isAccess = target.isAccess := by
    simp [Expr.isAccess, continuesPath, hn]
  refine reads_wrapper_iff rfl hw fun names => ⟨fun h => ?_, .unwrap hn⟩
  cases h with
  | member ha => rw [nullableMember?_of_asksMapping ha] at hn; cases hn
  | unwrap _ ht => exact ht

theorem reads_unconverted_iff {e : Expr} {q : Query} : s.Reads e.unconverted q ↔ s.Reads e q := by
  fun_induction Expr.unconverted e with
  | case1 operand ty ih => exact ih.trans reads_convert_iff.symm
  | case2 => rfl

theorem reads_all {es : List Expr} {qs : List Query} (hlen : es.length = qs.length)
    (h : ∀ {a b}, (a, b) ∈ es.zip qs → s.Reads a b) :
    List.Forall₂ s.Path (es.flatMap Expr.accesses) (qs.flatMap Query.paths) :=
  List.rel_flatMap (List.forall₂_iff_zip.mpr ⟨hlen, h⟩) fun _ _ h => h

/-- By induction on the rules: a path is one of a chain, and every other node has the paths of its
parts in the order of their chains. -/
theorem Lowers.reads {n : Nat} {e : Expr} {q : Query} (h : Lowers s n e q) : s.Reads e q := by
  induction h with
  | constant | source => exact .nil
  | folded ho => exact reads_of_closed ho rfl
  | parameter hp => exact (Path.parameter hp).reads
  | path ho ha hm ht => exact (Path.member ha (ht.path_of rfl)).reads
  | entry ht hkt hc hk hp ho hl => exact (Path.entry (eval_of_entryKey hk) (hl.path_of rfl)).reads
  | convert _ _ ih => exact reads_convert_iff.mpr ih
  | unwrap _ hn _ ih => exact (reads_unwrap_iff hn).mpr ih
  | hasValue _ hn _ ih =>
    rw [Reads, Expr.accesses, Expr.orAccesses, if_neg (by simp [Expr.isAccess, continuesPath, hn]),
      Query.paths, Query.paths, List.append_nil]
    exact ih
  | property _ hn hr _ _ ih =>
    rw [Reads, Expr.accesses, Expr.orAccesses,
      if_neg (by simp [Expr.isAccess, continuesPath, hn, asksMapping, hr])]
    simpa [Signature.arrange, Query.paths, Query.pathsOf, Reads] using ih
  | not _ _ ih | negate _ _ ih => exact ih
  | comparison _ _ _ _ ihl ihr | logical _ _ _ ihl ihr | arithmetic _ _ _ _ _ ihl ihr =>
    exact List.rel_append ihl ihr
  | concat _ _ _ _ _ ihl ihr =>
    rw [Reads, Query.paths, Query.pathsOf, Query.pathsOf, Query.pathsOf, List.append_nil]
    exact List.rel_append ihl ihr
  | method _ _ hl _ hlen _ ih iha =>
    obtain ⟨hmem, -, hname, -⟩ := mem_allowList_of_lookup hl
    have hargs := reads_all hlen iha
    rw [Reads, Expr.accesses, Query.paths, Query.pathsOf_eq_flatMap, Expr.accessesOf_eq_flatMap,
      Signature.arrange]
    simp only [position_eq_last_iff hmem, hname]
    split
    · simpa [*] using List.rel_append hargs ih
    · simpa [*] using List.rel_append ih hargs
  | staticMethod _ _ _ hlen _ iha | list _ hlen _ iha =>
    rw [Reads, Expr.accesses, Query.paths, Query.pathsOf_eq_flatMap, Expr.accessesOf_eq_flatMap]
    exact reads_all hlen iha

theorem reads_lower {n : Nat} {e : Expr} (h : (s.lower n e).isRepresentable = true) :
    s.Reads e (s.lower n e) :=
  (lowers_of_isRepresentable h).reads

theorem reads_map_lower {n : Nat} {es : List Expr}
    (h : ∀ e ∈ es, (s.lower n e).isRepresentable = true) :
    List.Forall₂ s.Path (es.flatMap Expr.accesses) ((es.map (s.lower n)).flatMap Query.paths) := by
  refine reads_all (List.length_map _).symm fun hab => ?_
  obtain ⟨ha, rfl⟩ := mem_zip_map.mp hab
  exact reads_lower (h _ ha)

/-- By induction on the levels: a member that the mapping decides about is a path, and every open
part of a node without markers is lowered. -/
theorem mapped_of_part {n : Nat} {e target : Expr} {declaring : Ty} {name : String} {ty : Ty}
    (h : (s.lower n e).isRepresentable = true) (hp : .member target declaring name ty ∈ e :: e.parts)
    (ho : target.isOpen = true) (hn : nullableMember? declaring name = none)
    (hr : Receiver.of? declaring = none) : (s.mapping.property declaring name).mapped = true := by
  induction n generalizing e with
  | zero => cases h
  | succ n ih =>
    rcases List.mem_cons.mp hp with rfl | hp
    · have hlowers := lowers_of_isRepresentable h
      generalize s.lower (n + 1) _ = q at hlowers
      cases hlowers with
      | folded hclosed => cases hclosed.symm.trans ho
      | path _ _ hm => exact hm
      | unwrap _ hv => cases hn.symm.trans hv
      | hasValue _ hv => cases hn.symm.trans hv
      | property _ _ hv => cases hr.symm.trans hv
    · obtain ⟨c, hc, hpart⟩ := Expr.mem_parts_iff.mp hp
      have hopen : c.isOpen = true := Expr.isOpen_of_part hpart ho
      rcases visited_of_isRepresentable h (Expr.isOpen_of_child hc hopen) hc with hv | ⟨_, k, hrole, -⟩
      · exact ih (isRepresentable_visited h hv) hpart
      · cases hopen.symm.trans (index_of_role_entry hrole).2

/-! ## Bodies of lambdas -/

/-- The root of a body without markers is lowered as any node, or it is left out and all its parts
are lowered. -/
theorem isRepresentable_of_lowerBody {form : Form} {body : Expr}
    (h : (s.lowerBody form body).isRepresentable = true) :
    (s.lower (s.options.maxDepth + 1) body).isRepresentable = true ∨
      ((∀ target declaring name ty, body.unconverted ≠ .member target declaring name ty) ∧
        ∀ c ∈ body.unconverted.children, (s.lower s.options.maxDepth c).isRepresentable = true) := by
  unfold lowerBody at h
  split at h
  · rename_i ty args members hbody
    split at h
    · refine .inr ⟨by simp [hbody], ?_⟩
      rw [hbody]
      exact fun c hc => isRepresentable_of_map_lower (any_isUnsupported_of_project h) hc
    · exact .inl (isRepresentable_of_lowerValue h)
  · rename_i ty elements hbody
    split at h
    · exact .inl (isRepresentable_of_lowerValue h)
    · refine .inr ⟨by simp [hbody], ?_⟩
      rw [hbody]
      exact fun c hc => isRepresentable_of_map_lower (any_isUnsupported_of_joined h) hc
  · exact .inl (isRepresentable_of_lowerValue h)

theorem reads_lowerValue {form : Form} {body : Expr}
    (h : (s.lowerValue form body).isRepresentable = true) : s.Reads body (s.lowerValue form body) := by
  have hreads := reads_lower (isRepresentable_of_lowerValue h)
  cases form <;> exact hreads

theorem reads_project {body : Expr} {ty : Ty} {args : List Expr} {members : Option (List String)}
    (h : (s.project body ty args members).isRepresentable = true) :
    List.Forall₂ s.Path
      ((Entries.values (Entries.ofPairs ((s.fieldNames ty args.length members).zip args))).flatMap
        Expr.accesses) (s.project body ty args members).paths := by
  have heq := project_of_isRepresentable h
  rw [heq] at h ⊢
  generalize Entries.ofPairs ((s.fieldNames ty args.length members).zip args) = fields at h ⊢
  have hvalues : Entries.values (fields.map (Prod.map id (s.lower s.options.maxDepth))) =
      (Entries.values fields).map (s.lower s.options.maxDepth) := by
    simp [Entries.values]
  rw [Query.paths, Query.fieldPaths_eq_flatMap, hvalues]
  refine reads_map_lower fun e he => Query.isRepresentable_child h ?_
  rw [Query.children, hvalues]
  exact List.mem_map_of_mem he

/-- A construction that is no projection is lowered only if it is closed. -/
theorem Lowers.isOpen_of_construct {n : Nat} {e : Expr} {q : Query} (h : Lowers s n e q) {ty : Ty}
    {args : List Expr} {members : Option (List String)} (he : e.unconverted = .construct ty args members) :
    e.isOpen = false := by
  induction h with
  | folded ho => exact ho
  | convert _ _ ih => exact ih he
  | _ => cases he

theorem isOpen_of_shown {body part : Expr} (h : part ∈ s.shown body) (ho : part.isOpen = true) :
    body.isOpen = true := by
  rw [← Expr.isOpen_unconverted]
  unfold shown at h
  split at h
  · rename_i ty args members hbody
    obtain ⟨pair, hpair, rfl⟩ := List.mem_map.mp h
    rw [hbody]
    exact Expr.isOpen_of_child (List.of_mem_zip (Entries.mem_of_mem_ofPairs hpair)).2 ho
  · rw [List.mem_singleton.mp h] at ho
    exact ho

theorem reads_lowerBody {form : Form} {body : Expr} (h : (s.lowerBody form body).isRepresentable = true) :
    List.Forall₂ s.Path ((s.shown body).flatMap Expr.accesses) (s.lowerBody form body).paths := by
  cases hbody : body.unconverted with
  | construct ty args members =>
    simp only [lowerBody, hbody] at h ⊢
    split at h
    · rename_i hproj
      simp only [shown, hbody, hproj, ↓reduceIte]
      exact reads_project h
    · rw [if_neg ‹_›]
      have hreads := reads_lowerValue h
      have hclosed := (lowers_of_isRepresentable (isRepresentable_of_lowerValue h)).isOpen_of_construct hbody
      have hnone : (s.shown body).flatMap Expr.accesses = [] := by
        refine List.flatMap_eq_nil_iff.mpr fun part hpart => Expr.accesses_of_closed ?_
        exact Bool.eq_false_iff.mpr fun ho => by cases hclosed.symm.trans (isOpen_of_shown hpart ho)
      rw [Reads, Expr.accesses_of_closed hclosed] at hreads
      rw [hnone]
      exact hreads
  | list ty elements =>
    simp only [lowerBody, shown, hbody] at h ⊢
    split at h
    · rw [if_pos ‹_›, List.flatMap_singleton, ← hbody]
      exact reads_unconverted_iff.mpr (reads_lowerValue h)
    · rw [if_neg ‹_›, List.flatMap_singleton, joined_of_isRepresentable h, Expr.accesses, Query.paths,
        Expr.accessesOf_eq_flatMap, Query.pathsOf_eq_flatMap]
      refine reads_map_lower fun e he => ?_
      exact isRepresentable_of_map_lower (any_isUnsupported_of_joined h) he
  | _ =>
    simp only [lowerBody, shown, hbody] at h ⊢
    rw [List.flatMap_singleton, ← hbody]
    exact reads_unconverted_iff.mpr (reads_lowerValue h)

/-- Every member of the body that has to be mapped is mapped, but for those in closed parts, and the
paths of the tree are those of the chains in the body, with the names that the mapping gives to
members and the texts of keys for segments. -/
theorem paths_lowerBody (s : Scope) (form : Form) (body : Expr)
    (h : (s.lowerBody form body).isRepresentable = true) :
    (∀ target declaring name ty, .member target declaring name ty ∈ body :: body.parts →
      target.isOpen = true → nullableMember? declaring name = none → Receiver.of? declaring = none →
      (s.mapping.property declaring name).mapped = true) ∧
    List.Forall₂ s.Path ((s.shown body).flatMap Expr.accesses) (s.lowerBody form body).paths := by
  refine ⟨fun target declaring name ty hpart ho hn hr => ?_, reads_lowerBody h⟩
  rcases isRepresentable_of_lowerBody h with hroot | ⟨hbody, hparts⟩
  · exact mapped_of_part hroot hpart ho hn hr
  · rcases List.mem_cons.mp (Expr.mem_unconverted_parts (by simp) hpart) with hself | hpart
    · exact absurd hself.symm (hbody _ _ _ _)
    · obtain ⟨c, hc, hpart⟩ := Expr.mem_parts_iff.mp hpart
      exact mapped_of_part (hparts c hc) hpart ho hn hr

namespace Chains
open Critters

/-- Owners have another name in queries. -/
def owned : Scope where
  mapping := Registry.mapping ⟨.asDeclared, [("Critter", ⟨"Critter", .resource, none,
    [("Owner", ⟨"Owner", .named "Person", some "Keeper", true⟩)]⟩)]⟩
  options := {}
  parameter := x

def ownerName : Expr := .memberOf (trait "Owner" (.named "Person")) "Name" .string

def winterCoat : Expr :=
  coat coats (.binaryOf (.arithmetic .add) (.ofValue (.string "win")) (.ofValue (.string "ter")))

def longAge : Expr := .unary .convert (.memberOf (trait "Age" (.nullable .int32)) "Value" .int32) .int64

/-- The coat is searched for in the name, so its path comes first. -/
def isTame : Expr :=
  .binaryOf (.logical .and) (.call ownerName ⟨.string, "Contains", none⟩ [winterCoat] .boolean)
    (.binaryOf (.comparison .equal) longAge (.ofValue (.int64 3)))

end Chains

open Critters Chains in
theorem paths_lowerBody_critters :
    (owned.mapping.property (.named "Critter") "Owner").mapped = true ∧
    List.Forall₂ owned.Path [winterCoat, ownerName, longAge]
      [["Coats", "winter"], ["Keeper", "Name"], ["Age"]] := by
  obtain ⟨hmapped, hpaths⟩ := owned.paths_lowerBody .predicate isTame (by decide)
  refine ⟨hmapped (.parameter x) _ _ (.named "Person") ?_ rfl rfl rfl, hpaths⟩
  simp [isTame, ownerName, trait, Expr.binaryOf, Expr.memberOf, Expr.parts, x, Expr.ty]

end Scope
end ResourceQuery
