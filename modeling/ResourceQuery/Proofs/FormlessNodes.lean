import ResourceQuery.Proofs.Critters
import ResourceQuery.Proofs.NodeShapes
import ResourceQuery.Proofs.ProjectionFields
import ResourceQuery.Proofs.ReadThrough
import ResourceQuery.Proofs.Rekeyed

/-! # Nodes without a form

Most of what is refused is refused for a cause. A node is refused without one only if the grammar has no form
for it: a lambda, a conditional or a construction in the place of a value, a member of a value that is no
path, or an entry of such a value or of the parameter itself.
-/
namespace ResourceQuery

/-- Whether the expression was refused here, for no cause. -/
def Marker.isCauseless (m : Marker) : Bool := m.origin && m.cause.isNone

namespace Query

/-- The texts of what was refused without a cause, in the order of the tree. -/
def causeless (q : Query) : List String := (q.markers.filter Marker.isCauseless).map Marker.expression

def isComputed : Query → Bool
  | .member .. | .unsupported .. => false
  | _ => true

def isParameter : Query → Bool
  | .member [] _ => true
  | _ => false

theorem map_filter_markersOf (qs : List Query) :
    ((markersOf qs).filter Marker.isCauseless).map Marker.expression = qs.flatMap causeless := by
  rw [markersOf_eq_flatMap, List.filter_flatMap, List.map_flatMap]
  rfl

theorem causeless_of_markers {q : Query} {qs : List Query} (h : q.markers = markersOf qs) :
    q.causeless = qs.flatMap causeless := by
  rw [causeless, h, map_filter_markersOf]

theorem causeless_of_isRepresentable {q : Query} (h : q.isRepresentable = true) : q.causeless = [] := by
  rw [causeless, (markers_eq_nil q).mpr h]
  rfl

/-- A marker that stands for its parts is no refusal of its own, also where none of them is refused. -/
theorem causeless_propagated {parts : List Query} (e : Expr) (h : parts ≠ []) :
    (propagated e parts).causeless = parts.flatMap causeless := by
  rw [← map_filter_markersOf, causeless, propagated, markers]
  split
  · rename_i hnone
    simp [hnone, Marker.isCauseless, h]
  · rfl

end Query

namespace Scope
open Query
variable {s : Scope} {n : Nat} {e : Expr}

/-- Whether a node has no form, with so many levels left for its parts. Only open nodes can lack one, and of
the members and entries those that a path would go on with. -/
def isFormless (s : Scope) (levels : Nat) (e : Expr) : Bool :=
  e.isOpen && match e with
    | .lambda .. | .conditional .. | .construct .. => true
    | .member target declaring name _ =>
      asksMapping declaring name && (s.mapping.property declaring name).mapped &&
        (s.lower levels target).isComputed
    | .index target [key] _ =>
      isTextKeyed target.ty && key.ty.isText && !key.isOpen && (s.entryKey levels key).isOk &&
        ((s.lower levels target).isComputed || (s.lower levels target).isParameter)
    | _ => false

/-- The nodes without a form that lowering comes to, in the order of the tree. -/
def formlessIn (s : Scope) : Nat → Expr → List Expr
  | 0, _ => []
  | levels + 1, e =>
    (if s.isFormless levels e then [e] else []) ++
      (s.visited levels (s.role e)).flatMap (s.formlessIn levels)

/-- The nodes without a form in the tree of a body. A record or a list that is a selection is none of them,
and of the record only the fields that are shown count. -/
def formlessInBody (s : Scope) (form : Form) (body : Expr) : List Expr :=
  let whole := s.formlessIn (s.options.maxDepth + 1) body
  let parts (es : List Expr) := es.flatMap (s.formlessIn s.options.maxDepth)
  match body.unconverted with
  | .construct ty _ _ => if s.isProjection ty then parts (s.shown body) else whole
  | .list _ elements => if form = .sequence then whole else parts elements
  | _ => whole

/-! ## One node -/

def lacksForm (s : Scope) (levels : Nat) : Role → Bool
  | .record | .unsupported none => true
  | .path target _ _ => (s.lower levels target).isComputed
  | .entry target key =>
    (s.entryKey levels key).isOk &&
      ((s.lower levels target).isComputed || (s.lower levels target).isParameter)
  | _ => false

theorem lacksForm_binaryRole (s : Scope) (n : Nat) (op : BinaryOp) (left right : Expr) (ty : Ty) :
    s.lacksForm n (s.binaryRole op left right ty) = false := by
  unfold binaryRole
  repeat' split
  all_goals rfl

theorem lacksForm_callRole (s : Scope) (n : Nat) (access : Access) (method : Method) (receiver : Option Expr)
    (args : List Expr) : s.lacksForm n (callRole access method receiver args) = false := by
  unfold callRole
  dsimp only
  repeat' split
  all_goals rfl

theorem lacksForm_memberRole (s : Scope) (n : Nat) (target : Expr) (declaring : Ty) (name : String) :
    s.lacksForm n (s.memberRole target declaring name) =
      (asksMapping declaring name && (s.mapping.property declaring name).mapped &&
        (s.lower n target).isComputed) := by
  cases hasks : asksMapping declaring name with
  | true =>
    rw [memberRole_of_asksMapping hasks]
    cases (s.mapping.property declaring name).mapped <;> rfl
  | false =>
    unfold memberRole
    split
    · rfl
    · rfl
    · split
      · split <;> rfl
      · simp_all [asksMapping, lacksForm]

theorem lacksForm_indexRole (s : Scope) (n : Nat) (target key : Expr) :
    s.lacksForm n (indexRole target [key]) =
      (isTextKeyed target.ty && key.ty.isText && !key.isOpen && (s.entryKey n key).isOk &&
        ((s.lower n target).isComputed || (s.lower n target).isParameter)) := by
  unfold indexRole
  dsimp only
  cases hkeyed : isTextKeyed target.ty && key.ty.isText with
  | false => rfl
  | true => cases hopen : key.isOpen <;> simp [lacksForm]

/-- The nodes without a form are those whose role has none: the roles of all others give a cause. -/
theorem isFormless_eq_lacksForm (s : Scope) (n : Nat) (e : Expr) :
    s.isFormless n e = s.lacksForm n (s.role e) := by
  unfold isFormless
  cases ho : e.isOpen with
  | false =>
    rw [Bool.false_and]
    rcases s.role_of_closed ho with ⟨value, ty, rfl⟩ | ⟨ty, rfl⟩ | hrole
    · rfl
    · rfl
    · rw [hrole]
      rfl
  | true =>
    have hif : ∀ role, ifOpen e role = role := fun role => if_pos ho
    rw [Bool.true_and]
    cases e with
    | constant | source | staticMember => cases ho
    | lambda parameters body => rfl
    | parameter p =>
      dsimp only
      rw [role]
      split <;> rfl
    | unary op operand ty => cases op <;> rw [role, hif] <;> rfl
    | binary op left right ty => rw [role, hif, lacksForm_binaryRole]
    | member target declaring name ty => rw [role, hif, lacksForm_memberRole]
    | call target method args ty | staticCall method args ty => rw [role, hif, lacksForm_callRole]
    | index target args ty =>
      rw [role, hif]
      cases args with
      | nil => rfl
      | cons key rest =>
        cases rest with
        | nil => rw [lacksForm_indexRole]
        | cons other rest => rfl
    | construct ty args members =>
      dsimp only
      rw [role, hif]
      split <;> rfl
    | list ty elements | conditional test ifTrue ifFalse ty =>
      rw [role, hif]
      rfl

/-- A constant without a literal is refused for a cause. -/
theorem causeless_literal (e : Expr) (v : Value) : (literal e v).causeless = [] := by
  unfold literal
  split <;> rfl

theorem causeless_extendPath (e : Expr) (name : String) {target : Query} (h : target.Throughout IsInner) :
    (extendPath e name target).causeless =
      (if target.isComputed then [e.text] else []) ++ target.causeless := by
  cases hs : target.isUnsupported with
  | true =>
    have hcomputed : target.isComputed = false := by
      cases target with
      | unsupported => rfl
      | _ => cases hs
    rw [causeless, markers_extendPath name hs, hcomputed]
    rfl
  | false =>
    -- a supported target has no markers below it
    rw [causeless_of_isRepresentable (h.isRepresentable hs)]
    cases target with
    | unsupported => cases hs
    | _ => rfl

theorem causeless_extendEntry (e : Expr) (key : String) {target : Query} (h : target.Throughout IsInner) :
    (extendEntry e key target).causeless =
      (if target.isComputed || target.isParameter then [e.text] else []) ++ target.causeless := by
  cases target with
  | member path ty => cases path <;> rfl
  | _ => exact causeless_extendPath e key h

/-- One step: what is refused without a cause in the tree of a node is the node, if it has no form, or it is
refused so in the tree of a part. -/
theorem causeless_lower_succ (s : Scope) (n : Nat) (e : Expr) :
    (s.lower (n + 1) e).causeless =
      (if s.isFormless n e then [e.text] else []) ++
        (s.visited n (s.role e)).flatMap fun part => (s.lower n part).causeless := by
  rw [isFormless_eq_lacksForm]
  cases hc : (s.role e).isComposite with
  | true =>
    have hform : s.lacksForm n (s.role e) = false := by
      cases hrole : s.role e with
      | record | unsupported | path | entry =>
        rw [hrole] at hc
        cases hc
      | _ => rfl
    have hmarkers : (s.lower (n + 1) e).markers = markersOf (e.children.map (s.lower n)) := by
      rw [markers_of_isComposite hc, markersOf_eq_flatMap, List.flatMap_map]
    rw [hform, visited_of_isComposite hc, causeless_of_markers hmarkers, List.flatMap_map]
    rfl
  | false =>
    rw [lower]
    cases hrole : s.role e with
    | constant value => exact causeless_literal e value
    | folded =>
      dsimp only
      cases s.fold n e with
      | ok v => exact causeless_literal e v
      | error cause => rfl
    | source elementTy => rfl
    | parameter => rfl
    | path target declaring name =>
      rw [visited, List.flatMap_singleton]
      exact causeless_extendPath e _ (s.inner_lower n target)
    | entry target key =>
      dsimp only
      cases hk : s.entryKey n key with
      | ok k =>
        have hvisited := visited_of_entry hrole hk
        rw [hrole] at hvisited
        rw [hvisited, List.flatMap_singleton, lacksForm, hk]
        exact causeless_extendEntry e k (s.inner_lower n target)
      | error cause =>
        rw [visited, lacksForm, hk]
        rfl
    | record => rfl
    | unsupported cause => cases cause <;> rfl
    | _ =>
      rw [hrole] at hc
      cases hc

/-! ## Whole trees -/

/-- By induction on the levels: what is refused without a cause are the nodes without a form. -/
theorem causeless_lower (s : Scope) (n : Nat) (e : Expr) :
    (s.lower n e).causeless = (s.formlessIn n e).map Expr.text := by
  induction n generalizing e with
  | zero => rfl
  | succ n ih =>
    rw [causeless_lower_succ, formlessIn, List.map_append, List.map_flatMap]
    simp only [ih]
    split <;> rfl

theorem causeless_map_lower (s : Scope) (n : Nat) (es : List Expr) :
    (es.map (s.lower n)).flatMap causeless = (es.flatMap (s.formlessIn n)).map Expr.text := by
  simp only [List.flatMap_map, List.map_flatMap, causeless_lower]

theorem causeless_lowerValue (s : Scope) (form : Form) (body : Expr) :
    (s.lowerValue form body).causeless = (s.formlessIn (s.options.maxDepth + 1) body).map Expr.text := by
  have hvalue := s.causeless_lower (s.options.maxDepth + 1) body
  cases form with
  | predicate | value | selector | sequence => exact hvalue

/-- The parts of a projection that are shown are lowered, and no others are in its tree. -/
theorem values_project {body : Expr} {ty : Ty} {args : List Expr} {members : Option (List String)}
    (hbody : body.unconverted = .construct ty args members) :
    Entries.values (Entries.ofPairs ((s.fieldNames ty args.length members).zip (args.map (s.lower n)))) =
      (s.shown body).map (s.lower n) := by
  rw [shown, hbody]
  dsimp only
  rw [List.zip_map_right, Entries.ofPairs_map]
  simp [Entries.values]

theorem causeless_project {body : Expr} {ty : Ty} {args : List Expr} {members : Option (List String)}
    (hbody : body.unconverted = .construct ty args members) :
    (s.project body ty args members).causeless =
      ((s.shown body).flatMap (s.formlessIn s.options.maxDepth)).map Expr.text := by
  have hvalues := values_project (s := s) (n := s.options.maxDepth) hbody
  rw [← causeless_map_lower, ← hvalues]
  unfold project
  dsimp only
  split
  · rename_i hany
    -- a value that is refused may be put out of its field by another, but some value is shown
    obtain ⟨q, hq, -⟩ := List.any_eq_true.mp hany
    have hpairs : (s.fieldNames ty args.length members).zip (args.map (s.lower s.options.maxDepth)) ≠ [] := by
      have hlen := s.length_fieldNames ty args.length members
      intro hnil
      rcases List.zip_eq_nil_iff.mp hnil with hnames | hargs
      · rw [hnames] at hlen
        rw [List.eq_nil_of_length_eq_zero hlen.symm] at hq
        cases hq
      · rw [hargs] at hq
        cases hq
    exact causeless_propagated body fun h => Entries.ofPairs_ne_nil hpairs (List.map_eq_nil_iff.mp h)
  · exact causeless_of_markers (fieldMarkers_eq _)

theorem causeless_lowerBody (s : Scope) (form : Form) (body : Expr) :
    (s.lowerBody form body).causeless = (s.formlessInBody form body).map Expr.text := by
  have hvalue := s.causeless_lowerValue form body
  unfold lowerBody formlessInBody
  dsimp only
  cases hbody : body.unconverted with
  | construct ty args members =>
    dsimp only
    split
    · exact causeless_project hbody
    · exact hvalue
  | list ty elements =>
    dsimp only
    split
    · exact hvalue
    · rw [← causeless_map_lower]
      exact causeless_of_markers (markers_joined rfl)
  | _ => exact hvalue

/-- Lowering finds every node in the shape that its kind calls for. So only nodes without a form are refused
without a cause, and each of them that is come to is: in the tree of a node, and in that of a body. -/
theorem causeless_eq_formless (s : Scope) :
    (∀ levels e, s.lowerByKind levels e = .ok (s.lower levels e)) ∧
    (∀ levels e, (s.lower levels e).causeless = (s.formlessIn levels e).map Expr.text) ∧
    ∀ form body, (s.lowerBody form body).causeless = (s.formlessInBody form body).map Expr.text :=
  ⟨s.lowerByKind_eq_lower, s.causeless_lower, s.causeless_lowerBody⟩

namespace Formless
open Critters

def nextAge : Expr := .binaryOf (.arithmetic .add) age (.ofValue (.int32 1))

def coatOf (e : Expr) : Expr := coat (.unary .convert e (.dictionary .string .string)) winter

/-- One node of each shape without a form, and a call that is refused for a cause. -/
def traits : Expr :=
  .recordOf "Traits" [
    ("Calls", .call name ⟨.string, "Contains", none⟩ [.lambda [⟨"y", .string⟩] name] .boolean),
    ("Title", .conditionalOf (trait "IsTame" .boolean) name (.ofValue (.string "wild"))),
    ("Tag", .recordOf "Tag" [("Name", name)]),
    ("Digits", .memberOf nextAge "Digits" .int32),
    ("Coat", coatOf (.parameter x)),
    ("NextCoat", coatOf nextAge),
    ("Bark", unknown "Bark" .string)]

end Formless

open Critters Formless in
example : (critters.lowerBody .selector traits).causeless =
    ["y => x.Name", "IIF(x.IsTame, x.Name, \"wild\")", "new Tag(Name = x.Name)", "(x.Age + 1).Digits",
      "Convert(x, Dictionary<String, String>)[\"winter\"]",
      "Convert((x.Age + 1), Dictionary<String, String>)[\"winter\"]"] := by decide

end Scope
end ResourceQuery
