import ResourceQuery.Proofs.Critters
import ResourceQuery.Proofs.Visits

/-! # The order of the markers

What is refused in an expression is reported where it stands: the markers of a node are those of its
children from left to right, also where the arguments of a function are printed in another order.
-/
namespace ResourceQuery

namespace Query

theorem fieldMarkers_eq (fields : List (String × Query)) :
    fieldMarkers fields = markersOf (Entries.values fields) := by
  induction fields with
  | nil => rfl
  | cons field fields ih => rw [fieldMarkers, ih]; rfl

end Query

namespace Scope
open Query
variable {s : Scope} {n : Nat} {e : Expr}

/-- A node that joins lowered parts has their markers, in the order of the parts. The order of its
own children does not matter: a node that is not a marker has no markers below it. -/
theorem markers_joined_lower {es : List Expr} {node : Query} (hs : node.isUnsupported = false)
    (hc : ∀ c ∈ node.children, c ∈ es.map (s.lower n) ∨ c.isRepresentable = true) :
    (joined e (es.map (s.lower n)) node).markers = markersOf (es.map (s.lower n)) := by
  unfold joined
  split
  · exact markers_propagated ‹_›
  · rename_i hany
    have hparts : ∀ p ∈ es.map (s.lower n), p.isRepresentable = true := by
      intro p hp
      obtain ⟨part, hpart, rfl⟩ := List.mem_map.mp hp
      exact isRepresentable_of_map_lower (Bool.eq_false_iff.mpr hany) hpart
    have hnode : node.isRepresentable = true :=
      (isRepresentable_iff hs).mpr fun c hcn => (hc c hcn).elim (hparts c) id
    rw [(markers_eq_nil node).mpr hnode, (markersOf_eq_nil _).mpr (allRepresentable_iff.mpr hparts)]

theorem markers_of_isComposite (h : (s.role e).isComposite = true) (n : Nat) :
    (s.lower (n + 1) e).markers = e.children.flatMap fun part => (s.lower n part).markers := by
  rw [← visited_of_isComposite h n]
  rcases lower_of_isComposite h n with ⟨operand, hrole, heq⟩ | ⟨node, heq, hs, hc⟩
  · rw [heq, hrole]
    simp [visited]
  · rw [heq, markers_joined_lower hs hc, markersOf_eq_flatMap, List.flatMap_map]

theorem markers_extendPath (name : String) {target : Query} (h : target.isUnsupported = true) :
    (extendPath e name target).markers = target.markers := by
  cases target with
  | unsupported =>
    rw [extendPath, markers_propagated rfl]
    simp [markersOf]
  | _ => cases h

theorem markers_extendEntry {key : String} {target : Query} (h : target.isUnsupported = true) :
    (extendEntry e key target).markers = target.markers := by
  cases target with
  | unsupported => exact markers_extendPath key h
  | _ => cases h

theorem length_fieldNames (s : Scope) (ty : Ty) (arity : Nat) (members : Option (List String)) :
    (s.fieldNames ty arity members).length = arity := by
  unfold fieldNames
  dsimp only
  split
  · rename_i names h
    simpa using (Option.filter_eq_some_iff.mp h).2
  · split
    · rename_i names h
      simpa using (Option.filter_eq_some_iff.mp h).2
    · simp [TypeInfo.itemNames]

/-- A projection has the markers of its arguments if no field takes the place of another. -/
theorem markers_project {body : Expr} {ty : Ty} {args : List Expr} {members : Option (List String)}
    (h : (s.fieldNames ty args.length members).Nodup) :
    (s.project body ty args members).markers =
      args.flatMap fun arg => (s.lower s.options.maxDepth arg).markers := by
  have hlen := s.length_fieldNames ty args.length members
  rw [← List.flatMap_map, ← markersOf_eq_flatMap]
  unfold project
  dsimp only
  generalize s.fieldNames ty args.length members = names at h hlen ⊢
  rw [← List.length_map (f := s.lower s.options.maxDepth)] at hlen
  generalize args.map (s.lower s.options.maxDepth) = values at hlen ⊢
  have hkeys : Entries.keys (names.zip values) = names := List.map_fst_zip (Nat.le_of_eq hlen)
  have hvalues : Entries.values (names.zip values) = values := List.map_snd_zip (Nat.le_of_eq hlen.symm)
  rw [Entries.ofPairs_of_nodup (hkeys.symm ▸ h)]
  split
  · rename_i hany
    rw [hvalues, markers_propagated hany]
  · rw [markers, fieldMarkers_eq, hvalues]

/-- Nothing that is refused is lost, found twice or found out of place. A node made of its children
has their markers from left to right, the receiver of a call before its arguments, and a member or an
entry of something refused has the markers of that. A projection has those of its arguments. -/
theorem markers_lower (s : Scope) (levels : Nat) (e : Expr) :
    let found (n : Nat) (e : Expr) : List Marker := (s.lower n e).markers
    ((s.role e).isComposite = true → found (levels + 1) e = e.children.flatMap (found levels)) ∧
    (∀ target declaring name, s.role e = .path target declaring name →
      (s.lower levels target).isUnsupported = true →
      e.children = [target] ∧ found (levels + 1) e = found levels target) ∧
    (∀ target key k, s.role e = .entry target key → s.entryKey levels key = .ok k →
      (s.lower levels target).isUnsupported = true →
      e.children = [target, key] ∧ found (levels + 1) e = found levels target) ∧
    (∀ form ty args members, e.unconverted = .construct ty args members → s.isProjection ty = true →
      (s.fieldNames ty args.length members).Nodup →
      (s.lowerBody form e).markers = args.flatMap (found s.options.maxDepth)) := by
  intro found
  have hoperands {parts : List Expr} (h : (s.role e).operands? = some parts) : e.children = parts :=
    (operands?_eq_children h).symm
  refine ⟨fun h => markers_of_isComposite h levels, ?_, ?_, ?_⟩
  · intro target declaring name hrole ht
    refine ⟨hoperands (by rw [hrole]; rfl), ?_⟩
    change (s.lower (levels + 1) e).markers = _
    rw [lower, hrole]
    exact markers_extendPath _ ht
  · intro target key k hrole hk ht
    refine ⟨hoperands (by rw [hrole]; rfl), ?_⟩
    change (s.lower (levels + 1) e).markers = _
    rw [lower, hrole]
    simp only [hk]
    exact markers_extendEntry ht
  · intro form ty args members hbody hp hnames
    rw [lowerBody, hbody]
    simp only [hp, ↓reduceIte]
    exact markers_project hnames

/-! Calls that the grammar does not know, as the parts of others. -/

namespace Refusals
open Critters

/-- Printed with the argument first. -/
def contains : Expr :=
  .call (unknown "Bark" .string) ⟨.string, "Contains", none⟩ [unknown "Bite" .string] .boolean

def record : Expr := .recordOf "Pair" [("first", contains), ("second", unknown "Sit" .string)]

def owner : Expr := .memberOf (unknown "Owner" (.named "Person")) "Name" .string

def winterCoat : Expr := coat (unknown "Coats" (.dictionary .string .string)) winter

def marker (name : String) : Marker :=
  ⟨"x.Name." ++ name ++ "()", some (.unknownMethod .string name), true⟩

end Refusals

open Critters Refusals in
theorem markers_lower_critters :
    (critters.lower 3 contains).markers = [marker "Bark", marker "Bite"] ∧
    (critters.lower 3 owner).markers = [marker "Owner"] ∧
    (critters.lower 3 winterCoat).markers = [marker "Coats"] ∧
    (critters.lowerBody .selector record).markers = [marker "Bark", marker "Bite", marker "Sit"] := by
  refine ⟨?_, ?_, ?_, ?_⟩
  · exact (critters.markers_lower 2 contains).1 rfl
  · exact ((critters.markers_lower 2 owner).2.1 _ _ _ rfl rfl).2
  · exact ((critters.markers_lower 2 winterCoat).2.2.1 _ _ "winter" rfl rfl rfl).2
  · exact (critters.markers_lower 0 record).2.2.2 .selector _ _ _ rfl rfl (by decide)

end Scope
end ResourceQuery
