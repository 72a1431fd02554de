import Mathlib.Data.List.Induction
import Mathlib.Data.List.Perm.Subperm
import Mathlib.Tactic.Choose
import ResourceQuery.Proofs.ChainRun
import ResourceQuery.Proofs.Critters
import ResourceQuery.Proofs.MarkerOrder

/-! # The fields that a projection shows

A projection shows each field name once, where it is first mentioned and with what is selected for it
last. So it shows all its arguments in their order exactly if their names differ.
-/
namespace ResourceQuery

namespace Entries
variable {α : Type}

/-- Each key once, in the order of first mention, with the last of its values. -/
def lastOf (pairs : List (String × α)) : List (String × α) :=
  (keys pairs).eraseDups.filterMap fun key => (pairs.reverse.lookup key).map (Prod.mk key)

theorem ofPairs_concat (pairs : List (String × α)) (pair : String × α) :
    ofPairs (pairs ++ [pair]) = put pair.1 pair.2 (ofPairs pairs) := List.foldl_concat ..

theorem nodup_keys_ofPairs (pairs : List (String × α)) : (keys (ofPairs pairs)).Nodup := by
  induction pairs using List.reverseRecOn with
  | nil => exact .nil
  | append_singleton pairs pair ih =>
    rw [ofPairs_concat]
    exact nodup_keys_put _ _ ih

theorem keys_ofPairs (pairs : List (String × α)) : keys (ofPairs pairs) = (keys pairs).eraseDups := by
  induction pairs using List.reverseRecOn with
  | nil => rfl
  | append_singleton pairs pair ih =>
    have hkeys : keys (pairs ++ [pair]) = keys pairs ++ [pair.1] := List.map_append
    rw [ofPairs_concat, keys_put, ih, hkeys, List.eraseDups_append]
    by_cases hmem : pair.1 ∈ keys pairs
    · rw [if_pos (List.mem_eraseDups.mpr hmem)]
      simp [List.removeAll, hmem]
    · rw [if_neg fun h => hmem (List.mem_eraseDups.mp h)]
      simp [List.removeAll, hmem, List.eraseDups_cons]

theorem ofPairs_ne_nil {pairs : List (String × α)} (h : pairs ≠ []) : ofPairs pairs ≠ [] := by
  intro hnil
  obtain ⟨pair, hpair⟩ := List.exists_mem_of_ne_nil pairs h
  have hkey : pair.1 ∈ keys (ofPairs pairs) := by
    rw [keys_ofPairs]
    exact List.mem_eraseDups.mpr (List.mem_map_of_mem hpair)
  rw [hnil] at hkey
  cases hkey

theorem lookup_ofPairs (pairs : List (String × α)) (key : String) :
    (ofPairs pairs).lookup key = pairs.reverse.lookup key := by
  induction pairs using List.reverseRecOn with
  | nil => rfl
  | append_singleton pairs pair ih =>
    rw [ofPairs_concat, List.reverse_concat]
    obtain ⟨k, v⟩ := pair
    by_cases h : key = k
    · subst h
      rw [lookup_put_self, List.lookup_cons_self]
    · rw [lookup_put_of_ne h, ih, List.lookup_cons, beq_false_of_ne h]

theorem filterMap_lookup {entries : Entries α} (h : (keys entries).Nodup) :
    ((keys entries).filterMap fun key => (entries.lookup key).map (Prod.mk key)) = entries := by
  induction entries with
  | nil => rfl
  | cons pair rest ih =>
    obtain ⟨k, v⟩ := pair
    obtain ⟨hnew, hrest⟩ := List.nodup_cons.mp h
    have hlater : ∀ key ∈ keys rest, (((k, v) :: rest).lookup key).map (Prod.mk key) =
        (rest.lookup key).map (Prod.mk key) := by
      intro key hkey
      have hne : key ≠ k := fun heq => hnew (heq ▸ hkey)
      rw [List.lookup_cons, beq_false_of_ne hne]
    have hself : (((k, v) :: rest).lookup k).map (Prod.mk k) = some (k, v) := by
      rw [List.lookup_cons_self, Option.map_some]
    have hkeys : keys ((k, v) :: rest) = k :: keys rest := rfl
    simp only [hkeys, List.filterMap_cons, hself]
    rw [List.filterMap_congr hlater, ih hrest]

theorem ofPairs_eq_lastOf (pairs : List (String × α)) : ofPairs pairs = lastOf pairs := by
  have h := filterMap_lookup (nodup_keys_ofPairs pairs)
  rw [keys_ofPairs] at h
  simp only [lookup_ofPairs] at h
  exact h.symm

theorem length_ofPairs_eq_iff (pairs : List (String × α)) :
    (ofPairs pairs).length = pairs.length ↔ (keys pairs).Nodup := by
  constructor
  · intro h
    have hsub : keys (ofPairs pairs) ⊆ keys pairs := by
      intro key hkey
      rwa [keys_ofPairs, List.mem_eraseDups] at hkey
    have hperm := ((nodup_keys_ofPairs pairs).subperm hsub).perm_of_length_le (by simp [keys, h])
    exact hperm.nodup_iff.mp (nodup_keys_ofPairs pairs)
  · intro h
    rw [ofPairs_of_nodup h]

end Entries

/-! ## Names and texts of fields -/

/-- The names of the fields of a constructed value with so many arguments: those recorded, or else the
constructor's, if they are as many, and otherwise those of a tuple's items. -/
inductive FieldsNamed (info : Option TypeInfo) (members : Option (List String)) (arity : Nat) :
    List String → Prop
  | recorded {names : List String} (hnames : members = some names) (harity : names.length = arity) :
    FieldsNamed info members arity names
  | constructed {names : List String} (hrecorded : ∀ others, members = some others → others.length ≠ arity)
    (hnames : info.bind TypeInfo.constructor = some names) (harity : names.length = arity) :
    FieldsNamed info members arity names
  | numbered (hrecorded : ∀ others, members = some others → others.length ≠ arity)
    (hconstructed : ∀ others, info.bind TypeInfo.constructor = some others → others.length ≠ arity) :
    FieldsNamed info members arity ((List.range arity).map fun i => "Item" ++ (i + 1).repr)

theorem filter_fits_eq_none {names : Option (List String)} {arity : Nat}
    (h : names.filter (fun names => names.length == arity) = none) :
    ∀ others, names = some others → others.length ≠ arity := by
  rintro others rfl
  simpa using h

theorem Scope.fieldsNamed (s : Scope) (ty : Ty) (arity : Nat) (members : Option (List String)) :
    FieldsNamed (s.mapping.typeInfo ty) members arity (s.fieldNames ty arity members) := by
  unfold fieldNames
  dsimp only
  split
  case h_1 names h =>
    obtain ⟨hnames, harity⟩ := Option.filter_eq_some_iff.mp h
    exact .recorded hnames (by simpa using harity)
  case h_2 hrecorded =>
    split
    case h_1 names h =>
      obtain ⟨hnames, harity⟩ := Option.filter_eq_some_iff.mp h
      exact .constructed (filter_fits_eq_none hrecorded) hnames (by simpa using harity)
    case h_2 hconstructed =>
      exact .numbered (filter_fits_eq_none hrecorded) (filter_fits_eq_none hconstructed)

/-- The text of a field's value, in parentheses if it is joined by `and` or `or`. -/
def Query.grouped (q : Query) (text : String) : String :=
  match q with
  | .logical .. => "(" ++ text ++ ")"
  | _ => text

theorem Query.enclosed_four {q : Query} (h : q.isSelection = false) (text : String) :
    q.enclosed 4 text = q.grouped text := by
  cases q with
  | projection | selector => cases h
  | logical op => cases op <;> rfl
  | arithmetic op => cases op <;> rfl
  | _ => rfl

def shownField (field : String × String) : String := field.2 ++ " as " ++ field.1

namespace Scope
variable {s : Scope} {arg : Expr} {text : String}

/-- The text of an argument of a projection is what it is printed as alone, grouped. -/
def ShownAs (s : Scope) (arg : Expr) (text : String) : Prop :=
  ∃ alone, (s.lower s.options.maxDepth arg).print = .ok alone ∧
    text = (s.lower s.options.maxDepth arg).grouped alone

theorem exists_shownAs (h : (s.lower s.options.maxDepth arg).isUnsupported = false) :
    ∃ text, s.ShownAs arg text := by
  have hinner := s.inner_lower s.options.maxDepth arg
  have hwell := Query.WellFormed.of_throughout hinner
  obtain ⟨alone, halone⟩ := hwell.exists_print_iff.mpr (hinner.isRepresentable h)
  exact ⟨_, alone, halone, rfl⟩

theorem ShownAs.bareField (h : s.ShownAs arg text) (name : String) :
    Query.bareField (name, s.lower s.options.maxDepth arg) = .ok (shownField (name, text)) := by
  obtain ⟨alone, halone, rfl⟩ := h
  have hinner := s.inner_lower s.options.maxDepth arg
  rw [Query.print_of_isRepresentable (Query.isRepresentable_of_print halone)] at halone
  rw [Query.bareField, halone, shownField, ← Query.enclosed_four hinner.here.unselected]
  rfl

/-- A projection of supported arguments is printed as the fields that keep their names. -/
theorem print_project {body : Expr} {ty : Ty} {args : List Expr} {members : Option (List String)}
    {textOf : Expr → String} (htext : ∀ arg ∈ args, s.ShownAs arg (textOf arg)) :
    (s.project body ty args members).print = .ok (",".intercalate
      ((Entries.lastOf ((s.fieldNames ty args.length members).zip (args.map textOf))).map shownField)) := by
  have hlower (arg : Expr) (harg : arg ∈ args) : (s.lower s.options.maxDepth arg).isRepresentable = true := by
    obtain ⟨alone, halone, -⟩ := htext arg harg
    exact Query.isRepresentable_of_print halone
  let fields := Entries.ofPairs ((s.fieldNames ty args.length members).zip args)
  have hfields (field : String × Expr) (h : field ∈ fields) : field.2 ∈ args :=
    (List.of_mem_zip (Entries.mem_of_mem_ofPairs h)).2
  have hproject : s.project body ty args members =
      .projection (fields.map (Prod.map id (s.lower s.options.maxDepth))) ty := by
    have hany : ¬(args.map (s.lower s.options.maxDepth)).any Query.isUnsupported = true := by
      rw [List.any_map, List.any_eq_true]
      rintro ⟨arg, harg, hmarker⟩
      rw [Function.comp_apply, Query.isUnsupported_of_isRepresentable (hlower arg harg)] at hmarker
      cases hmarker
    rw [project, if_neg hany, List.zip_map_right, Entries.ofPairs_map]
  have hrepresentable : (s.project body ty args members).isRepresentable = true := by
    rw [hproject, Query.isRepresentable, Query.fieldsRepresentable_iff, Entries.values, List.map_map]
    intro q hq
    obtain ⟨field, hfield, rfl⟩ := List.mem_map.mp hq
    exact hlower field.2 (hfields field hfield)
  have hbare : Query.bareFields (fields.map (Prod.map id (s.lower s.options.maxDepth))) =
      .ok ((fields.map (Prod.map id textOf)).map shownField) := by
    rw [Query.bareFields_eq_mapM, mapM_eq_ok, List.map_map, List.forall₂_map_left_iff,
      List.forall₂_map_right_iff, List.forall₂_same]
    intro field hfield
    exact (htext field.2 (hfields field hfield)).bareField field.1
  rw [Query.print_of_isRepresentable hrepresentable, hproject, Query.bare, hbare, List.zip_map_right,
    ← Entries.ofPairs_eq_lastOf, Entries.ofPairs_map]
  rfl

end Scope

namespace Compiler
variable {c : Compiler} {e : Expr} {l : UnaryLambda} {ty : Ty} {args : List Expr}
  {members : Option (List String)}

/-- A selection that constructs a record or a tuple of supported values shows each field name once, where
it is first mentioned and with the value it has last. It shows all values, in order and each with its own
name, exactly if the names differ. -/
theorem select_fields (hl : UnaryLambda.ofExpr e = .ok l)
    (hbody : l.body.unconverted = .construct ty args members)
    (hty : (c.scope l.parameter).isProjection ty = true)
    (hargs : ∀ arg ∈ args, ((c.scope l.parameter).lower c.options.maxDepth arg).isUnsupported = false) :
    ∃ names texts, FieldsNamed (c.mapping.typeInfo ty) members args.length names ∧
      List.Forall₂ (c.scope l.parameter).ShownAs args texts ∧
      c.select e = .ok (",".intercalate ((Entries.lastOf (names.zip texts)).map shownField)) ∧
      (names.Nodup → Entries.lastOf (names.zip texts) = names.zip texts) ∧
      ((Entries.lastOf (names.zip texts)).length = args.length ↔ names.Nodup) := by
  let s := c.scope l.parameter
  have hshown (arg : Expr) (harg : arg ∈ args) : ∃ text, s.ShownAs arg text :=
    Scope.exists_shownAs (hargs arg harg)
  choose! textOf htext using hshown
  have hlower : s.lowerBody .selector l.body = s.project l.body ty args members := by
    rw [Scope.lowerBody, hbody]
    exact if_pos hty
  have hlength := s.length_fieldNames ty args.length members
  have hkeys : Entries.keys ((s.fieldNames ty args.length members).zip (args.map textOf)) =
      s.fieldNames ty args.length members := List.map_fst_zip (by simp [hlength])
  refine ⟨s.fieldNames ty args.length members, args.map textOf, s.fieldsNamed ty args.length members,
    ?_, ?_, ?_, ?_⟩
  · rw [List.forall₂_map_right_iff, List.forall₂_same]
    exact htext
  · have hvalid : validated .selector none e = .ok l := by
      rw [validated, hl]
      rfl
    rw [select, compile, lower, hvalid]
    exact (congrArg Query.print hlower).trans (Scope.print_project htext)
  · intro hnodup
    rw [← Entries.ofPairs_eq_lastOf]
    exact Entries.ofPairs_of_nodup (hkeys.symm ▸ hnodup)
  · rw [← Entries.ofPairs_eq_lastOf]
    have hiff := Entries.length_ofPairs_eq_iff ((s.fieldNames ty args.length members).zip (args.map textOf))
    rwa [hkeys, List.length_zip, hlength, List.length_map, Nat.min_self] at hiff

namespace Shipments
open Critters

def urgent : Expr := .binaryOf (.logical .or) (trait "Express" .boolean) (trait "Late" .boolean)

def weight : Expr := trait "Weight" .double

/-- A selection of both under names of the host's choice. -/
def selected (first second : String) : Expr :=
  .lambda [x] (.recordOf "Summary" [(first, urgent), (second, weight)])

end Shipments

open Critters Shipments in
/-- Of two fields of one name the first is lost. -/
theorem select_fields_shipments :
    asDeclared.select (selected "Urgent" "Weight") = .ok "(Express or Late) as Urgent,Weight as Weight" ∧
    asDeclared.select (selected "Field" "Field") = .ok "Weight as Field" ∧
    ∃ texts, List.Forall₂ critters.ShownAs [urgent, weight] texts ∧
      (Entries.lastOf (["Field", "Field"].zip texts)).length ≠ 2 := by
  have hlambda : UnaryLambda.ofExpr (selected "Field" "Field") = .ok ⟨x, _⟩ := rfl
  have hsupported : ∀ arg ∈ [urgent, weight],
      (critters.lower asDeclared.options.maxDepth arg).isUnsupported = false := by
    intro arg harg
    rcases List.mem_pair.mp harg with rfl | rfl <;> rfl
  obtain ⟨names, texts, hnames, htexts, -, -, hlength⟩ :=
    select_fields (c := asDeclared) hlambda rfl rfl hsupported
  refine ⟨rfl, rfl, texts, htexts, ?_⟩
  cases hnames with
  | recorded hrecorded =>
    cases hrecorded
    exact fun h => absurd (hlength.mp h) (by decide)
  | constructed hrecorded => exact absurd rfl (hrecorded _ rfl)
  | numbered hrecorded => exact absurd rfl (hrecorded _ rfl)

end Compiler
end ResourceQuery
