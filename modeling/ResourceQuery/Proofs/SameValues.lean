import ResourceQuery.Proofs.ClockOrder
import ResourceQuery.Value

/-! # Equality within a kind

Values without parts are the same if they agree in what tells them apart: decimals in their number,
whatever the scale, and date-times in their instant or in their clock. Lists are compared item by item
and the entries of objects and dictionaries key by key, in any order. Without floating-point numbers
this is an equivalence.
-/
namespace ResourceQuery
open Number

/-! ## Decimals at one scale -/

theorem compare_mul_right {a b c : Int} (hc : 0 < c) : compare (a * c) (b * c) = compare a b := by
  rcases Int.lt_trichotomy a b with h | h | h
  · rw [Int.compare_eq_lt.mpr h, Int.compare_eq_lt.mpr (Int.mul_lt_mul_of_pos_right h hc)]
  · rw [h, Int.compare_eq_eq.mpr rfl, Int.compare_eq_eq.mpr rfl]
  · rw [Int.compare_eq_gt.mpr h, Int.compare_eq_gt.mpr (Int.mul_lt_mul_of_pos_right h hc)]

theorem pow10_add (m n : Nat) : pow10 (m + n) = pow10 m * pow10 n := Nat.pow_add 10 m n

namespace Decimal

/-- The number in units of the last place that any decimal has. -/
def finest (d : Decimal) : Int := d.unitsAt maxScale

theorem finest_mul (d : Decimal) : d.finest * pow10 d.scale = d.units * pow10 maxScale := by
  have hsum : maxScale - d.scale + d.scale = maxScale := Nat.sub_add_cancel d.scale_le
  rw [finest, unitsAt, Int.mul_assoc, ← Int.natCast_mul, ← pow10_add, hsum]

theorem order_eq_compare (a b : Decimal) : a.order b = compare a.finest b.finest := by
  have hpos (n : Nat) : (0 : Int) < pow10 n := Int.natCast_pos.mpr (pow10_pos n)
  have ha : a.finest * (pow10 a.scale * pow10 b.scale) = a.units * pow10 b.scale * pow10 maxScale := by
    rw [← Int.mul_assoc, finest_mul, Int.mul_right_comm]
  have hb : b.finest * (pow10 a.scale * pow10 b.scale) = b.units * pow10 a.scale * pow10 maxScale := by
    rw [Int.mul_comm (pow10 a.scale : Int), ← Int.mul_assoc, finest_mul, Int.mul_right_comm]
  calc a.order b
      = compare (a.units * pow10 b.scale * pow10 maxScale) (b.units * pow10 a.scale * pow10 maxScale) :=
        (compare_mul_right (hpos _)).symm
    _ = compare (a.finest * (pow10 a.scale * pow10 b.scale))
        (b.finest * (pow10 a.scale * pow10 b.scale)) := by
        rw [ha, hb]
    _ = compare a.finest b.finest := compare_mul_right (Int.mul_pos (hpos _) (hpos _))

end Decimal

inductive Moment
  | instant (second : Int) (nano : Nat)
  | clock (zone : Zone) (c : WallClock)

namespace DateTime

def moment (t : DateTime) : Moment :=
  match t.zone with
  | .offset _ => .instant (t.second true) t.clock.nano
  | zone => .clock zone t.clock

theorem instantOrder_eq_eq_iff {a b : WallClock} {p q : UtcOffset} : instantOrder a p b q = .eq ↔
    a.secondNumber - p.seconds = b.secondNumber - q.seconds ∧ a.nano = b.nano := by
  rw [instantOrder, Ordering.then_eq_eq, Int.compare_eq_eq, Nat.compare_eq_eq]

theorem same_iff (a b : DateTime) : a.same b = true ↔ a.moment = b.moment := by
  obtain ⟨a, zone⟩ := a
  obtain ⟨b, zone'⟩ := b
  cases zone with
  | offset p =>
    cases zone' with
    | offset q =>
      change (instantOrder a p b q == .eq) = true ↔ Moment.instant _ _ = Moment.instant _ _
      rw [beq_iff_eq, instantOrder_eq_eq_iff, Moment.instant.injEq, second_of_offset? rfl,
        second_of_offset? rfl]
    | _ => simp [same, moment]
  | _ => cases zone' <;> simp [same, moment]

end DateTime

namespace Value

/-! ## Labels and parts -/

/-- What a value is apart from its parts. -/
inductive Label
  | null
  | boolean (b : Bool)
  | byte (n : UInt8)
  | int16 (n : Int16)
  | int32 (n : Int32)
  | int64 (n : Int64)
  | decimal (finest : Int)
  | char (c : Char)
  | string (s : String)
  | dateTime (m : Moment)
  | guid (g : Guid)
  | object (typeName : String)
  | list
  | dictionary

/-- Floating-point numbers have none: they need not be equal to themselves. -/
def label? : Value → Option Label
  | .null => some .null
  | .boolean b => some (.boolean b)
  | .byte n => some (.byte n)
  | .int16 n => some (.int16 n)
  | .int32 n => some (.int32 n)
  | .int64 n => some (.int64 n)
  | .single _ | .double _ => none
  | .decimal d => some (.decimal d.finest)
  | .char c => some (.char c)
  | .string s => some (.string s)
  | .dateTime t => some (.dateTime t.moment)
  | .guid g => some (.guid g)
  | .object typeName _ => some (.object typeName)
  | .list _ => some .list
  | .dictionary _ => some .dictionary

inductive Place
  | key (k : String)
  | position (i : Nat)

/-- Of entries with one key the first counts. -/
def partAt? : Value → Place → Option Value
  | .object _ fields, .key k => fields.lookup k
  | .dictionary entries, .key k => entries.lookup k
  | .list items, .position i => items[i]?
  | _, _ => none

mutual
/-- Whether no floating-point number occurs in the value. -/
def isFloatFree : Value → Bool
  | .single _ | .double _ => false
  | .object _ fields => fieldsFloatFree fields
  | .list items => allFloatFree items
  | .dictionary entries => fieldsFloatFree entries
  | _ => true
def allFloatFree : List Value → Bool
  | [] => true
  | v :: rest => v.isFloatFree && allFloatFree rest
def fieldsFloatFree : List (String × Value) → Bool
  | [] => true
  | (_, v) :: rest => v.isFloatFree && fieldsFloatFree rest
end

theorem isSome_label? {v : Value} (h : v.isFloatFree = true) : v.label?.isSome = true := by
  cases v with
  | single | double => cases h
  | _ => rfl

theorem allFloatFree_iff (vs : List Value) : allFloatFree vs = true ↔ ∀ v ∈ vs, v.isFloatFree = true := by
  induction vs with
  | nil => simp [allFloatFree]
  | cons v vs ih => simp [allFloatFree, ih]

theorem fieldsFloatFree_iff (fields : List (String × Value)) :
    fieldsFloatFree fields = true ↔ ∀ field ∈ fields, field.2.isFloatFree = true := by
  induction fields with
  | nil => simp [fieldsFloatFree]
  | cons field fields ih =>
    obtain ⟨key, v⟩ := field
    rw [fieldsFloatFree, Bool.and_eq_true, ih, List.forall_mem_cons]

theorem mem_of_lookup {key : String} {entries : List (String × Value)} {v : Value}
    (h : entries.lookup key = some v) : (key, v) ∈ entries := by
  obtain ⟨before, after, rfl, -⟩ := List.lookup_eq_some_iff.mp h
  simp

theorem isFloatFree_part {v p : Value} {place : Place} (h : v.isFloatFree = true)
    (hp : v.partAt? place = some p) : p.isFloatFree = true := by
  unfold partAt? at hp
  split at hp
  · exact (fieldsFloatFree_iff _).mp h _ (mem_of_lookup hp)
  · exact (fieldsFloatFree_iff _).mp h _ (mem_of_lookup hp)
  · exact (allFloatFree_iff _).mp h _ (List.mem_of_getElem? hp)
  · cases hp

theorem sizeOf_part {v p : Value} {place : Place} (h : v.partAt? place = some p) : sizeOf p < sizeOf v := by
  unfold partAt? at h
  split at h
  · have hlt := List.sizeOf_lt_of_mem (mem_of_lookup h)
    simp only [Prod.mk.sizeOf_spec, object.sizeOf_spec] at hlt ⊢
    omega
  · have hlt := List.sizeOf_lt_of_mem (mem_of_lookup h)
    simp only [Prod.mk.sizeOf_spec, dictionary.sizeOf_spec] at hlt ⊢
    omega
  · have hlt := List.sizeOf_lt_of_mem (List.mem_of_getElem? h)
    simp only [list.sizeOf_spec]
    omega
  · cases h

/-- What holds of each value whose parts it holds of holds of every value. -/
@[elab_as_elim]
theorem inductionOn {motive : Value → Prop} (v : Value)
    (value : ∀ v, (∀ place p, v.partAt? place = some p → motive p) → motive v) : motive v :=
  value v fun _ p _hp => inductionOn p value
termination_by sizeOf v
decreasing_by exact sizeOf_part _hp

/-! ## Items and entries -/

theorem sameItems_iff (items others : List Value) :
    sameItems items others = true ↔
      ∀ i : Nat, Option.Rel (fun v w => v.same w = true) items[i]? others[i]? := by
  induction items generalizing others with
  | nil =>
    cases others with
    | nil => simp [sameItems]
    | cons w others =>
      refine iff_of_false (by simp [sameItems]) ?_
      intro h
      cases h 0
  | cons v items ih =>
    cases others with
    | nil =>
      refine iff_of_false (by simp [sameItems]) ?_
      intro h
      cases h 0
    | cons w others =>
      rw [sameItems, Bool.and_eq_true, ih]
      constructor
      · rintro ⟨hfirst, hrest⟩ i
        cases i with
        | zero => exact .some hfirst
        | succ i => exact hrest i
      · intro h
        refine ⟨?_, fun i => h (i + 1)⟩
        cases h 0 with
        | some hvw => exact hvw

theorem sameEntries_iff (seen : List String) (entries others : List (String × Value)) :
    sameEntries seen entries others = true ↔ ∀ key v, key ∉ seen → entries.lookup key = some v →
      ∃ w, others.lookup key = some w ∧ v.same w = true := by
  induction entries generalizing seen with
  | nil => simp [sameEntries]
  | cons entry entries ih =>
    obtain ⟨first, v⟩ := entry
    rw [sameEntries, Bool.and_eq_true, Bool.or_eq_true, List.contains_iff_mem, ih (first :: seen)]
    constructor
    · rintro ⟨hfirst, hrest⟩ key u hseen hu
      rw [List.lookup_cons] at hu
      by_cases hkey : key = first
      · subst hkey
        simp only [BEq.rfl, Option.some.injEq] at hu
        subst hu
        have hmatch := hfirst.resolve_left hseen
        split at hmatch
        · rename_i w hw
          exact ⟨w, hw, hmatch⟩
        · cases hmatch
      · rw [beq_false_of_ne hkey] at hu
        exact hrest key u (by simp [hkey, hseen]) hu
    · intro h
      refine ⟨?_, ?_⟩
      · by_cases hseen : first ∈ seen
        · exact .inl hseen
        · obtain ⟨w, hw, hsame⟩ := h first v hseen (by simp)
          exact .inr (by rw [hw]; exact hsame)
      · intro key u hkey hu
        simp only [List.mem_cons, not_or] at hkey
        apply h key u hkey.2
        rw [List.lookup_cons, beq_false_of_ne hkey.1]
        exact hu

theorem isSome_lookup_iff {key : String} {entries : List (String × Value)} :
    (entries.lookup key).isSome = true ↔ key ∈ Entries.keys entries := by
  simp [Entries.keys]

theorem sameEntries_and_keys_iff (entries others : List (String × Value)) :
    (sameEntries [] entries others && (Entries.keys others).all (Entries.keys entries).contains) = true ↔
      ∀ key, Option.Rel (fun v w => v.same w = true) (entries.lookup key) (others.lookup key) := by
  rw [Bool.and_eq_true, sameEntries_iff, List.all_eq_true]
  constructor
  · rintro ⟨hsame, hkeys⟩ key
    cases hv : entries.lookup key with
    | some v =>
      obtain ⟨w, hw, hvw⟩ := hsame key v List.not_mem_nil hv
      rw [hw]
      exact .some hvw
    | none =>
      cases hw : others.lookup key with
      | none => exact .none
      | some w =>
        have hother : key ∈ Entries.keys others := isSome_lookup_iff.mp (by rw [hw]; rfl)
        have hentry := isSome_lookup_iff.mpr (List.contains_iff_mem.mp (hkeys key hother))
        rw [hv] at hentry
        cases hentry
  · intro h
    refine ⟨?_, ?_⟩
    · intro key v _ hv
      have hkey := h key
      rw [hv] at hkey
      generalize others.lookup key = other at hkey ⊢
      cases hkey with
      | some hvw => exact ⟨_, rfl, hvw⟩
    · intro key hother
      obtain ⟨w, hw⟩ := Option.isSome_iff_exists.mp (isSome_lookup_iff.mpr hother)
      have hkey := h key
      rw [hw] at hkey
      apply List.contains_iff_mem.mpr
      apply isSome_lookup_iff.mp
      generalize entries.lookup key = entry at hkey ⊢
      cases hkey with
      | some hvw => rfl

/-! ## An equivalence -/

/-- Two values are the same if they have one label and the same parts in the same places. -/
theorem same_iff {v : Value} (h : v.label?.isSome = true) (w : Value) :
    v.same w = true ↔ v.label? = w.label? ∧
      ∀ place, Option.Rel (fun p q => p.same q = true) (v.partAt? place) (w.partAt? place) := by
  have hplaces {P : Place → Prop} : (∀ place, P place) ↔ (∀ k, P (.key k)) ∧ ∀ i, P (.position i) :=
    ⟨fun h => ⟨fun k => h _, fun i => h _⟩, fun h place => by cases place <;> simp [h]⟩
  rw [hplaces]
  cases v with
  | single | double => cases h
  | decimal d => cases w <;> simp [same, label?, partAt?, Decimal.order_eq_compare]
  | dateTime t => cases w <;> simp [same, label?, partAt?, DateTime.same_iff]
  | object => cases w <;> simp [same, label?, partAt?, Bool.and_assoc, ← sameEntries_and_keys_iff]
  | dictionary => cases w <;> simp [same, label?, partAt?, ← sameEntries_and_keys_iff]
  | list => cases w <;> simp [same, label?, partAt?, sameItems_iff]
  | _ => cases w <;> simp [same, label?, partAt?]

theorem same_refl {v : Value} (h : v.isFloatFree = true) : v.same v = true := by
  induction v using inductionOn with
  | value v ih =>
    refine (same_iff (isSome_label? h) v).mpr ⟨rfl, ?_⟩
    intro place
    cases hp : v.partAt? place with
    | none => exact .none
    | some p => exact .some (ih place p hp (isFloatFree_part h hp))

theorem same_symm {v w : Value} (hfree : v.isFloatFree = true) (h : v.same w = true) : w.same v = true := by
  induction v using inductionOn generalizing w with
  | value v ih =>
    have hlabel := isSome_label? hfree
    obtain ⟨hvw, hparts⟩ := (same_iff hlabel w).mp h
    refine (same_iff (hvw ▸ hlabel) v).mpr ⟨hvw.symm, ?_⟩
    intro place
    have hplace := hparts place
    generalize hp : v.partAt? place = p at hplace ⊢
    generalize w.partAt? place = q at hplace ⊢
    cases hplace with
    | none => exact .none
    | some hpq => exact .some (ih place _ hp (isFloatFree_part hfree hp) hpq)

theorem same_trans {u v w : Value} (hfree : u.isFloatFree = true) (huv : u.same v = true)
    (hvw : v.same w = true) : u.same w = true := by
  induction u using inductionOn generalizing v w with
  | value u ih =>
    have hlabel := isSome_label? hfree
    obtain ⟨hlabels, hparts⟩ := (same_iff hlabel v).mp huv
    obtain ⟨hlabels', hparts'⟩ := (same_iff (hlabels ▸ hlabel) w).mp hvw
    refine (same_iff hlabel w).mpr ⟨hlabels.trans hlabels', ?_⟩
    intro place
    have hplace := hparts place
    have hplace' := hparts' place
    generalize hp : u.partAt? place = p at hplace ⊢
    generalize v.partAt? place = q at hplace hplace'
    generalize w.partAt? place = r at hplace' ⊢
    cases hplace with
    | none => exact hplace'
    | some hpq =>
      cases hplace' with
      | some hqr => exact .some (ih place _ hp (isFloatFree_part hfree hp) hpq hqr)

end Value
end ResourceQuery
