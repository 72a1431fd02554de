import ResourceQuery.Expr.Fold
import ResourceQuery.Proofs.IntegerFolding
import ResourceQuery.Proofs.SameValues

/-! # Comparisons agree with each other

Values that have an order rank by a number, a text, a truth value and so on, and numbers of all exact
kinds rank alike. So equality is an equivalence and the order is transitive, with one exception: what
date-times rank by depends on what they are compared with, and three of them may rank in no single way.
-/
namespace ResourceQuery
open Number

/-! ## Ranks -/

inductive Rank
  /-- In units of the last place that a decimal has. -/
  | number (finest : Int)
  | text (s : String)
  | character (c : Char)
  | truth (b : Bool)
  | identifier (n : Nat)
  | time (second : Int) (nano : Nat)

namespace Rank

def order? : Rank → Rank → Option Ordering
  | .number a, .number b => some (compare a b)
  | .text a, .text b => some (compare a b)
  | .character a, .character b => some (compare a b)
  | .truth a, .truth b => some (compare a b)
  | .identifier a, .identifier b => some (compare a b)
  | .time s m, .time t n => some ((compare s t).then (compare m n))
  | _, _ => none

theorem order?_eq_some_eq_iff {r s : Rank} : r.order? s = some .eq ↔ r = s := by
  cases r <;> cases s <;> simp [order?, Ordering.then_eq_eq]

theorem isLE_then_trans {s t u : Int} {m n k : Nat} (h : ((compare s t).then (compare m n)).isLE = true)
    (h' : ((compare t u).then (compare n k)).isLE = true) :
    ((compare s u).then (compare m k)).isLE = true := by
  have htrans : Std.TransCmp (α := Int × Nat) (compareLex (compareOn Prod.fst) (compareOn Prod.snd)) :=
    inferInstance
  exact htrans.isLE_trans (a := (s, m)) (b := (t, n)) (c := (u, k)) h h'

theorem order?_trans {r s t : Rank} {o o' : Ordering} (h : r.order? s = some o) (ho : o.isLE = true)
    (h' : s.order? t = some o') (ho' : o'.isLE = true) : ∃ o'', r.order? t = some o'' ∧ o''.isLE = true := by
  unfold order? at h
  split at h
  case h_7 => cases h
  case h_6 =>
    cases h
    cases t <;> cases h'
    exact ⟨_, rfl, isLE_then_trans ho ho'⟩
  all_goals
    cases h
    cases t <;> cases h'
    exact ⟨_, rfl, Std.TransCmp.isLE_trans ho ho'⟩

inductive Dimension
  | number | text | character | truth | identifier | time

def dimension : Rank → Dimension
  | .number _ => .number
  | .text _ => .text
  | .character _ => .character
  | .truth _ => .truth
  | .identifier _ => .identifier
  | .time .. => .time

theorem isSome_order?_iff {r s : Rank} : (r.order? s).isSome = true ↔ r.dimension = s.dimension := by
  cases r <;> cases s <;> simp [order?, dimension]

end Rank

namespace Value

/-- Date-times rank by instants or by clocks. Null and values with parts have no rank, and floating-point
numbers are left out. -/
def rank? (instants : Bool) : Value → Option Rank
  | .decimal d => some (.number d.finest)
  | .string s => some (.text s)
  | .char c => some (.character c)
  | .boolean b => some (.truth b)
  | .guid g => some (.identifier g.number)
  | .dateTime t => some (.time (t.second instants) t.clock.nano)
  | v => v.integer?.map fun n => .number (n * pow10 Decimal.maxScale)

def Label.dimension? : Label → Option Rank.Dimension
  | .byte _ | .int16 _ | .int32 _ | .int64 _ | .decimal _ => some .number
  | .string _ => some .text
  | .char _ => some .character
  | .boolean _ => some .truth
  | .guid _ => some .identifier
  | .dateTime _ => some .time
  | .null | .object _ | .list | .dictionary => none

theorem map_dimension_rank? (instants : Bool) (v : Value) :
    (v.rank? instants).map Rank.dimension = v.label?.bind Label.dimension? := by
  cases v <;> rfl

end Value

/-! ## Numbers -/

theorem Decimal.exists_ofInt? {n : Int} (h : inInt64 n = true) :
    ∃ d, Decimal.ofInt? n = some d ∧ d.finest = n * pow10 Decimal.maxScale := by
  rw [inInt64_iff] at h
  have hrange : n.natAbs < mantissaLimit ∧ 0 ≤ 28 := by
    unfold mantissaLimit
    omega
  refine ⟨_, dif_pos hrange, ?_⟩
  have hunits : Number.signed (decide (n < 0)) n.natAbs = n := by
    unfold Number.signed
    by_cases hn : n < 0
    · rw [if_pos (decide_eq_true hn)]
      omega
    · rw [if_neg fun hneg => hn (of_decide_eq_true hneg)]
      omega
  rw [Decimal.finest, Decimal.unitsAt, Decimal.units, hunits]
  rfl

/-- The operand is this many units of the last place. -/
inductive Operand.Measures : Operand → Int → Prop
  | whole {n : Int} (h : inInt64 n = true) : Measures (.whole n) (n * pow10 Decimal.maxScale)
  | decimal (d : Decimal) : Measures (.decimal d) d.finest

theorem Operands.order?_of_measures {a b : Operand} {k l : Int} (ha : a.Measures k) (hb : b.Measures l) :
    (Operands.of? a b).bind Operands.order? = some (compare k l) := by
  have hpos : (0 : Int) < pow10 Decimal.maxScale := Int.natCast_pos.mpr (pow10_pos _)
  cases ha with
  | whole h =>
    cases hb with
    | whole h' => exact congrArg some (compare_mul_right hpos).symm
    | decimal e =>
      obtain ⟨d, hd, hfinest⟩ := Decimal.exists_ofInt? h
      simp only [Operands.of?, Operand.toDecimal?, hd, Option.map_some, Option.bind_some, Operands.order?,
        Decimal.order_eq_compare, hfinest]
  | decimal d =>
    cases hb with
    | whole h' =>
      obtain ⟨e, he, hfinest⟩ := Decimal.exists_ofInt? h'
      simp only [Operands.of?, Operand.toDecimal?, he, Option.map_some, Option.bind_some, Operands.order?,
        Decimal.order_eq_compare, hfinest]
    | decimal e => exact congrArg some (Decimal.order_eq_compare d e)

namespace Value
variable {instants : Bool} {v w : Value}

theorem measures_of_operand? {a : Operand} (instants : Bool) (hfree : v.isFloatFree = true)
    (h : v.operand? = some a) : ∃ k, a.Measures k ∧ v.rank? instants = some (.number k) := by
  have hwide (n : Int) (hn : v.integer? = some n) : inInt64 n = true :=
    Ty.inInt64_of_holds (holds_of_integer? hn)
  cases v with
  | single | double => cases hfree
  | decimal d =>
    cases h
    exact ⟨d.finest, .decimal d, rfl⟩
  | byte | int16 | int32 | int64 =>
    cases h
    exact ⟨_, .whole (hwide _ rfl), rfl⟩
  | _ => cases h

theorem order?_of_operand? {a b : Operand} (instants : Bool) (hv : v.isFloatFree = true)
    (hw : w.isFloatFree = true) (ha : v.operand? = some a) (hb : w.operand? = some b) :
    v.order? w = (v.rank? instants).bind fun r => (w.rank? instants).bind r.order? := by
  obtain ⟨k, hk, hrank⟩ := measures_of_operand? instants hv ha
  obtain ⟨l, hl, hrank'⟩ := measures_of_operand? instants hw hb
  simp only [order?, ha, hb, hrank, hrank', Option.bind_some]
  exact Operands.order?_of_measures hk hl

/-! ## Order and equality by ranks -/

def AreReadAs (instants : Bool) (v w : Value) : Prop :=
  ∀ a b, v = .dateTime a → w = .dateTime b → DateTime.IsReadAs instants a b

theorem order?_eq_rank? (hv : v.isFloatFree = true) (hw : w.isFloatFree = true)
    (hread : AreReadAs instants v w) :
    v.order? w = (v.rank? instants).bind fun r => (w.rank? instants).bind r.order? := by
  cases v with
  | single | double => cases hv
  | byte | int16 | int32 | int64 | decimal =>
    cases w with
    | single | double => cases hw
    | byte | int16 | int32 | int64 | decimal => exact order?_of_operand? instants hv hw rfl rfl
    | _ => rfl
  | dateTime a =>
    cases w with
    | dateTime b => exact congrArg some (DateTime.order_of_isReadAs (hread a b rfl rfl))
    | _ => rfl
  | _ => cases w <;> rfl

theorem order?_of_isNull (h : (v.isNull || w.isNull) = true) : v.order? w = none := by
  rcases Bool.or_eq_true_iff.mp h with hv | hw
  · rw [(isNull_iff v).mp hv]
    cases w <;> rfl
  · rw [(isNull_iff w).mp hw]
    cases v <;> rfl

theorem equal_eq (v w : Value) :
    v.equal w = match v.order? w with
      | some o => o == .eq
      | none => v.same w := by
  unfold equal
  split
  · rename_i hnull
    rcases Bool.or_eq_true_iff.mp hnull with hv | hw
    · rw [(isNull_iff v).mp hv]
      cases w <;> rfl
    · rw [(isNull_iff w).mp hw]
      cases v <;> rfl
  · rfl

theorem dimension_of_same (instants : Bool) (hv : v.isFloatFree = true) (h : v.same w = true) :
    (v.rank? instants).map Rank.dimension = (w.rank? instants).map Rank.dimension := by
  obtain ⟨hlabel, -⟩ := (same_iff (isSome_label? hv) w).mp h
  rw [map_dimension_rank?, map_dimension_rank?, hlabel]

/-- Values are equal if they have one rank; those without a rank are compared within their kind. -/
theorem equal_iff (hv : v.isFloatFree = true) (hw : w.isFloatFree = true)
    (hread : AreReadAs instants v w) :
    v.equal w = true ↔
      (∃ r, v.rank? instants = some r ∧ w.rank? instants = some r) ∨
        v.rank? instants = none ∧ v.same w = true := by
  have hsame := dimension_of_same instants (w := w) hv
  rw [equal_eq, order?_eq_rank? hv hw hread]
  cases hr : v.rank? instants with
  | none => simp
  | some r =>
    rw [hr] at hsame
    cases hs : w.rank? instants with
    | none =>
      rw [hs] at hsame
      simpa using hsame
    | some s =>
      rw [hs] at hsame
      simp only [Option.bind_some, Option.some.injEq, exists_eq_left', reduceCtorEq, false_and, or_false]
      cases ho : r.order? s with
      | some o =>
        rw [eq_comm (a := s), ← Rank.order?_eq_some_eq_iff, ho, beq_iff_eq, Option.some.injEq]
      | none =>
        refine iff_of_false ?_ ?_
        · intro h
          have hdimension : r.dimension = s.dimension := Option.some.inj (hsame h)
          have hsome := Rank.isSome_order?_iff.mpr hdimension
          rw [ho] at hsome
          cases hsome
        · rintro rfl
          rw [Rank.order?_eq_some_eq_iff.mpr rfl] at ho
          cases ho

/-! ## Equality is an equivalence, and the order is transitive -/

def dateTime? : Value → Option DateTime
  | .dateTime t => some t
  | _ => none

theorem exists_areReadAs {vs : List Value} (h : DateTime.mixesOffsets (vs.filterMap dateTime?) = false) :
    ∃ instants, ∀ v ∈ vs, ∀ w ∈ vs, AreReadAs instants v w := by
  obtain ⟨instants, hread⟩ := DateTime.exists_isReadAs h
  refine ⟨instants, ?_⟩
  rintro v hv w hw a b rfl rfl
  exact hread a (List.mem_filterMap.mpr ⟨_, hv, rfl⟩) b (List.mem_filterMap.mpr ⟨_, hw, rfl⟩)

theorem mixesOffsets_pair (v w : Value) : DateTime.mixesOffsets ([v, w].filterMap dateTime?) = false :=
  DateTime.mixesOffsets_of_length_le (List.length_filterMap_le dateTime? [v, w])

theorem equal_refl (h : v.isFloatFree = true) : v.equal v = true := by
  obtain ⟨instants, hread⟩ := exists_areReadAs (mixesOffsets_pair v v)
  rw [equal_iff h h (hread v (by simp) v (by simp))]
  cases hr : v.rank? instants with
  | none => exact .inr ⟨rfl, same_refl h⟩
  | some r => exact .inl ⟨r, rfl, rfl⟩

theorem equal_symm (hv : v.isFloatFree = true) (hw : w.isFloatFree = true) (h : v.equal w = true) :
    w.equal v = true := by
  obtain ⟨instants, hread⟩ := exists_areReadAs (mixesOffsets_pair v w)
  rw [equal_iff hv hw (hread v (by simp) w (by simp))] at h
  rw [equal_iff hw hv (hread w (by simp) v (by simp))]
  rcases h with ⟨r, hr, hr'⟩ | ⟨hnone, hsame⟩
  · exact .inl ⟨r, hr', hr⟩
  · have hdimension := dimension_of_same instants hv hsame
    rw [hnone] at hdimension
    exact .inr ⟨Option.map_eq_none_iff.mp hdimension.symm, same_symm hv hsame⟩

section
variable {u : Value} (hu : u.isFloatFree = true) (hv : v.isFloatFree = true) (hw : w.isFloatFree = true)
  (hmix : DateTime.mixesOffsets ([u, v, w].filterMap dateTime?) = false)
include hu hv hw hmix

theorem equal_trans (huv : u.equal v = true) (hvw : v.equal w = true) : u.equal w = true := by
  obtain ⟨instants, hread⟩ := exists_areReadAs hmix
  rw [equal_iff hu hv (hread u (by simp) v (by simp))] at huv
  rw [equal_iff hv hw (hread v (by simp) w (by simp))] at hvw
  rw [equal_iff hu hw (hread u (by simp) w (by simp))]
  rcases huv with ⟨r, hr, hr'⟩ | ⟨hnone, hsame⟩
  · rcases hvw with ⟨s, hs, hs'⟩ | ⟨hnone', -⟩
    · rw [hr'] at hs
      cases hs
      exact .inl ⟨r, hr, hs'⟩
    · rw [hr'] at hnone'
      cases hnone'
  · have hdimension := dimension_of_same instants hu hsame
    rw [hnone] at hdimension
    have hv : v.rank? instants = none := Option.map_eq_none_iff.mp hdimension.symm
    rcases hvw with ⟨s, hs, -⟩ | ⟨-, hsame'⟩
    · rw [hv] at hs
      cases hs
    · exact .inr ⟨hnone, same_trans hu hsame hsame'⟩

theorem order?_trans {o o' : Ordering} (huv : u.order? v = some o) (ho : o.isLE = true)
    (hvw : v.order? w = some o') (ho' : o'.isLE = true) : ∃ o'', u.order? w = some o'' ∧ o''.isLE = true := by
  obtain ⟨instants, hread⟩ := exists_areReadAs hmix
  rw [order?_eq_rank? hu hv (hread u (by simp) v (by simp))] at huv
  rw [order?_eq_rank? hv hw (hread v (by simp) w (by simp))] at hvw
  rw [order?_eq_rank? hu hw (hread u (by simp) w (by simp))]
  obtain ⟨q, hq, huv⟩ := Option.bind_eq_some_iff.mp huv
  obtain ⟨r, hr, hqr⟩ := Option.bind_eq_some_iff.mp huv
  obtain ⟨r', hr', hvw⟩ := Option.bind_eq_some_iff.mp hvw
  obtain ⟨s, hs, hrs⟩ := Option.bind_eq_some_iff.mp hvw
  rw [hr] at hr'
  cases hr'
  obtain ⟨o'', hqs, ho''⟩ := Rank.order?_trans hqr ho hrs ho'
  exact ⟨o'', by rw [hq, hs]; exact hqs, ho''⟩

end

theorem compareBy_equal_iff : v.compareBy .equal w = .ok (.boolean true) ↔ v.equal w = true := by
  simp [compareBy]

theorem compareBy_lessOrEqual_iff :
    v.compareBy .lessOrEqual w = .ok (.boolean true) ↔ ∃ o, v.order? w = some o ∧ o.isLE = true := by
  simp only [compareBy]
  split
  · rename_i hnull
    simp [order?_of_isNull hnull]
  · cases v.order? w with
    | none => simp
    | some o => cases o <;> simp [ComparisonOp.admits]

end Value

namespace Expr

/-- Whether the comparison of two expressions, each of which has a value within `depth` levels, folds to
true. -/
def Holds (depth : Nat) (op : ComparisonOp) (x y : Expr) : Prop :=
  (binaryOf (.comparison op) x y).evaluateWithin (depth + 1) = .ok (.boolean true)

theorem holds_iff {depth : Nat} {op : ComparisonOp} {x y : Expr} {v w : Value}
    (hx : x.evaluateWithin depth = .ok v) (hy : y.evaluateWithin depth = .ok w) :
    Holds depth op x y ↔ v.compareBy op w = .ok (.boolean true) := by
  have hfold : (binaryOf (.comparison op) x y).evaluateWithin (depth + 1) = v.compareBy op w := by
    unfold evaluateWithin at hx hy ⊢
    rw [binaryOf, eval, hx, hy]
    rfl
  rw [Holds, hfold]

namespace Midnights

def lastSecond : WallClock :=
  ⟨2016, 12, 31, 23, 59, 59, 999999999,
    by decide, by decide, by decide, by decide, by decide, by decide, by decide⟩

def leapSecond : WallClock :=
  ⟨2016, 12, 31, 23, 59, 59, 1200000000,
    by decide, by decide, by decide, by decide, by decide, by decide, by decide⟩

def newYear : WallClock :=
  ⟨2017, 1, 1, 0, 0, 0, 0, by decide, by decide, by decide, by decide, by decide, by decide, by decide⟩

def utc : UtcOffset := ⟨0, by decide⟩

def east : UtcOffset := ⟨3600, by decide⟩

def shown (clock : WallClock) (zone : Zone) : Expr := .ofValue (.dateTime ⟨clock, zone⟩)

end Midnights

end Expr
end ResourceQuery
