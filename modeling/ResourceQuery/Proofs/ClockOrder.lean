import ResourceQuery.Calendar

/-! # Clocks in the order of their seconds

The months follow each other without gaps in the count of days. So clocks come in the order of the
seconds that have passed, and those of one second in the order of their nanoseconds.
-/
namespace ResourceQuery

theorem compare_add_natCast (base : Int) (m n : Nat) : compare (base + m) (base + n) = compare m n := by
  rcases Nat.lt_trichotomy m n with h | h | h
  · rw [Nat.compare_eq_lt.mpr h, Int.compare_eq_lt.mpr (by omega)]
  · rw [h, Nat.compare_eq_eq.mpr rfl, Int.compare_eq_eq.mpr rfl]
  · rw [Nat.compare_eq_gt.mpr h, Int.compare_eq_gt.mpr (by omega)]

/-- Numbers of two digits, the second one below `unit`, are in the order of their digits. -/
theorem compare_digits (unit p q : Int) {r s : Nat} (hr : r < unit) (hs : s < unit) :
    (compare p q).then (compare r s) = compare (p * unit + r) (q * unit + s) := by
  have hunit : 0 ≤ unit := by omega
  rcases Int.lt_trichotomy p q with h | h | h
  · have hstep : (p + 1) * unit ≤ q * unit := Int.mul_le_mul_of_nonneg_right h hunit
    rw [Int.add_mul, Int.one_mul] at hstep
    rw [Int.compare_eq_lt.mpr h, Int.compare_eq_lt.mpr (by omega)]
    rfl
  · rw [h, compare_add_natCast, Int.compare_eq_eq.mpr rfl]
    rfl
  · have hstep : (q + 1) * unit ≤ p * unit := Int.mul_le_mul_of_nonneg_right h hunit
    rw [Int.add_mul, Int.one_mul] at hstep
    rw [Int.compare_eq_gt.mpr h, Int.compare_eq_gt.mpr (by omega)]
    rfl

/-! ## Days -/

namespace WallClock

def monthStart (year : Int) (month : Nat) : Int :=
  let marchYear := if month ≤ 2 then year - 1 else year
  let marchMonth : Int := (month + 9 : Nat) % 12
  marchYear * 365 + marchYear / 4 - marchYear / 100 + marchYear / 400 + (marchMonth * 153 + 2) / 5

theorem dayNumber_eq (c : WallClock) : c.dayNumber = monthStart c.year c.month - 1 + c.day := by
  simp only [dayNumber, monthStart]
  omega

theorem monthStart_succ (year : Int) {month : Nat} (hfirst : 1 ≤ month) (hlast : month < 12) :
    monthStart year (month + 1) = monthStart year month + daysInMonth year month := by
  have hcases : month = 1 ∨ month = 2 ∨ month = 3 ∨ month = 4 ∨ month = 5 ∨ month = 6 ∨ month = 7 ∨
      month = 8 ∨ month = 9 ∨ month = 10 ∨ month = 11 := by omega
  rcases hcases with rfl | rfl | rfl | rfl | rfl | rfl | rfl | rfl | rfl | rfl | rfl
  case inr.inl =>
    -- Only here does the leap day count: the year of the calendar begins after it.
    have hleap : isLeapYear year = true ↔ year % 4 = 0 ∧ (year % 100 ≠ 0 ∨ year % 400 = 0) := by
      simp [isLeapYear]
    simp only [monthStart, daysInMonth, hleap, Nat.reduceLeDiff, Nat.reduceAdd, ↓reduceIte]
    split <;> omega
  all_goals
    simp only [monthStart, daysInMonth, Nat.reduceLeDiff, Nat.reduceAdd, Nat.reduceEqDiff, or_true, true_or,
      or_self, ↓reduceIte]
    omega

/-- A month is over when a later one of the year begins. -/
theorem monthStart_add_days_le (year : Int) {month later : Nat} (hfirst : 1 ≤ month) (h : month < later)
    (hlast : later ≤ 12) : monthStart year month + daysInMonth year month ≤ monthStart year later := by
  induction h with
  | refl => exact Int.le_of_eq (monthStart_succ year hfirst (by omega)).symm
  | @step later h ih =>
    have hlater : 1 ≤ later := Nat.le_trans hfirst (Nat.le_of_lt h)
    have hbefore := ih (by omega)
    have hnext := monthStart_succ year hlater (by omega)
    rw [Nat.succ_eq_add_one]
    omega

theorem monthStart_le (year : Int) {month later : Nat} (hfirst : 1 ≤ month) (h : month ≤ later)
    (hlast : later ≤ 12) : monthStart year month ≤ monthStart year later := by
  rcases Nat.lt_or_eq_of_le h with h | rfl
  · have hbefore := monthStart_add_days_le year hfirst h hlast
    omega
  · exact Int.le_refl _

/-- A year is over when a later one begins. -/
theorem december_add_days_le {year later : Int} (h : year < later) :
    monthStart year 12 + 31 ≤ monthStart later 1 := by
  simp only [monthStart, Nat.reduceLeDiff, ↓reduceIte]
  omega

theorem dayNumber_lt_of_month {a b : WallClock} (hyear : a.year = b.year) (h : a.month < b.month) :
    a.dayNumber < b.dayNumber := by
  have hmonth := monthStart_add_days_le a.year a.month_range.1 h b.month_range.2
  have ha := a.day_range
  have hb := b.day_range
  rw [dayNumber_eq, dayNumber_eq, ← hyear]
  omega

theorem dayNumber_lt_of_year {a b : WallClock} (h : a.year < b.year) : a.dayNumber < b.dayNumber := by
  have hover : monthStart a.year a.month + daysInMonth a.year a.month ≤ monthStart a.year 12 + 31 := by
    rcases Nat.lt_or_eq_of_le a.month_range.2 with hmonth | hmonth
    · have hbefore := monthStart_add_days_le a.year a.month_range.1 hmonth (Nat.le_refl 12)
      omega
    · rw [hmonth]
      exact Int.le_refl _
  have hyear := december_add_days_le h
  have hbegun := monthStart_le b.year (Nat.le_refl 1) b.month_range.1 b.month_range.2
  have ha := a.day_range
  have hb := b.day_range
  rw [dayNumber_eq, dayNumber_eq]
  omega

theorem compare_date (a b : WallClock) :
    (compare a.year b.year).then ((compare a.month b.month).then (compare a.day b.day)) =
      compare a.dayNumber b.dayNumber := by
  rcases Int.lt_trichotomy a.year b.year with hyear | hyear | hyear
  · rw [Int.compare_eq_lt.mpr hyear, Int.compare_eq_lt.mpr (dayNumber_lt_of_year hyear)]
    rfl
  · rw [Int.compare_eq_eq.mpr hyear, Ordering.eq_then]
    rcases Nat.lt_trichotomy a.month b.month with hmonth | hmonth | hmonth
    · rw [Nat.compare_eq_lt.mpr hmonth, Int.compare_eq_lt.mpr (dayNumber_lt_of_month hyear hmonth)]
      rfl
    · rw [Nat.compare_eq_eq.mpr hmonth, Ordering.eq_then, dayNumber_eq, dayNumber_eq, hyear, hmonth]
      exact (compare_add_natCast _ _ _).symm
    · rw [Nat.compare_eq_gt.mpr hmonth, Int.compare_eq_gt.mpr (dayNumber_lt_of_month hyear.symm hmonth)]
      rfl
  · rw [Int.compare_eq_gt.mpr hyear, Int.compare_eq_gt.mpr (dayNumber_lt_of_year hyear)]
    rfl

/-! ## Seconds -/

theorem order_eq (a b : WallClock) :
    a.order b = (compare a.secondNumber b.secondNumber).then (compare a.nano b.nano) := by
  have hsecond (c : WallClock) :
      c.secondNumber = ((c.dayNumber * 24 + c.hour) * 60 + c.minute) * 60 + c.second := by
    unfold secondNumber
    omega
  have hhour := compare_digits 24 a.dayNumber b.dayNumber (Int.ofNat_lt.mpr a.hour_lt)
    (Int.ofNat_lt.mpr b.hour_lt)
  have hminute := compare_digits 60 (a.dayNumber * 24 + a.hour) (b.dayNumber * 24 + b.hour)
    (Int.ofNat_lt.mpr a.minute_lt) (Int.ofNat_lt.mpr b.minute_lt)
  have hseconds := compare_digits 60 ((a.dayNumber * 24 + a.hour) * 60 + a.minute)
    ((b.dayNumber * 24 + b.hour) * 60 + b.minute) (Int.ofNat_lt.mpr a.second_lt)
    (Int.ofNat_lt.mpr b.second_lt)
  rw [order, hsecond, hsecond, ← hseconds, ← hminute, ← hhour, ← compare_date]
  simp only [Ordering.then_assoc]

end WallClock

/-! ## Instants and clocks -/

namespace DateTime
variable {a b : DateTime}

def offset? (t : DateTime) : Option UtcOffset :=
  match t.zone with
  | .offset distance => some distance
  | _ => none

theorem order_of_offset? {p q : UtcOffset} (ha : a.offset? = some p) (hb : b.offset? = some q) :
    a.order b = instantOrder a.clock p b.clock q := by
  obtain ⟨a, zone⟩ := a
  obtain ⟨b, zone'⟩ := b
  cases zone <;> cases ha
  cases zone' <;> cases hb
  rfl

theorem order_of_offset?_eq_none (h : a.offset? = none ∨ b.offset? = none) :
    a.order b = a.clock.order b.clock := by
  obtain ⟨a, zone⟩ := a
  obtain ⟨b, zone'⟩ := b
  rcases h with ha | hb
  · cases zone <;> cases ha <;> cases zone' <;> rfl
  · cases zone' <;> cases hb <;> cases zone <;> rfl

theorem instantOrder_of_same (c d : WallClock) (p : UtcOffset) : instantOrder c p d p = c.order d := by
  have hshift : compare (c.secondNumber - p.seconds) (d.secondNumber - p.seconds) =
      compare c.secondNumber d.secondNumber := by
    rw [Int.compare_eq_ite_lt, Int.compare_eq_ite_lt]
    simp only [Int.sub_lt_sub_right_iff]
  rw [instantOrder, hshift, WallClock.order_eq]

/-- The second that a date-time is in, by its instant if the offset is to count and otherwise by what
the clock shows. -/
def second (instants : Bool) (t : DateTime) : Int :=
  match instants, t.offset? with
  | true, some distance => t.clock.secondNumber - distance.seconds
  | _, _ => t.clock.secondNumber

theorem second_of_offset? {p : UtcOffset} (h : a.offset? = some p) :
    a.second true = a.clock.secondNumber - p.seconds := by
  unfold second
  rw [h]

/-- Whether two date-times are compared in the given way. With one offset both ways are the same. -/
def IsReadAs (instants : Bool) (a b : DateTime) : Prop :=
  if instants then a.offset?.isSome = true ∧ b.offset?.isSome = true
  else ∀ p q, a.offset? = some p → b.offset? = some q → p = q

theorem order_of_isReadAs {instants : Bool} (h : IsReadAs instants a b) :
    a.order b =
      (compare (a.second instants) (b.second instants)).then (compare a.clock.nano b.clock.nano) := by
  cases instants with
  | true =>
    obtain ⟨ha, hb⟩ := h
    obtain ⟨p, hp⟩ := Option.isSome_iff_exists.mp ha
    obtain ⟨q, hq⟩ := Option.isSome_iff_exists.mp hb
    rw [order_of_offset? hp hq, second_of_offset? hp, second_of_offset? hq, instantOrder]
  | false =>
    have hclock : a.order b = a.clock.order b.clock := by
      cases hp : a.offset? with
      | none => exact order_of_offset?_eq_none (.inl hp)
      | some p =>
        cases hq : b.offset? with
        | none => exact order_of_offset?_eq_none (.inr hq)
        | some q =>
          cases h p q hp hq
          rw [order_of_offset? hp hq, instantOrder_of_same]
    rw [hclock, WallClock.order_eq]
    rfl

/-- Whether a date-time without an offset stands beside two of different offsets. -/
def mixesOffsets (ts : List DateTime) : Bool :=
  let offsets := ts.filterMap offset?
  ts.any (·.offset?.isNone) && offsets.any fun p => offsets.any fun q => decide (p ≠ q)

theorem mixesOffsets_of_length_le {ts : List DateTime} (h : ts.length ≤ 2) : mixesOffsets ts = false := by
  rcases ts with _ | ⟨a, _ | ⟨b, _ | ⟨c, ts⟩⟩⟩
  · rfl
  · cases ha : a.offset? <;> simp [mixesOffsets, ha]
  · cases ha : a.offset? <;> cases hb : b.offset? <;> simp [mixesOffsets, ha, hb]
  · simp only [List.length_cons] at h
    omega

/-- All others can be compared in one way. -/
theorem exists_isReadAs {ts : List DateTime} (h : mixesOffsets ts = false) :
    ∃ instants, ∀ a ∈ ts, ∀ b ∈ ts, IsReadAs instants a b := by
  rcases Bool.and_eq_false_iff.mp h with hall | hsame
  · have hoffset (t : DateTime) (ht : t ∈ ts) : t.offset?.isSome = true := by
      have hnone := List.any_eq_false.mp hall t ht
      simpa [Option.isSome_iff_ne_none] using hnone
    exact ⟨true, fun a ha b hb => ⟨hoffset a ha, hoffset b hb⟩⟩
  · refine ⟨false, ?_⟩
    intro a ha b hb p q hp hq
    have hpmem : p ∈ ts.filterMap offset? := List.mem_filterMap.mpr ⟨a, ha, hp⟩
    have hqmem : q ∈ ts.filterMap offset? := List.mem_filterMap.mpr ⟨b, hb, hq⟩
    simp only [List.any_eq_false, List.any_eq_true, not_exists, not_and, decide_eq_true_eq,
      Decidable.not_not] at hsame
    exact hsame p hpmem q hqmem

end DateTime
end ResourceQuery
