import ResourceQuery.Proofs.LiteralValues
import ResourceQuery.Proofs.SameValues

/-! # What literals tell of offsets

The literal of a date with an offset tells what the clock shows, and of the offset its side of UTC and the
nearest minute. So offsets of whole minutes are told from each other, and others may be taken for an offset,
and the date for an instant, that is less than a minute away.
-/
namespace ResourceQuery
open Number

namespace UtcOffset
variable {p q : UtcOffset}

theorem eq_of_seconds (h : p.seconds = q.seconds) : p = q := by
  cases p
  cases q
  cases h
  rfl

/-- The minutes that are shown; a half minute counts as a minute. -/
def shownMinutes (o : UtcOffset) : Nat := (o.seconds.natAbs + 30) / 60

/-- On the same side of UTC, and nearest to the same minute. -/
def ShownAlike (p q : UtcOffset) : Prop :=
  (p.seconds < 0 ↔ q.seconds < 0) ∧ p.shownMinutes = q.shownMinutes

def sign (o : UtcOffset) : Char := if o.seconds < 0 then '-' else '+'

theorem sign_eq_iff : p.sign = q.sign ↔ (p.seconds < 0 ↔ q.seconds < 0) := by
  by_cases hp : p.seconds < 0 <;> by_cases hq : q.seconds < 0 <;> simp [sign, hp, hq]

theorem toList_text (o : UtcOffset) : o.text.toList = o.sign :: ((zeroPadded 2 (o.shownMinutes / 60)).toList ++
    ':' :: (zeroPadded 2 (o.shownMinutes % 60)).toList) := by
  by_cases h : o.seconds < 0 <;> simp [text, sign, shownMinutes, h]

theorem shownMinutes_le (o : UtcOffset) : o.shownMinutes ≤ 1440 := by
  have hrange := o.range
  unfold shownMinutes
  omega

theorem length_hours (o : UtcOffset) : (zeroPadded 2 (o.shownMinutes / 60)).toList.length = 2 := by
  have hle := o.shownMinutes_le
  exact WallClock.length_zeroPadded_two (by omega)

theorem length_minutes (o : UtcOffset) : (zeroPadded 2 (o.shownMinutes % 60)).toList.length = 2 :=
  WallClock.length_zeroPadded_two (by omega)

theorem length_text (o : UtcOffset) : o.text.toList.length = 6 := by
  rw [toList_text, List.length_cons, List.length_append, List.length_cons, length_hours, length_minutes]

theorem text_eq_iff : p.text = q.text ↔ p.ShownAlike q := by
  rw [← String.toList_inj, toList_text, toList_text]
  constructor
  · intro h
    obtain ⟨hsign, h⟩ := List.cons.inj h
    obtain ⟨hhours, h⟩ := List.append_inj h (by rw [length_hours, length_hours])
    have hhours := zeroPadded_injective hhours
    have hminutes := zeroPadded_injective (List.cons.inj h).2
    exact ⟨sign_eq_iff.mp hsign, by omega⟩
  · rintro ⟨hsign, hminutes⟩
    rw [sign_eq_iff.mpr hsign, hminutes]

/-- What is taken for an offset is less than a minute away from it. -/
theorem ShownAlike.near (h : p.ShownAlike q) : (p.seconds - q.seconds).natAbs < 60 := by
  obtain ⟨hsign, hminutes⟩ := h
  unfold shownMinutes at hminutes
  omega

theorem ShownAlike.eq_of_minutes (h : p.ShownAlike q) (hp : 60 ∣ p.seconds) (hq : 60 ∣ q.seconds) :
    p = q := by
  have hnear := h.near
  exact eq_of_seconds (by omega)

end UtcOffset

namespace DateTime
variable {a b : DateTime} {p q : UtcOffset}

theorem eq_of_offset? (h : a.offset? = some p) : a = ⟨a.clock, .offset p⟩ := by
  obtain ⟨clock, zone⟩ := a
  cases zone <;> cases h
  rfl

theorem literal_of_offset? (h : a.offset? = some p) : a.literal = a.clock.text "T" ++ p.text := by
  rw [eq_of_offset? h]
  rfl

/-- The offset has a fixed width, so the rest is the clock. -/
theorem literal_eq_iff_shownAlike (ha : a.offset? = some p) (hb : b.offset? = some q) :
    a.literal = b.literal ↔ a.clock.ShownAlike b.clock ∧ p.ShownAlike q := by
  rw [literal_of_offset? ha, literal_of_offset? hb, ← UtcOffset.text_eq_iff, ← WallClock.text_eq_iff]
  constructor
  · intro h
    have hlists := congrArg String.toList h
    rw [String.toList_append, String.toList_append] at hlists
    obtain ⟨hclock, hoffset⟩ := List.append_inj' hlists (by rw [UtcOffset.length_text, UtcOffset.length_text])
    exact ⟨String.toList_inj.mp hclock, String.toList_inj.mp hoffset⟩
  · rintro ⟨hclock, hoffset⟩
    rw [hclock, hoffset]

/-- Clocks that show the same are at one instant only if they are one clock with one offset. -/
theorem same_iff_eq (ha : a.offset? = some p) (hb : b.offset? = some q) (hclock : a.clock.ShownAlike b.clock) :
    a.same b = true ↔ a = b := by
  have hsame : a.same b = (instantOrder a.clock p b.clock q == .eq) := by
    rw [eq_of_offset? ha, eq_of_offset? hb]
    rfl
  rw [hsame, beq_iff_eq, instantOrder_eq_eq_iff]
  constructor
  · rintro ⟨hseconds, hnano⟩
    have hclock := hclock.eq_of_nano hnano
    rw [hclock] at hseconds
    rw [eq_of_offset? ha, eq_of_offset? hb, hclock, UtcOffset.eq_of_seconds (p := p) (q := q) (by omega)]
  · rintro rfl
    rw [ha] at hb
    cases hb
    exact ⟨rfl, rfl⟩

/-- The nanoseconds that a clock has counted when its zone is taken into account. -/
def nanosecond (a : DateTime) : Int := a.second true * 1000000000 + a.clock.nano

theorem nanosecond_of_offset? (ha : a.offset? = some p) :
    a.nanosecond = a.clock.shown.secondNumber * 1000000000 + a.clock.shown.nano - p.seconds * 1000000000 := by
  rw [nanosecond, second_of_offset? ha, WallClock.secondNumber_shown]
  omega

end DateTime

/-- Dates with offsets have the same literal exactly if their clocks show the same and their offsets are
shown alike. They are then the same instant only if they are the same date, but in any case less than a
minute apart. They are the same date if their offsets are whole minutes and their leap seconds end a
minute. -/
theorem Value.literal_offset_eq_iff {a b : DateTime} {p q : UtcOffset} (ha : a.offset? = some p)
    (hb : b.offset? = some q) :
    ((dateTime a).literal = (dateTime b).literal ↔ a.clock.ShownAlike b.clock ∧ p.ShownAlike q) ∧
    ((dateTime a).literal = (dateTime b).literal →
      (a.same b = true ↔ a = b) ∧
      (a.nanosecond - b.nanosecond).natAbs < 60 * 1000000000 ∧
      (60 ∣ p.seconds → 60 ∣ q.seconds → p = q) ∧
      (60 ∣ p.seconds → 60 ∣ q.seconds → (dateTime a).LeapLast → (dateTime b).LeapLast → a = b)) := by
  have hliteral : (dateTime a).literal = (dateTime b).literal ↔
      a.clock.ShownAlike b.clock ∧ p.ShownAlike q := by
    rw [← DateTime.literal_eq_iff_shownAlike ha hb, literal, literal, Except.ok.injEq, String.append_left_inj,
      String.append_right_inj]
  refine ⟨hliteral, fun h => ?_⟩
  obtain ⟨hclock, halike⟩ := hliteral.mp h
  refine ⟨DateTime.same_iff_eq ha hb hclock, ?_, halike.eq_of_minutes, fun hp hq hlast hlast' => ?_⟩
  · have hnear := halike.near
    rw [DateTime.nanosecond_of_offset? ha, DateTime.nanosecond_of_offset? hb,
      show a.clock.shown = b.clock.shown from hclock]
    omega
  · rw [DateTime.eq_of_offset? ha, DateTime.eq_of_offset? hb, hclock.eq_of_leap_last hlast hlast',
      halike.eq_of_minutes hp hq]

namespace UtcOffset.Sample

/-- A clock that is so many seconds ahead of UTC. -/
def ahead (clock : WallClock) (seconds : Int) (range : -86400 < seconds ∧ seconds < 86400 := by decide) :
    DateTime := ⟨clock, .offset ⟨seconds, range⟩⟩

end UtcOffset.Sample

open UtcOffset.Sample WallClock.Sample in
/-- Ten seconds more than two hours are taken for two hours, which is another instant; two hours and a
minute are not. A zone that is some seconds off has its leap second after another second of the minute, and
it is taken for the next one. -/
theorem Value.literal_offset_eq_iff_departure :
    (dateTime (ahead departure 7200)).literal = (dateTime (ahead departure 7210)).literal ∧
    (ahead departure 7200).same (ahead departure 7210) = false ∧
    (dateTime (ahead departure 7200)).literal ≠ (dateTime (ahead departure 7260)).literal ∧
    (dateTime (ahead leapAfterSeven 7208)).literal = (dateTime (ahead eight 7208)).literal ∧
    (ahead leapAfterSeven 7208).same (ahead eight 7208) = false := by
  have hten := literal_offset_eq_iff (a := ahead departure 7200) (b := ahead departure 7210) rfl rfl
  have hminute := literal_offset_eq_iff (a := ahead departure 7200) (b := ahead departure 7260) rfl rfl
  have hleap := literal_offset_eq_iff (a := ahead leapAfterSeven 7208) (b := ahead eight 7208) rfl rfl
  have hsame := hten.1.mpr ⟨rfl, by decide, by decide⟩
  have hnext := hleap.1.mpr ⟨by decide, by decide, by decide⟩
  refine ⟨hsame, ?_, fun h => ?_, hnext, ?_⟩
  · rw [Bool.eq_false_iff, Ne, (hten.2 hsame).1]
    decide
  · exact absurd ((hminute.2 h).2.2.1 (by decide) (by decide)) (by decide)
  · rw [Bool.eq_false_iff, Ne, (hleap.2 hnext).1]
    decide

end ResourceQuery
