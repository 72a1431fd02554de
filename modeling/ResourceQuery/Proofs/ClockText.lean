import ResourceQuery.Proofs.Digits

/-! # Texts of dates and times

All fields but the year and the fraction have a fixed width. A year is told by its sign and digits,
and a fraction by how many places it has. A leap second is shown as the sixtieth second if it ends its
minute, and otherwise as the second that follows it, which the text does not tell it from.
-/
namespace ResourceQuery.WallClock
open Number

/-! ## Years -/

/-- The sign that a year has if it is not one of four digits. -/
def yearSign (year : Int) : String :=
  if 0 ≤ year ∧ year ≤ 9999 then "" else if year < 0 then "-" else "+"

theorem yearText_eq (year : Int) : yearText year = yearSign year ++ zeroPadded 4 year.natAbs := by
  unfold yearText yearSign
  split <;> simp

theorem mem_yearText_iff {year : Int} {c : Char} (hc : c.isDigit = false) :
    c ∈ (yearText year).toList ↔ c ∈ (yearSign year).toList := by
  simp [yearText_eq, notMem_zeroPadded hc]

theorem minus_mem_yearSign_iff {year : Int} : '-' ∈ (yearSign year).toList ↔ year < 0 := by
  unfold yearSign
  split
  · simp
    omega
  · split <;> simp <;> omega

theorem plus_mem_yearSign_iff {year : Int} : '+' ∈ (yearSign year).toList ↔ 9999 < year := by
  unfold yearSign
  split
  · simp
    omega
  · split <;> simp <;> omega

theorem yearText_injective {year year' : Int} (h : (yearText year).toList = (yearText year').toList) :
    year = year' := by
  have hminus : year < 0 ↔ year' < 0 := by
    rw [← minus_mem_yearSign_iff, ← minus_mem_yearSign_iff, ← mem_yearText_iff (by decide), h,
      mem_yearText_iff (by decide)]
  have hplus : 9999 < year ↔ 9999 < year' := by
    rw [← plus_mem_yearSign_iff, ← plus_mem_yearSign_iff, ← mem_yearText_iff (by decide), h,
      mem_yearText_iff (by decide)]
  have hplain : (0 ≤ year ∧ year ≤ 9999) ↔ (0 ≤ year' ∧ year' ≤ 9999) := by omega
  have hsign : yearSign year = yearSign year' := by simp only [yearSign, hplain, hminus]
  rw [yearText_eq, yearText_eq, hsign, String.toList_append, String.toList_append] at h
  have habs : year.natAbs = year'.natAbs := zeroPadded_injective (List.append_cancel_left h)
  omega

/-! ## Fractions -/

def nanoOfText (cs : List Char) : Nat := Nat.ofDigitChars 10 cs.tail 0 * pow10 (9 - cs.tail.length)

theorem nanoOfText_point {places n : Nat} (hp : 0 < places) (h : n < pow10 places) :
    nanoOfText ("." ++ zeroPadded places n).toList = n * pow10 (9 - places) := by
  have htail : ("." ++ zeroPadded places n).toList.tail = (zeroPadded places n).toList := by simp
  rw [nanoOfText, htail, ofDigitChars_zeroPadded, length_zeroPadded hp h]

theorem nanoOfText_fractionText {nano : Nat} (h : nano < 1000000000) :
    nanoOfText (fractionText nano).toList = nano := by
  have hmilli : nano / 1000000 < pow10 3 := Nat.div_lt_of_lt_mul h
  have hmicro : nano / 1000 < pow10 6 := Nat.div_lt_of_lt_mul h
  by_cases hzero : nano = 0
  · subst hzero
    rfl
  rw [fractionText, if_neg hzero]
  by_cases hm : nano % 1000000 = 0
  · rw [if_pos hm, nanoOfText_point (by decide) hmilli]
    exact Nat.div_mul_cancel (Nat.dvd_of_mod_eq_zero hm)
  rw [if_neg hm]
  by_cases hu : nano % 1000 = 0
  · rw [if_pos hu, nanoOfText_point (by decide) hmicro]
    exact Nat.div_mul_cancel (Nat.dvd_of_mod_eq_zero hu)
  · rw [if_neg hu, nanoOfText_point (by decide) h]
    exact Nat.mul_one nano

/-! ## Dates and times -/

theorem length_zeroPadded_two {n : Nat} (h : n < 100) : (zeroPadded 2 n).toList.length = 2 :=
  length_zeroPadded (by decide) h

section
variable (c : WallClock)

theorem day_lt : c.day < 100 := by
  have hday := c.day_range
  unfold daysInMonth at hday
  grind

def shownSecond : Nat := c.second + c.nano / 1000000000

theorem shownSecond_lt : c.shownSecond < 100 := by
  have hs := c.second_lt
  have hn := c.nano_lt
  unfold shownSecond
  omega

theorem toList_dateText : c.dateText.toList = (yearText c.year).toList ++
    '-' :: ((zeroPadded 2 c.month).toList ++ '-' :: (zeroPadded 2 c.day).toList) := by
  simp [dateText]

theorem toList_timeText : c.timeText.toList = (zeroPadded 2 c.hour).toList ++
    ':' :: ((zeroPadded 2 c.minute).toList ++ ':' :: ((zeroPadded 2 c.shownSecond).toList ++
      (fractionText (c.nano % 1000000000)).toList)) := by
  simp [timeText, shownSecond]

end
variable {c d : WallClock}

theorem dateText_injective (h : c.dateText.toList = d.dateText.toList) :
    c.year = d.year ∧ c.month = d.month ∧ c.day = d.day := by
  have hmonth (c : WallClock) : (zeroPadded 2 c.month).toList.length = 2 :=
    length_zeroPadded_two (by have := c.month_range; omega)
  have hday (c : WallClock) : (zeroPadded 2 c.day).toList.length = 2 := length_zeroPadded_two c.day_lt
  rw [toList_dateText, toList_dateText] at h
  obtain ⟨hy, h⟩ := List.append_inj' h (by simp [hmonth, hday])
  obtain ⟨hm, h⟩ := List.append_inj (List.cons.inj h).2 (by rw [hmonth, hmonth])
  exact ⟨yearText_injective hy, zeroPadded_injective hm, zeroPadded_injective (List.cons.inj h).2⟩

theorem timeText_injective (h : c.timeText.toList = d.timeText.toList) :
    c.hour = d.hour ∧ c.minute = d.minute ∧ c.shownSecond = d.shownSecond ∧
      c.nano % 1000000000 = d.nano % 1000000000 := by
  have hhour (c : WallClock) : (zeroPadded 2 c.hour).toList.length = 2 :=
    length_zeroPadded_two (by have := c.hour_lt; omega)
  have hminute (c : WallClock) : (zeroPadded 2 c.minute).toList.length = 2 :=
    length_zeroPadded_two (by have := c.minute_lt; omega)
  have hsecond (c : WallClock) : (zeroPadded 2 c.shownSecond).toList.length = 2 :=
    length_zeroPadded_two c.shownSecond_lt
  rw [toList_timeText, toList_timeText] at h
  obtain ⟨hh, h⟩ := List.append_inj h (by rw [hhour, hhour])
  obtain ⟨hm, h⟩ := List.append_inj (List.cons.inj h).2 (by rw [hminute, hminute])
  obtain ⟨hs, hf⟩ := List.append_inj (List.cons.inj h).2 (by rw [hsecond, hsecond])
  refine ⟨zeroPadded_injective hh, zeroPadded_injective hm, zeroPadded_injective hs, ?_⟩
  rw [← nanoOfText_fractionText (Nat.mod_lt c.nano (by decide)), hf,
    nanoOfText_fractionText (Nat.mod_lt d.nano (by decide))]

section
variable {x : Char} (hd : x.isDigit = false) (hx : x ∉ "-+:.".toList)
include hd hx

theorem notMem_yearText (year : Int) : x ∉ (yearText year).toList := by
  rw [mem_yearText_iff hd]
  have hsub : (yearSign year).toList ⊆ "-+:.".toList := by
    unfold yearSign
    split
    · decide
    · split <;> decide
  exact fun h => hx (hsub h)

theorem notMem_fractionText (nano : Nat) : x ∉ (fractionText nano).toList := by
  have hpoint : x ≠ '.' := by
    rintro rfl
    exact hx (by decide)
  unfold fractionText
  split
  · simp
  · split
    · simp [hpoint, notMem_zeroPadded hd]
    · split <;> simp [hpoint, notMem_zeroPadded hd]

/-- Dates and times have digits and a few marks only. -/
theorem notMem_dateText : x ∉ c.dateText.toList := by
  have hminus : x ≠ '-' := by
    rintro rfl
    exact hx (by decide)
  simp [toList_dateText, notMem_yearText hd hx, notMem_zeroPadded hd, hminus]

theorem notMem_timeText : x ∉ c.timeText.toList := by
  have hcolon : x ≠ ':' := by
    rintro rfl
    exact hx (by decide)
  simp [toList_timeText, notMem_fractionText hd hx, notMem_zeroPadded hd, hcolon]

end

theorem toList_text : (c.text "T").toList = c.dateText.toList ++ 'T' :: c.timeText.toList := by
  simp [text]

/-! ## What a clock shows -/

/-- A clock whose leap second, if it is at one, ends its minute. -/
structure Shown extends WallClock where
  leap_last : nano < 1000000000 ∨ second = 59
  deriving DecidableEq

/-- A leap second that does not end its minute is shown as the second after it. -/
def shown (c : WallClock) : Shown :=
  if h : 1000000000 ≤ c.nano ∧ c.second < 59 then
    { c with
      second := c.second + 1
      nano := c.nano - 1000000000
      second_lt := by omega
      nano_lt := by have := c.nano_lt; omega
      leap_last := by have := c.nano_lt; omega }
  else ⟨c, by have := c.second_lt; omega⟩

def ShownAlike (c d : WallClock) : Prop := c.shown = d.shown

instance (c d : WallClock) : Decidable (c.ShownAlike d) := inferInstanceAs (Decidable (c.shown = d.shown))

theorem shown_of_leap_last (h : c.nano < 1000000000 ∨ c.second = 59) : c.shown.toWallClock = c := by
  rw [shown, dif_neg (by omega)]

theorem ShownAlike.eq_of_leap_last (h : c.ShownAlike d) (hc : c.nano < 1000000000 ∨ c.second = 59)
    (hd : d.nano < 1000000000 ∨ d.second = 59) : c = d := by
  rw [← shown_of_leap_last hc, ← shown_of_leap_last hd, h]

/-- The nanoseconds that the clock has counted are all shown. -/
theorem secondNumber_shown : c.shown.secondNumber * 1000000000 + c.shown.nano =
    c.secondNumber * 1000000000 + c.nano := by
  unfold shown
  split
  · simp only [secondNumber, dayNumber]
    omega
  · rfl

theorem ShownAlike.eq_of_nano (h : c.ShownAlike d) (hnano : c.nano = d.nano) : c = d := by
  have hsplit := congrArg Shown.toWallClock h
  unfold shown at hsplit
  split at hsplit <;> split at hsplit
  · cases c
    cases d
    simp_all
  · have := congrArg WallClock.nano hsplit
    simp only at this
    omega
  · have := congrArg WallClock.nano hsplit
    simp only at this
    omega
  · exact hsplit

theorem text_shown (separator : String) : c.shown.text separator = c.text separator := by
  unfold shown
  split
  · have hsecond : c.second + 1 + (c.nano - 1000000000) / 1000000000 = c.second + c.nano / 1000000000 := by
      omega
    have hfraction : (c.nano - 1000000000) % 1000000000 = c.nano % 1000000000 := by omega
    simp only [text, dateText, timeText, hsecond, hfraction]
  · rfl

theorem Shown.text_injective {c d : Shown} (h : c.text "T" = d.text "T") : c = d := by
  have hlists := congrArg String.toList h
  rw [toList_text, toList_text, List.append_cons_inj_of_notMem (notMem_dateText (by decide) (by decide))
    (notMem_timeText (by decide) (by decide))] at hlists
  obtain ⟨hyear, hmonth, hday⟩ := dateText_injective hlists.1
  obtain ⟨hhour, hminute, hshown, hfraction⟩ := timeText_injective hlists.2.2
  -- A clock that shows second 60 shows a leap second.
  have hsecond : c.second = d.second ∧ c.nano = d.nano := by
    have := c.leap_last
    have := c.second_lt
    have := c.nano_lt
    have := d.leap_last
    have := d.second_lt
    have := d.nano_lt
    unfold shownSecond at hshown
    omega
  cases c with
  | mk c _ =>
    cases d with
    | mk d _ =>
      cases c
      cases d
      simp_all

theorem text_eq_iff : c.text "T" = d.text "T" ↔ c.ShownAlike d := by
  rw [← text_shown, ← text_shown (c := d)]
  exact ⟨Shown.text_injective, fun h => by rw [h]⟩

/-- The date and time, marked if it is that of UTC. -/
def markedText (c : WallClock) (utc : Bool) : String := c.text "T" ++ (if utc then "Z" else "")

theorem markedText_shown (utc : Bool) : c.shown.markedText utc = c.markedText utc := by
  rw [markedText, markedText, text_shown]

theorem mark_mem_markedText_iff {utc : Bool} : 'Z' ∈ (c.markedText utc).toList ↔ utc = true := by
  have htext : 'Z' ∉ (c.text "T").toList := by
    simp [toList_text, notMem_dateText (x := 'Z') (by decide) (by decide),
      notMem_timeText (x := 'Z') (by decide) (by decide)]
  cases utc <;> simp [markedText, htext]

theorem markedText_injective {c d : Shown} {utc utc' : Bool} (h : c.markedText utc = d.markedText utc') :
    c = d ∧ utc = utc' := by
  have hutc : utc = utc' := by
    rw [Bool.eq_iff_iff, ← mark_mem_markedText_iff (c := c.toWallClock), h, mark_mem_markedText_iff]
  subst hutc
  exact ⟨Shown.text_injective ((String.append_left_inj _).mp h), rfl⟩

end ResourceQuery.WallClock
