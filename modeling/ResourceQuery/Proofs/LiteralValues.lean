import ResourceQuery.Proofs.ClockText

/-! # What literals tell

The literal of a value tells its kind and the value itself, but for what the grammar does not
distinguish. Left out are floating-point numbers, dates with an offset, of which only the minutes are
shown, and values without a literal.
-/
namespace ResourceQuery

namespace Decimal
variable {d e : Decimal}

def isNegativeZero (d : Decimal) : Bool := d.isZero && d.negative

theorem natAbs_units (d : Decimal) : d.units.natAbs = d.mantissa := by
  unfold units Number.signed
  split <;> omega

theorem units_neg_iff (h : d.mantissa ≠ 0) : d.units < 0 ↔ d.negative = true := by
  unfold units Number.signed
  split
  · exact iff_of_true (by omega) ‹_›
  · exact iff_of_false (by omega) ‹_›

/-- Numbers of one scale that compare as equal are the same but for the sign of zero. -/
theorem eq_of_order_eq (h : d.order e = .eq) (hscale : d.scale = e.scale)
    (hzero : d.isNegativeZero = e.isNegativeZero) : d = e := by
  have hunits : d.units = e.units := by
    have hpow := Number.pow10_pos e.scale
    rw [order, Std.compare_eq_iff_eq, hscale] at h
    exact Int.eq_of_mul_eq_mul_right (by omega) h
  have hmantissa : d.mantissa = e.mantissa := by rw [← natAbs_units, hunits, natAbs_units]
  refine eq_of_parts ?_ hmantissa hscale
  by_cases hm : d.mantissa = 0
  · rw [hmantissa] at hm
    simpa [isNegativeZero, isZero, hmantissa, hm] using hzero
  · rw [Bool.eq_iff_iff, ← units_neg_iff hm, hunits, units_neg_iff (hmantissa ▸ hm)]

end Decimal

/-- What a literal tells of a value. -/
inductive Told
  | null
  | boolean (b : Bool)
  | integer (n : Int)
  | long (n : Int)
  | decimal (d : Decimal)
  | text (s : String)
  | date (clock : WallClock.Shown) (utc : Bool)
  | guid (g : Guid)

namespace Told

def literal : Told → String
  | null => "null"
  | boolean b => if b then "true" else "false"
  | integer n => n.repr
  | long n => n.repr ++ "L"
  | decimal d => d.text ++ "m"
  | text s => Text.quoted s
  | date clock utc => "datetime'" ++ clock.markedText utc ++ "'"
  | guid g => "guid'" ++ g.text ++ "'"

inductive Kind
  | null
  | boolean
  | integer
  | long
  | decimal
  | text
  | date
  | guid
  deriving DecidableEq

def kind : Told → Kind
  | null => .null
  | boolean _ => .boolean
  | integer _ => .integer
  | long _ => .long
  | decimal _ => .decimal
  | text _ => .text
  | date .. => .date
  | guid _ => .guid

def isNegativeZero : Told → Bool
  | decimal d => d.isNegativeZero
  | _ => false

/-- Numbers are told from each other by their suffix. -/
def Kind.ofNumber (cs : List Char) : Kind :=
  match cs.getLast? with
  | some 'L' => .long
  | some 'm' => .decimal
  | _ => .integer

/-- Everything else is told by its first character. -/
def Kind.ofHead? : Char → Option Kind
  | 'n' => some .null
  | 't' => some .boolean
  | 'f' => some .boolean
  | '\'' => some .text
  | 'd' => some .date
  | 'g' => some .guid
  | _ => none

def Kind.ofText (cs : List Char) : Kind := (cs.head?.bind ofHead?).getD (ofNumber cs)

theorem ofHead?_of_isDigit {c : Char} (hc : c = '-' ∨ c.isDigit = true) : Kind.ofHead? c = none := by
  unfold Kind.ofHead?
  split
  case h_7 => rfl
  all_goals exact absurd hc (by decide)

theorem ofText_signedText (negative : Bool) (n places : Nat) (suffix : List Char) :
    Kind.ofText ((Number.signedText negative n places).toList ++ suffix) =
      Kind.ofNumber ((Number.signedText negative n places).toList ++ suffix) := by
  obtain ⟨c, cs, hcs, hc⟩ := Number.head_signedText negative n places
  rw [Kind.ofText, hcs, List.cons_append, List.head?_cons, Option.bind_some, ofHead?_of_isDigit hc]
  rfl

theorem ofNumber_repr (n : Int) : Kind.ofNumber n.repr.toList = .integer := by
  unfold Kind.ofNumber
  split
  case h_3 => rfl
  all_goals
    rename_i hlast
    exact absurd (Number.isDigit_of_mem_intRepr (List.mem_of_getLast? hlast)) (by decide)

theorem ofText_literal (t : Told) : Kind.ofText t.literal.toList = t.kind := by
  cases t with
  | null => rfl
  | boolean b => cases b <;> rfl
  | integer n =>
    have hread := ofText_signedText (n < 0) n.natAbs 0 []
    rwa [List.append_nil, ← Number.repr_eq_signedText, ofNumber_repr] at hread
  | long n =>
    rw [literal, String.toList_append, Number.repr_eq_signedText]
    refine (ofText_signedText _ _ _ _).trans ?_
    rw [Kind.ofNumber]
    simp [kind]
  | decimal d =>
    rw [literal, String.toList_append]
    refine (ofText_signedText _ _ _ _).trans ?_
    rw [Kind.ofNumber]
    simp [kind]
  | text s => simp [literal, Text.quoted, Kind.ofText, Kind.ofHead?, kind]
  | date clock utc => simp [literal, Kind.ofText, Kind.ofHead?, kind]
  | guid g => simp [literal, Kind.ofText, Kind.ofHead?, kind]

end Told

def Text.unquoted? : List Char → Option (String × List Char)
  | '\'' :: rest => (undoubled? rest).map fun (s, r) => (String.ofList s, r)
  | _ => none

theorem Text.unquoted?_quoted (s : String) {rest : List Char} (h : rest.head? ≠ some '\'') :
    unquoted? ((quoted s).toList ++ rest) = some (s, rest) := by
  have hlist : (quoted s).toList ++ rest = '\'' :: (doubled s.toList ++ '\'' :: rest) := by
    simp [quoted]
  rw [hlist, unquoted?, undoubled?_doubled s.toList h]
  simp

theorem Text.quoted_injective {s r : String} (h : quoted s = quoted r) : s = r := by
  have hend : ([] : List Char).head? ≠ some '\'' := by simp
  have hs := unquoted?_quoted s hend
  rw [h, unquoted?_quoted r hend] at hs
  exact (Prod.mk.inj (Option.some.inj hs)).1.symm

namespace Told

theorem literal_injective {s t : Told} (h : s.literal = t.literal) : s = t := by
  have hkind : s.kind = t.kind := by rw [← ofText_literal, h, ofText_literal]
  cases s <;> cases t <;> cases hkind
  case null.null => rfl
  case boolean.boolean b c =>
    have hbc : b = c := by
      revert h
      cases b <;> cases c <;> decide
    rw [hbc]
  case integer.integer m n => rw [Number.intRepr_injective h]
  case long.long m n => rw [Number.intRepr_injective ((String.append_left_inj _).mp h)]
  case decimal.decimal d e => rw [Decimal.text_injective ((String.append_left_inj _).mp h)]
  case text.text s r => rw [Text.quoted_injective h]
  case date.date c utc d utc' =>
    have htext := (String.append_right_inj _).mp ((String.append_left_inj _).mp h)
    obtain ⟨hclock, hutc⟩ := WallClock.markedText_injective htext
    rw [hclock, hutc]
  case guid.guid g k =>
    rw [Guid.text_injective ((String.append_right_inj _).mp ((String.append_left_inj _).mp h))]

end Told

namespace Value

/-- The values that are told by their literals. -/
def isExact : Value → Bool
  | .null | .boolean _ | .byte _ | .int16 _ | .int32 _ | .int64 _ | .decimal _ | .char _ | .string _
  | .guid _ => true
  | .dateTime t => match t.zone with
    | .unspecified | .localTime | .utc => true
    | .offset _ => false
  | .single _ | .double _ | .object .. | .list _ | .dictionary _ => false

def smallInteger? : Value → Option Int
  | .byte n => some n.toNat
  | .int16 n => some n.toInt
  | .int32 n => some n.toInt
  | _ => none

def isNegativeZero : Value → Bool
  | .decimal d => d.isNegativeZero
  | _ => false

/-- The same value, up to what the grammar does not distinguish, where clocks that are `alike` count as
one. -/
inductive Identified (alike : WallClock → WallClock → Prop) : Value → Value → Prop
  | refl (v : Value) : Identified alike v v
  /-- Integers of one, two and four bytes. -/
  | integer {v w : Value} {n : Int} : v.smallInteger? = some n → w.smallInteger? = some n →
      Identified alike v w
  /-- A string, or the character that is all of it. -/
  | text {v w : Value} {s : String} : v.text? = some s → w.text? = some s → Identified alike v w
  | clock {c d : WallClock} {zone zone' : Zone} : alike c d →
      zone = zone' ∨ zone ∈ [.unspecified, .localTime] ∧ zone' ∈ [.unspecified, .localTime] →
      Identified alike (.dateTime ⟨c, zone⟩) (.dateTime ⟨d, zone'⟩)
  | decimal {d e : Decimal} : d.order e = .eq → d.scale = e.scale →
      Identified alike (.decimal d) (.decimal e)

def told? : Value → Option Told
  | .null => some .null
  | .boolean b => some (.boolean b)
  | .byte n => some (.integer n.toNat)
  | .int16 n => some (.integer n.toInt)
  | .int32 n => some (.integer n.toInt)
  | .int64 n => some (.long n.toInt)
  | .decimal d => some (.decimal d)
  | .char c => some (.text (String.singleton c))
  | .string s => some (.text s)
  | .dateTime t => match t.zone with
    | .unspecified | .localTime => some (.date t.clock.shown false)
    | .utc => some (.date t.clock.shown true)
    | .offset _ => none
  | .guid g => some (.guid g)
  | .single _ | .double _ | .object .. | .list _ | .dictionary _ => none

theorem exists_told?_iff {v : Value} : (∃ t, v.told? = some t) ↔ v.isExact = true := by
  cases v with
  | dateTime t =>
    obtain ⟨clock, zone⟩ := t
    cases zone <;> simp [told?, isExact]
  | _ => simp [told?, isExact]

theorem literal_of_told? {v : Value} {t : Told} (h : v.told? = some t) : v.literal = .ok t.literal := by
  cases v with
  | dateTime d =>
    obtain ⟨clock, zone⟩ := d
    cases zone <;> cases h <;> rw [Told.literal, WallClock.markedText_shown] <;> rfl
  | _ => cases h <;> rfl

/-- The value is one of those of which this is told. -/
def Tells (v : Value) : Told → Prop
  | .null => v = .null
  | .boolean b => v = .boolean b
  | .integer n => v.smallInteger? = some n
  | .long n => ∃ m : Int64, v = .int64 m ∧ m.toInt = n
  | .decimal d => v = .decimal d
  | .text s => v.text? = some s
  | .date c utc => ∃ clock zone, v = .dateTime ⟨clock, zone⟩ ∧ clock.shown = c ∧
      if utc then zone = .utc else zone ∈ [.unspecified, .localTime]
  | .guid g => v = .guid g

theorem told?_eq_some_iff {v : Value} {t : Told} : v.told? = some t ↔ v.Tells t := by
  constructor
  · intro h
    cases v with
    | dateTime d =>
      obtain ⟨clock, zone⟩ := d
      cases zone <;> cases h <;> exact ⟨_, _, rfl, rfl, by simp⟩
    | int64 n =>
      cases h
      exact ⟨n, rfl, rfl⟩
    | _ => cases h <;> rfl
  · intro h
    cases t with
    | null | boolean | decimal | guid =>
      cases h
      rfl
    | integer | text => cases v <;> cases h <;> rfl
    | long n =>
      obtain ⟨m, rfl, rfl⟩ := h
      rfl
    | date c utc =>
      obtain ⟨clock, zone, rfl, rfl, hzone⟩ := h
      cases utc <;> cases zone <;> simp [told?] at hzone ⊢

theorem told?_eq_of_tells {v w : Value} (t : Told) (hv : v.Tells t) (hw : w.Tells t) :
    v.told? = w.told? :=
  (told?_eq_some_iff.mpr hv).trans (told?_eq_some_iff.mpr hw).symm

theorem told?_eq_of_identified {v w : Value} (h : v.Identified WallClock.ShownAlike w)
    (hzero : v.isNegativeZero = w.isNegativeZero) : v.told? = w.told? := by
  cases h with
  | refl => rfl
  | integer hv hw => exact told?_eq_of_tells (.integer _) hv hw
  | text hv hw => exact told?_eq_of_tells (.text _) hv hw
  | @clock c d zone zone' halike hzones =>
    rcases hzones with rfl | ⟨hzone, hzone'⟩
    · simp only [told?]
      rw [show c.shown = d.shown from halike]
    · exact told?_eq_of_tells (.date d.shown false) ⟨c, zone, rfl, halike, hzone⟩ ⟨d, zone', rfl, rfl, hzone'⟩
  | decimal horder hscale => rw [Decimal.eq_of_order_eq horder hscale hzero]

theorem identified_of_tells {v w : Value} {t : Told} (hv : v.Tells t) (hw : w.Tells t) :
    v.Identified WallClock.ShownAlike w := by
  cases t with
  | null | boolean | decimal | guid =>
    cases hv
    cases hw
    exact .refl _
  | integer n => exact .integer hv hw
  | text s => exact .text hv hw
  | long n =>
    obtain ⟨m, rfl, hm⟩ := hv
    obtain ⟨m', rfl, hm'⟩ := hw
    rw [Int64.toInt_inj.mp (hm.trans hm'.symm)]
    exact .refl _
  | date c utc =>
    obtain ⟨clock, zone, rfl, hclock, hzone⟩ := hv
    obtain ⟨clock', zone', rfl, hclock', hzone'⟩ := hw
    have halike : clock.ShownAlike clock' := hclock.trans hclock'.symm
    cases utc with
    | false => exact .clock halike (.inr ⟨by simpa using hzone, by simpa using hzone'⟩)
    | true =>
      cases hzone
      cases hzone'
      exact .clock halike (.inl rfl)

theorem isNegativeZero_of_told? {v : Value} {t : Told} (h : v.told? = some t) :
    v.isNegativeZero = t.isNegativeZero := by
  cases v with
  | dateTime d =>
    obtain ⟨clock, zone⟩ := d
    cases zone <;> cases h <;> rfl
  | _ => cases h <;> rfl

/-- A leap second, if the value is at one, ends its minute. -/
def LeapLast : Value → Prop
  | .dateTime t => t.clock.nano < 1000000000 ∨ t.clock.second = 59
  | _ => True

theorem Identified.eq_of_leapLast {v w : Value} (h : v.Identified WallClock.ShownAlike w) (hv : v.LeapLast)
    (hw : w.LeapLast) : v.Identified (· = ·) w := by
  cases h with
  | refl => exact .refl _
  | integer hv hw => exact .integer hv hw
  | text hv hw => exact .text hv hw
  | clock halike hzones => exact .clock (halike.eq_of_leap_last hv hw) hzones
  | decimal horder hscale => exact .decimal horder hscale

theorem Identified.alike_clock {alike : WallClock → WallClock → Prop} (hrefl : ∀ c, alike c c) {a b : DateTime}
    (h : (dateTime a).Identified alike (dateTime b)) : alike a.clock b.clock := by
  cases h with
  | refl => exact hrefl _
  | integer hv _ => cases hv
  | text hv _ => cases hv
  | clock halike _ => exact halike

end Value

/-- Literals of exact values are the same for values that are identified, and for no others, where clocks
count as one if they show the same; of decimal zeros they show the sign. Where leap seconds end their
minutes, only one and the same clock shows the same. The literal of a string, read up to the quote that
closes it, gives the string back and leaves what follows, unless that begins with another quote. -/
theorem Value.literal_eq_iff_identified {v w : Value} (hv : v.isExact = true) (hw : w.isExact = true) :
    (∃ text, v.literal = .ok text) ∧
    (v.literal = w.literal ↔
      v.Identified WallClock.ShownAlike w ∧ v.isNegativeZero = w.isNegativeZero) ∧
    (v.LeapLast → w.LeapLast → v.literal = w.literal → v.Identified (· = ·) w) ∧
    ∀ s rest : String, rest.toList.head? ≠ some '\'' →
      ∃ text, (Value.string s).literal = .ok text ∧
        Text.unquoted? (text ++ rest).toList = some (s, rest.toList) := by
  obtain ⟨s, hs⟩ := exists_told?_iff.mpr hv
  obtain ⟨t, ht⟩ := exists_told?_iff.mpr hw
  have hiff : v.literal = w.literal ↔
      v.Identified WallClock.ShownAlike w ∧ v.isNegativeZero = w.isNegativeZero := by
    rw [literal_of_told? hs, literal_of_told? ht, Except.ok.injEq]
    constructor
    · intro h
      obtain rfl := Told.literal_injective h
      refine ⟨identified_of_tells (told?_eq_some_iff.mp hs) (told?_eq_some_iff.mp ht), ?_⟩
      rw [isNegativeZero_of_told? hs, isNegativeZero_of_told? ht]
    · rintro ⟨hid, hzero⟩
      have htold := told?_eq_of_identified hid hzero
      rw [hs, ht, Option.some.injEq] at htold
      rw [htold]
  refine ⟨⟨_, literal_of_told? hs⟩, hiff, fun hv hw h => (hiff.mp h).1.eq_of_leapLast hv hw,
    fun s rest hrest => ⟨_, rfl, ?_⟩⟩
  rw [String.toList_append, Text.unquoted?_quoted s hrest]

namespace WallClock.Sample

/-- So many seconds after a certain minute has begun. -/
def past (second : Fin 60) (nano : Fin 2000000000) : WallClock :=
  ⟨2012, 10, 22, 5, 32, second, nano, by decide, by decide, by decide, by decide, by decide, second.isLt, nano.isLt⟩

def leapAfterSeven : WallClock := past 7 1000000000
def eight : WallClock := past 8 0
def departure : WallClock := past 45 0

end WallClock.Sample

open WallClock.Sample in
/-- If clocks are only one where all their fields are, two that differ have the same literal. Zeros of one
scale, which are the same number, have two. -/
theorem Value.literal_eq_of_distinct_clocks :
    ((Value.dateTime ⟨leapAfterSeven, .utc⟩).isExact = true ∧ (Value.dateTime ⟨eight, .utc⟩).isExact = true ∧
      (Value.dateTime ⟨leapAfterSeven, .utc⟩).literal = (Value.dateTime ⟨eight, .utc⟩).literal ∧
      ¬(Value.dateTime ⟨leapAfterSeven, .utc⟩).Identified (· = ·) (.dateTime ⟨eight, .utc⟩)) ∧
    (Value.decimal .zero).Identified (· = ·) (.decimal Decimal.zero.neg) ∧
      (Value.decimal .zero).literal ≠ (Value.decimal Decimal.zero.neg).literal := by
  refine ⟨⟨rfl, rfl, rfl, fun h => ?_⟩, .decimal (by decide) rfl, by decide⟩
  exact absurd (h.alike_clock fun _ => rfl) (by decide)

open WallClock.Sample in
theorem Value.literal_eq_iff_identified_quote :
    (Value.char '\'').Identified WallClock.ShownAlike (.string "'") ∧
    (Value.dateTime ⟨leapAfterSeven, .localTime⟩).literal = (Value.dateTime ⟨eight, .unspecified⟩).literal ∧
    (Value.dateTime ⟨eight, .utc⟩).literal ≠ (Value.dateTime ⟨eight, .unspecified⟩).literal ∧
    ∃ text, (Value.string "it's").literal = .ok text ∧
      Text.unquoted? (text ++ " eq Name").toList = some ("it's", " eq Name".toList) := by
  have hquote := literal_eq_iff_identified (v := .char '\'') (w := .string "'") rfl rfl
  have hleap := literal_eq_iff_identified (v := .dateTime ⟨leapAfterSeven, .localTime⟩)
    (w := .dateTime ⟨eight, .unspecified⟩) rfl rfl
  have hutc := literal_eq_iff_identified (v := .dateTime ⟨eight, .utc⟩)
    (w := .dateTime ⟨eight, .unspecified⟩) rfl rfl
  refine ⟨(hquote.2.1.mp (by rfl)).1, hleap.2.1.mpr ⟨.clock (by decide) (.inr (by decide)), rfl⟩,
    fun h => ?_, hquote.2.2.2 _ _ (by decide)⟩
  cases hutc.2.2.1 (.inl (by decide)) (.inl (by decide)) h with
  | integer h => cases h
  | text h => cases h
  | clock _ hzones => exact absurd hzones (by decide)

end ResourceQuery
