import ResourceQuery.Proofs.IntegerFolding

/-! # What conversion makes of a value

A converted value is one of the type that it was converted to. Values of a type are what conversion to
it leaves as they are, so converting again changes nothing.
-/
namespace ResourceQuery.Value
variable {v w : Value} {target : Ty} {n : Int}

/-- The value is one of the type: null if the type has it, anything if that is an object, and otherwise
what has the type by itself. -/
def IsOf (target : Ty) (v : Value) : Prop :=
  if v.isNull then target.isNullable = true
  else target.underlying = .object ∨ v.ty = target.underlying

theorem isOf_of_ty (hnull : v.isNull = false) (hty : v.ty = target.underlying) : v.IsOf target := by
  rw [IsOf, hnull]
  exact .inr hty

theorem convert_of_isOf (h : v.IsOf target) : v.convert target = .ok v := by
  unfold IsOf at h
  unfold convert
  split
  case isTrue hnull =>
    rw [if_pos hnull] at h
    rw [if_pos h, v.isNull_iff.mp hnull]
  case isFalse hnull =>
    rw [if_neg hnull] at h
    exact if_pos h

/-- The ways to a converted value: it had the type before, it is a number in another representation, or
it is the code point of a character. -/
theorem convert_cases (h : v.convert target = .ok w) :
    (v.IsOf target ∧ w = v) ∨
    (∃ a, v.operand? = some a ∧ convertOperand v.ty target a = .ok w) ∨
    ∃ c, v = .char c ∧ target.isInteger = true ∧ stored "Convert" target c.toNat = .ok w := by
  by_cases hof : v.IsOf target
  · rw [convert_of_isOf hof] at h
    cases h
    exact .inl ⟨hof, rfl⟩
  refine .inr ?_
  unfold IsOf at hof
  unfold convert at h
  split at h
  case isTrue hnull =>
    rw [if_pos hnull] at hof
    rw [if_neg hof] at h
    cases h
  case isFalse hnull =>
    rw [if_neg hnull] at hof
    rw [if_neg hof] at h
    split at h
    case h_1 a ha => exact .inl ⟨a, ha, h⟩
    case h_2 c _ =>
      split at h
      · exact .inr ⟨c, rfl, ‹_›, h⟩
      · cases h
    case h_3 => cases h

/-! ## Values of numeric types -/

theorem Stores.isOf (h : v.Stores target n) : v.IsOf target :=
  isOf_of_ty (isNull_of_integer? h.integer) h.ty

theorem isOf_of_stored {operation : String} (hty : target.isInteger = true)
    (h : stored operation target n = .ok w) : w.IsOf target := by
  rcases stored_storesOrFails operation hty n with ⟨-, v, hv, hstores⟩ | ⟨-, herror⟩
  · rw [hv] at h
    cases h
    exact hstores.isOf
  · rw [herror] at h
    cases h

theorem isOf_ofReal (x : Float) (h : target.underlying = .single ∨ target.underlying = .double) :
    (ofReal target x).IsOf target := by
  unfold ofReal
  rcases h with hu | hu <;> rw [hu] <;> exact isOf_of_ty rfl hu.symm

theorem isOf_of_convertOperand {source : Ty} {a : Operand}
    (h : convertOperand source target a = .ok w) : w.IsOf target := by
  unfold convertOperand at h
  split at h
  case h_1 hu | h_2 hu | h_3 hu | h_4 hu =>
    have hty : target.isInteger = true := by rw [Ty.isInteger, hu]
    split at h
    · exact isOf_of_stored hty h
    · cases h
  case h_5 hu =>
    cases h
    exact isOf_ofReal _ (.inl hu)
  case h_6 hu =>
    cases h
    exact isOf_ofReal _ (.inr hu)
  case h_7 hu =>
    split at h
    · cases h
      exact isOf_of_ty rfl hu.symm
    · cases h
  case h_8 => cases h

/-! ## Values of all types -/

theorem isOf_of_convert (h : v.convert target = .ok w) : w.IsOf target := by
  rcases convert_cases h with ⟨hof, rfl⟩ | ⟨a, -, ha⟩ | ⟨c, -, hty, hc⟩
  · exact hof
  · exact isOf_of_convertOperand ha
  · exact isOf_of_stored hty hc

theorem convert_object (hobject : target.underlying = .object) (h : v.convert target = .ok w) : w = v := by
  rcases convert_cases h with ⟨-, hw⟩ | ⟨a, -, ha⟩ | ⟨c, -, hty, -⟩
  · exact hw
  · simp [convertOperand, hobject] at ha
  · simp [Ty.isInteger, hobject] at hty

/-- The number of an integer, or the code point of a character. -/
def number? : Value → Option Int
  | .char c => some c.toNat
  | v => v.integer?

theorem convert_number_storesOrFails (hty : target.isInteger = true) (hn : v.number? = some n) :
    StoresOrFails "Convert" target n (v.convert target) := by
  cases v with
  | char c =>
    cases hn
    have hother : ¬(target.underlying = .object ∨ (char c).ty = target.underlying) := by
      rcases Ty.isInteger_cases hty with hu | hu | hu | hu <;> simp [hu, Value.ty]
    have hconvert : (char c).convert target = stored "Convert" target c.toNat := by
      simp [convert, isNull, hother, operand?, integer?, hty]
    rw [hconvert]
    exact stored_storesOrFails _ hty _
  | _ => exact convert_storesOrFails hty hn

/-- Conversion is sound and idempotent: what it gives is null of a type that has null, the value itself
boxed as an object, or a value that has the type, and it is not changed by converting again. Integers and
characters are converted to an integer type exactly if that has their number, which they keep. -/
theorem convert_sound (target : Ty) (v : Value) :
    (∀ w, v.convert target = .ok w → w.convert target = .ok w ∧
      (w = .null ∧ target.isNullable = true ∨ target.underlying = .object ∧ w = v ∨
        w.ty = target.underlying)) ∧
    ∀ n, v.number? = some n → target.isInteger = true →
      ((∃ w, v.convert target = .ok w) ↔ target.holds n = true) ∧
      ∀ w, v.convert target = .ok w → w.Stores target n := by
  refine ⟨fun w h => ⟨convert_of_isOf (isOf_of_convert h), ?_⟩, fun n hn hty => ?_⟩
  · have hof := isOf_of_convert h
    unfold IsOf at hof
    split at hof
    · exact .inl ⟨w.isNull_iff.mp ‹_›, hof⟩
    · rcases hof with hobject | hw
      · exact .inr (.inl ⟨hobject, convert_object hobject h⟩)
      · exact .inr (.inr hw)
  · rcases convert_number_storesOrFails hty hn with ⟨hholds, w, hw, hstores⟩ | ⟨hholds, herror⟩
    · refine ⟨⟨fun _ => hholds, fun _ => ⟨w, hw⟩⟩, fun w' hw' => ?_⟩
      rw [hw] at hw'
      cases hw'
      exact hstores
    · rw [herror, hholds]
      exact ⟨by simp, by simp⟩

/-- The code point of one character fits in a byte, and that of another is the first that does not. -/
theorem convert_sound_characters :
    (∃ w, (char 'z').convert (.nullable .byte) = .ok w ∧ w.Stores (.nullable .byte) 122 ∧
      w.convert (.nullable .byte) = .ok w) ∧
    ¬∃ w, (char 'Ā').convert (.nullable .byte) = .ok w := by
  obtain ⟨hz, hznumber⟩ := convert_sound (.nullable .byte) (.char 'z')
  obtain ⟨-, hanumber⟩ := convert_sound (.nullable .byte) (.char 'Ā')
  obtain ⟨hzfits, hzstores⟩ := hznumber 122 rfl rfl
  obtain ⟨w, hw⟩ := hzfits.mpr (by decide)
  refine ⟨⟨w, hw, hzstores w hw, (hz w hw).1⟩, fun hfits => ?_⟩
  exact absurd ((hanumber 256 rfl rfl).1.mp hfits) (by decide)

end ResourceQuery.Value
