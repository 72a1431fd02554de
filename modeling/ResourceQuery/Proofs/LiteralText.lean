import ResourceQuery.Proofs.Token
import ResourceQuery.Value.Literal

/-! # The forms of literals

A literal is a number, maybe with a sign before it, one of three words, or a quoted text, maybe
with a word before it. Numbers begin with a digit and have nothing in them that ends a word, and
a date or an identifier has no quote in it.
-/
namespace ResourceQuery
open Text

/-- The text of a number without a sign. -/
structure Numeral (cs : List Char) : Prop where
  head : ∃ d ds, cs = d :: ds ∧ d.isDigit = true
  unbroken : ∀ c ∈ cs, isBreak c = false

theorem isBreak_of_isDigit {c : Char} (h : c.isDigit = true) : isBreak c = false := by
  rw [Bool.eq_false_iff]
  intro hb
  simp only [isBreak, isSeparator, isSign, Bool.or_eq_true, beq_iff_eq, List.mem_cons,
    List.not_mem_nil, or_false, decide_eq_true_eq] at hb
  rcases hb with rfl | rfl | rfl | rfl | rfl | rfl | rfl | rfl <;> revert h <;> decide

theorem isDigit_of_mem_repr {n : Nat} {c : Char} (h : c ∈ n.repr.toList) : c.isDigit = true := by
  rw [Nat.toList_repr] at h
  exact Nat.isDigit_of_mem_toDigits (by decide) (by decide) h

namespace Numeral

theorem repr (n : Nat) : Numeral n.repr.toList := by
  refine ⟨?_, fun c hc => isBreak_of_isDigit (isDigit_of_mem_repr hc)⟩
  obtain ⟨d, ds, hd⟩ := List.exists_cons_of_ne_nil (Nat.toDigits_ne_nil (n := n) (b := 10))
  rw [← Nat.toList_repr] at hd
  exact ⟨d, ds, hd, isDigit_of_mem_repr (n := n) (by simp [hd])⟩

theorem append {cs ds : List Char} (h : Numeral cs) (hds : ∀ c ∈ ds, isBreak c = false) :
    Numeral (cs ++ ds) := by
  obtain ⟨d, rest, rfl, hd⟩ := h.head
  refine ⟨⟨d, rest ++ ds, rfl, hd⟩, fun c hc => ?_⟩
  rcases List.mem_append.mp hc with hc | hc
  · exact h.unbroken c hc
  · exact hds c hc

end Numeral

theorem isDigit_of_mem_zeroPadded {width n : Nat} {c : Char}
    (h : c ∈ (Number.zeroPadded width n).toList) : c.isDigit = true := by
  simp only [Number.zeroPadded, String.toList_append, String.toList_ofList, List.mem_append,
    List.mem_replicate] at h
  rcases h with ⟨-, rfl⟩ | h
  · rfl
  · exact isDigit_of_mem_repr h

theorem numeral_pointed (n places : Nat) : Numeral (Number.pointed n places).toList := by
  unfold Number.pointed
  split
  · exact .repr n
  · rw [String.toList_append, String.toList_append]
    refine ((Numeral.repr _).append ?_).append ?_
    · exact isBreak_of_all (by decide)
    · exact fun c hc => isBreak_of_isDigit (isDigit_of_mem_zeroPadded hc)

inductive LiteralText : List Char → Prop
  | number {cs} : Numeral cs → LiteralText cs
  | negative {cs} : Numeral cs → LiteralText ('-' :: cs)
  | keyword {s : String} : s ∈ ["null", "true", "false"] → LiteralText s.toList
  | quoted (cs) : LiteralText ('\'' :: (doubled cs ++ ['\'']))
  | marked {s : String} (cs) : s ∈ ["datetime", "guid"] →
      LiteralText (s.toList ++ '\'' :: (doubled cs ++ ['\'']))

theorem LiteralText.signed {cs : List Char} (negative : Bool) (h : Numeral cs) :
    LiteralText ((if negative then "-" else "").toList ++ cs) := by
  cases negative
  · exact .number h
  · exact .negative h

theorem LiteralText.int (n : Int) (suffix : List Char) (h : ∀ c ∈ suffix, isBreak c = false) :
    LiteralText (n.repr.toList ++ suffix) := by
  rw [Int.repr_eq_if]
  split
  · exact .number ((Numeral.repr _).append h)
  · rw [String.toList_append]
    exact .negative ((Numeral.repr _).append h)

theorem doubled_eq_self {cs : List Char} (h : '\'' ∉ cs) : doubled cs = cs := by
  induction cs with
  | nil => rfl
  | cons c cs ih =>
    simp only [List.mem_cons, not_or] at h
    simp [doubled, Ne.symm h.1, ih h.2]

theorem quote_not_mem_zeroPadded (width n : Nat) : '\'' ∉ (Number.zeroPadded width n).toList := by
  intro h
  exact absurd (isDigit_of_mem_zeroPadded h) (by decide)

theorem quote_not_mem_toDigits (n : Nat) : '\'' ∉ Nat.toDigits 16 n := by
  induction n using Nat.strongRecOn with
  | ind n ih =>
    rw [Nat.toDigits_eq_if (by decide)]
    split
    · simp
    · simp [ih (n / 16) (by omega)]

theorem quote_not_mem_dateTime (t : DateTime) : '\'' ∉ t.literal.toList := by
  have hyear : '\'' ∉ (WallClock.yearText t.clock.year).toList := by
    unfold WallClock.yearText
    split
    · exact quote_not_mem_zeroPadded _ _
    · split <;> simp [quote_not_mem_zeroPadded]
  have hfraction : '\'' ∉ (WallClock.fractionText (t.clock.nano % 1000000000)).toList := by
    unfold WallClock.fractionText
    split
    · simp
    · split
      · simp [quote_not_mem_zeroPadded]
      · split <;> simp [quote_not_mem_zeroPadded]
  have hclock : '\'' ∉ (t.clock.text "T").toList := by
    simp [WallClock.text, WallClock.dateText, WallClock.timeText, quote_not_mem_zeroPadded, hyear,
      hfraction]
  rcases t with ⟨clock, zone⟩
  cases zone with
  | unspecified | localTime | utc => simp [DateTime.literal, hclock]
  | offset distance =>
    simp only [DateTime.literal, UtcOffset.text]
    split <;> simp [hclock, quote_not_mem_zeroPadded]

theorem mem_of_mem_cut {c : Char} {piece : List Char} (ns : List Nat) {cs : List Char}
    (h : piece ∈ Guid.cut ns cs) (hc : c ∈ piece) : c ∈ cs := by
  induction ns generalizing cs with
  | nil => cases h
  | cons n ns ih =>
    rcases List.mem_cons.mp h with rfl | h
    · exact List.mem_of_mem_take hc
    · exact List.mem_of_mem_drop (ih h)

theorem quote_not_mem_guid (g : Guid) : '\'' ∉ g.text.toList := by
  rw [Guid.text, String.toList_intercalate, List.map_map]
  intro hq
  refine forall_mem_intercalate (P := (· ≠ '\'')) (by simp) ?_ _ hq rfl
  rintro piece hp c hc rfl
  obtain ⟨cs, hcs, rfl⟩ := List.mem_map.mp hp
  have hmem := mem_of_mem_cut _ hcs (by simpa using hc)
  simp only [Guid.digits, List.mem_append, List.mem_replicate] at hmem
  rcases hmem with ⟨-, h⟩ | h
  · exact absurd h (by decide)
  · exact quote_not_mem_toDigits _ h

theorem LiteralText.ofMarked {s mark text : String} (hs : s ∈ ["datetime", "guid"])
    (hmark : mark = s ++ "'") (h : '\'' ∉ text.toList) :
    LiteralText (mark ++ text ++ "'").toList := by
  have hform := LiteralText.marked text.toList hs
  rw [doubled_eq_self h] at hform
  simpa [hmark] using hform

theorem LiteralText.ofFinite (F : Number.Format) {x : Number.Datum} (hx : x.isFinite = true)
    (suffix : List Char) (h : ∀ c ∈ suffix, isBreak c = false) :
    LiteralText ((F.text x).toList ++ suffix) := by
  cases x with
  | nan | infinite => cases hx
  | finite negative significand exponent =>
    have hbody : Numeral (if significand = 0 then "0"
        else (F.shortest significand exponent).text).toList := by
      split
      · exact .repr 0
      · exact numeral_pointed _ _
    rw [Number.Format.text, String.toList_append, List.append_assoc]
    exact .signed negative (hbody.append h)

theorem Value.literalText {v : Value} {text : String} (h : v.literal = .ok text) :
    LiteralText text.toList := by
  cases v with
  | null => cases h; exact .keyword (by decide)
  | boolean b => cases b <;> cases h <;> exact .keyword (by decide)
  | byte n => cases h; exact .number (.repr _)
  | int16 n => cases h; simpa using LiteralText.int n.toInt [] (by simp)
  | int32 n => cases h; simpa using LiteralText.int n.toInt [] (by simp)
  | int64 n => cases h; rw [String.toList_append]; exact .int n.toInt _ (isBreak_of_all (by decide))
  | single x =>
    simp only [Value.literal, singleLiteral] at h
    split at h
    · cases h
      rw [String.toList_append]
      exact .ofFinite _ ‹_› _ (isBreak_of_all (by decide))
    · cases h
  | double x =>
    simp only [Value.literal, doubleLiteral] at h
    split at h
    · split at h
      · cases h
        unfold Number.doubleText
        simpa using LiteralText.ofFinite .binary64 ‹_› [] (by simp)
      · cases h
        rw [String.toList_append]
        exact .ofFinite _ ‹_› _ (isBreak_of_all (by decide))
    · cases h
  | decimal d =>
    cases h
    rw [Decimal.text, String.toList_append, String.toList_append, List.append_assoc]
    exact .signed d.negative ((numeral_pointed _ _).append (isBreak_of_all (by decide)))
  | char c => cases h; simpa [Text.quoted] using LiteralText.quoted [c]
  | string s => cases h; simpa [Text.quoted] using LiteralText.quoted s.toList
  | dateTime t => cases h; exact .ofMarked (s := "datetime") (by decide) rfl (quote_not_mem_dateTime t)
  | guid g => cases h; exact .ofMarked (s := "guid") (by decide) rfl (quote_not_mem_guid g)
  | object | list | dictionary => cases h

end ResourceQuery
