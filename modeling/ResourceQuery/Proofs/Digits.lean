import Mathlib.Algebra.GroupWithZero.Nat
import Mathlib.Data.List.Basic
import ResourceQuery.Proofs.LiteralText

/-! # Texts of numbers and identifiers

Numbers are told from their digits: filled up with zeros, with a point before their places, with a
sign, or in hexadecimal groups. So no two numbers have the same text.
-/
namespace ResourceQuery
namespace Number
variable {m n p q width : Nat}

theorem repr_injective (h : m.repr = n.repr) : m = n := by
  have hdigits : Nat.toDigits 10 m = Nat.toDigits 10 n := by
    rw [← Nat.toList_repr, ← Nat.toList_repr, h]
  rw [← Nat.ofDigitChars_ten_toDigits (n := m), hdigits, Nat.ofDigitChars_ten_toDigits]

theorem ofDigitChars_zeroPadded (width n : Nat) :
    Nat.ofDigitChars 10 (zeroPadded width n).toList 0 = n := by
  rw [zeroPadded, String.toList_append, String.toList_ofList, Nat.ofDigitChars_append,
    Nat.ofDigitChars_replicate_zero, Nat.mul_zero, Nat.toList_repr, Nat.ofDigitChars_ten_toDigits]

theorem zeroPadded_injective (h : (zeroPadded width m).toList = (zeroPadded width n).toList) : m = n := by
  rw [← ofDigitChars_zeroPadded width m, h, ofDigitChars_zeroPadded]

theorem length_zeroPadded (hw : 0 < width) (h : n < pow10 width) :
    (zeroPadded width n).toList.length = width := by
  have hlength : (Nat.toDigits 10 n).length ≤ width := (Nat.length_toDigits_le_iff (by decide) hw).mpr h
  rw [← Nat.toList_repr, String.length_toList] at hlength
  simp only [zeroPadded, String.toList_append, String.toList_ofList, List.length_append,
    List.length_replicate, String.length_toList]
  omega

theorem toList_pointed (h : p ≠ 0) : (pointed n p).toList =
    (n / pow10 p).repr.toList ++ '.' :: (zeroPadded p (n % pow10 p)).toList := by
  rw [pointed, if_neg h]
  simp

theorem notMem_repr {c : Char} (hc : c.isDigit = false) (n : Nat) : c ∉ n.repr.toList :=
  fun h => Bool.eq_false_iff.mp hc (isDigit_of_mem_repr h)

theorem notMem_zeroPadded {c : Char} (hc : c.isDigit = false) (width n : Nat) :
    c ∉ (zeroPadded width n).toList :=
  fun h => Bool.eq_false_iff.mp hc (isDigit_of_mem_zeroPadded h)

theorem point_mem_pointed_iff : '.' ∈ (pointed n p).toList ↔ p ≠ 0 := by
  by_cases h : p = 0
  · rw [pointed, if_pos h]
    exact iff_of_false (notMem_repr (by decide) n) (not_not_intro h)
  · rw [toList_pointed h]
    exact iff_of_true (by simp) h

/-- The places after the point tell the scale, and digits before and after it the number. -/
theorem pointed_injective (h : pointed m p = pointed n q) : m = n ∧ p = q := by
  have hplaces : p ≠ 0 ↔ q ≠ 0 := by
    rw [← point_mem_pointed_iff (n := m), h, point_mem_pointed_iff]
  by_cases hp : p = 0
  · have hq : q = 0 := not_not.mp (mt hplaces.mpr (not_not_intro hp))
    rw [pointed, pointed, if_pos hp, if_pos hq] at h
    exact ⟨repr_injective h, hp.trans hq.symm⟩
  · have hq := hplaces.mp hp
    have hlists := congrArg String.toList h
    rw [toList_pointed hp, toList_pointed hq, List.append_cons_inj_of_notMem
      (notMem_repr (by decide) _) (notMem_zeroPadded (by decide) _ _)] at hlists
    obtain ⟨hwhole, -, hfraction⟩ := hlists
    have hpq : p = q := by
      rw [← length_zeroPadded (Nat.pos_of_ne_zero hp) (Nat.mod_lt m (pow10_pos p)), hfraction,
        length_zeroPadded (Nat.pos_of_ne_zero hq) (Nat.mod_lt n (pow10_pos q))]
    subst hpq
    refine ⟨?_, rfl⟩
    calc m = pow10 p * (m / pow10 p) + m % pow10 p := (Nat.div_add_mod _ _).symm
      _ = pow10 p * (n / pow10 p) + n % pow10 p := by
        rw [repr_injective (String.toList_inj.mp hwhole), zeroPadded_injective hfraction]
      _ = n := Nat.div_add_mod _ _

def signedText (negative : Bool) (n places : Nat) : String :=
  (if negative then "-" else "") ++ pointed n places

theorem minus_mem_signedText_iff {negative : Bool} :
    '-' ∈ (signedText negative n p).toList ↔ negative = true := by
  have hpointed : '-' ∉ (pointed n p).toList :=
    fun h => absurd ((numeral_pointed n p).unbroken _ h) (by decide)
  cases negative <;> simp [signedText, hpointed]

/-- The first character tells a number from everything else. -/
theorem head_signedText (negative : Bool) (n places : Nat) :
    ∃ c cs, (signedText negative n places).toList = c :: cs ∧ (c = '-' ∨ c.isDigit = true) := by
  obtain ⟨d, ds, hds, hd⟩ := (numeral_pointed n places).head
  cases negative
  · exact ⟨d, ds, by simpa [signedText] using hds, .inr hd⟩
  · exact ⟨'-', d :: ds, by simpa [signedText] using hds, .inl rfl⟩

theorem signedText_injective {negative negative' : Bool}
    (h : signedText negative m p = signedText negative' n q) : negative = negative' ∧ m = n ∧ p = q := by
  have hsign : negative = negative' := by
    rw [Bool.eq_iff_iff, ← minus_mem_signedText_iff (n := m) (p := p), h, minus_mem_signedText_iff]
  subst hsign
  exact ⟨rfl, pointed_injective (by simpa [signedText] using h)⟩

theorem repr_eq_signedText (n : Int) : n.repr = signedText (n < 0) n.natAbs 0 := by
  rw [Int.repr_eq_if, signedText, pointed, if_pos rfl]
  by_cases hn : n < 0
  · rw [if_neg (by omega), if_pos (decide_eq_true hn), show (-n).toNat = n.natAbs by omega]
  · rw [if_pos (by omega), decide_eq_false hn, show n.toNat = n.natAbs by omega]
    simp

theorem isDigit_of_mem_intRepr {n : Int} {c : Char} (h : c ∈ n.repr.toList) :
    c = '-' ∨ c.isDigit = true := by
  rw [Int.repr_eq_if] at h
  split at h
  · exact .inr (isDigit_of_mem_repr h)
  · rw [String.toList_append] at h
    exact (List.mem_append.mp h).imp List.mem_singleton.mp isDigit_of_mem_repr

theorem intRepr_injective {m n : Int} (h : m.repr = n.repr) : m = n := by
  rw [repr_eq_signedText, repr_eq_signedText] at h
  obtain ⟨hsign, habs, -⟩ := signedText_injective h
  rw [decide_eq_decide] at hsign
  omega

end Number

namespace Decimal
variable {d e : Decimal}

theorem eq_of_parts (hnegative : d.negative = e.negative) (hmantissa : d.mantissa = e.mantissa)
    (hscale : d.scale = e.scale) : d = e := by
  have h := ofParts?_eq_some d
  rw [hnegative, hmantissa, hscale, ofParts?_eq_some e] at h
  exact (Option.some.inj h).symm

theorem text_injective (h : d.text = e.text) : d = e := by
  obtain ⟨hnegative, hmantissa, hscale⟩ := Number.signedText_injective h
  exact eq_of_parts hnegative hmantissa hscale

end Decimal

namespace Guid

theorem hexDigit?_digitChar {d : Nat} (h : d < 16) : hexDigit? d.digitChar = some d := by
  have hall : ∀ d : Fin 16, hexDigit? d.val.digitChar = some d.val := by decide
  exact hall ⟨d, h⟩

theorem mapM_toDigits (n : Nat) :
    ∃ ds, (Nat.toDigits 16 n).mapM hexDigit? = some ds ∧ ds.foldl (fun n d => 16 * n + d) 0 = n := by
  induction n using Nat.strongRecOn with
  | ind n ih =>
    by_cases hn : n < 16
    · refine ⟨[n], ?_, by simp⟩
      rw [Nat.toDigits_of_lt_base hn]
      simp [hexDigit?_digitChar hn]
    · obtain ⟨ds, hds, hvalue⟩ := ih (n / 16) (by omega)
      have hlast : hexDigit? (n % 16).digitChar = some (n % 16) := hexDigit?_digitChar (by omega)
      refine ⟨ds ++ [n % 16], ?_, ?_⟩
      · rw [Nat.toDigits_of_base_le (by decide) (by omega)]
        simp [List.mapM_append, hds, hlast]
      · rw [List.foldl_append, hvalue]
        exact Nat.div_add_mod n 16

theorem mapM_digits (g : Guid) :
    ∃ ds, g.digits.mapM hexDigit? = some ds ∧ ds.foldl (fun n d => 16 * n + d) 0 = g.number := by
  rw [digits]
  generalize 32 - (Nat.toDigits 16 g.number).length = zeros
  induction zeros with
  | zero => exact mapM_toDigits g.number
  | succ zeros ih =>
    obtain ⟨ds, hds, hvalue⟩ := ih
    have hzero : hexDigit? '0' = some 0 := rfl
    refine ⟨0 :: ds, ?_, hvalue⟩
    rw [List.replicate_succ, List.cons_append, List.mapM_cons, hds, hzero]
    rfl

theorem notMem_of_mapM {cs : List Char} {ds : List Nat} {c : Char} (h : cs.mapM hexDigit? = some ds)
    (hc : hexDigit? c = none) : c ∉ cs := by
  induction cs generalizing ds with
  | nil => exact List.not_mem_nil
  | cons d cs ih =>
    rw [List.mapM_cons] at h
    obtain ⟨n, hd, h⟩ := Option.bind_eq_some_iff.mp h
    obtain ⟨rest, hrest, -⟩ := Option.bind_eq_some_iff.mp h
    intro hmem
    rcases List.mem_cons.mp hmem with rfl | hmem
    · rw [hc] at hd
      cases hd
    · exact ih hrest hmem

theorem length_digits (g : Guid) : g.digits.length = groups.sum := by
  have hlength : (Nat.toDigits 16 g.number).length ≤ 32 :=
    (Nat.length_toDigits_le_iff (by decide) (by decide)).mpr g.number_lt
  simp only [digits, List.length_append, List.length_replicate]
  rw [Nat.sub_add_cancel hlength]
  rfl

theorem map_length_cut {ns : List Nat} {cs : List Char} (h : cs.length = ns.sum) :
    (cut ns cs).map List.length = ns := by
  induction ns generalizing cs with
  | nil => rfl
  | cons n ns ih =>
    rw [List.sum_cons] at h
    rw [cut, List.map_cons, List.length_take, ih (by rw [List.length_drop]; omega)]
    congr 1
    omega

theorem flatten_cut {ns : List Nat} {cs : List Char} (h : cs.length = ns.sum) :
    (cut ns cs).flatten = cs := by
  induction ns generalizing cs with
  | nil => exact (List.length_eq_zero_iff.mp h).symm
  | cons n ns ih =>
    rw [List.sum_cons] at h
    rw [cut, List.flatten_cons, ih (by rw [List.length_drop]; omega), List.take_append_drop]

theorem ofText?_text (g : Guid) : ofText? g.text = some g := by
  obtain ⟨ds, hds, hvalue⟩ := g.mapM_digits
  have hparts : ∀ part ∈ cut groups g.digits, '-' ∉ part :=
    fun part hpart hc => notMem_of_mapM hds rfl (mem_of_mem_cut groups hpart hc)
  have hsplit : g.text.toList.splitOn '-' = cut groups g.digits := by
    rw [text, String.toList_intercalate, List.map_map]
    have hid : (cut groups g.digits).map (String.toList ∘ String.ofList) = cut groups g.digits := by
      simp
    rw [hid]
    exact List.splitOn_intercalate '-' hparts (List.cons_ne_nil _ _)
  rw [ofText?, hsplit]
  simp only [map_length_cut g.length_digits, flatten_cut g.length_digits, hds, ne_eq, not_true_eq_false,
    if_false, Option.bind_eq_bind, Option.bind_some, hvalue]
  exact dif_pos g.number_lt

theorem text_injective {g k : Guid} (h : g.text = k.text) : g = k := by
  have hread := ofText?_text g
  rw [h, ofText?_text] at hread
  exact (Option.some.inj hread).symm

end Guid
end ResourceQuery
