import ResourceQuery.Proofs.IntegerFolding

/-! # Where texts are found

A folded search gives the first character position at which a text starts. It looks for the UTF-8
encoding of the text, which starts first at the byte position of that character, since no character's
encoding starts inside another one.
-/
namespace ResourceQuery

namespace Text

/-! ## The first position -/

/-- The first position, not before `start`, at which the needle starts in the text, or -1. -/
inductive IsIndexOf {α : Type} (needle text : List α) (start : Nat) : Int → Prop
  | found {place : Nat} (hstart : start ≤ place) (hplace : needle <+: text.drop place)
      (hfirst : ∀ i, start ≤ i → i < place → ¬needle <+: text.drop i) :
    IsIndexOf needle text start place
  | missing (hnone : ∀ i, start ≤ i → ¬needle <+: text.drop i) : IsIndexOf needle text start (-1)

namespace IsIndexOf
variable {α : Type} {needle text : List α} {start : Nat} {n : Int}

theorem isPrefix_drop (h : IsIndexOf needle text start n) (hn : 0 ≤ n) :
    needle <+: text.drop n.toNat := by
  cases h with
  | found hstart hplace hfirst => exact hplace
  | missing hnone => omega

theorem nonneg_iff (h : IsIndexOf needle text start n) :
    0 ≤ n ↔ ∃ i, start ≤ i ∧ needle <+: text.drop i := by
  cases h with
  | @found place hstart hplace hfirst => exact iff_of_true (by omega) ⟨place, hstart, hplace⟩
  | missing hnone =>
    refine iff_of_false (by omega) ?_
    rintro ⟨i, hi, hplace⟩
    exact hnone i hi hplace

theorem eq_zero_iff (h : IsIndexOf needle text 0 n) : n = 0 ↔ needle <+: text := by
  constructor
  · rintro rfl
    simpa using h.isPrefix_drop (Int.le_refl 0)
  · intro hzero
    cases h with
    | missing hnone => exact absurd hzero (hnone 0 (Nat.le_refl 0))
    | @found place hstart hplace hfirst =>
      by_contra hne
      exact hfirst 0 (Nat.le_refl 0) (by omega) hzero

theorem unique {m : Int} (h : IsIndexOf needle text start n) (h' : IsIndexOf needle text start m) : n = m := by
  cases h with
  | missing hnone =>
    cases h' with
    | missing => rfl
    | found hstart hplace => exact absurd hplace (hnone _ hstart)
  | @found i hi hplace hfirst =>
    cases h' with
    | missing hnone => exact absurd hplace (hnone _ hi)
    | @found j hj hplace' hfirst' =>
      have hle : i ≤ j := Nat.le_of_not_lt fun hlt => hfirst j hj hlt hplace'
      have hge : j ≤ i := Nat.le_of_not_lt fun hlt => hfirst' i hi hlt hplace
      rw [Nat.le_antisymm hle hge]

theorem le_length (h : IsIndexOf needle text start n) (hstart : start ≤ text.length) : n ≤ text.length := by
  cases h with
  | missing hnone => omega
  | @found place hle hplace hfirst =>
    by_contra hgt
    rw [List.drop_of_length_le (by omega), List.prefix_nil] at hplace
    subst hplace
    exact hfirst start (Nat.le_refl _) (by omega) List.nil_prefix

end IsIndexOf

/-- The least position not before `start`. -/
def positionFrom? {α : Type} [BEq α] (needle : List α) (start : Nat) (s : List α) : Option Nat :=
  (position? needle (s.drop start)).map (start + ·)

section
variable {α : Type} [BEq α] [LawfulBEq α] {needle s : List α} {start i : Nat}

theorem position?_eq_some (h : position? needle s = some i) :
    needle <+: s.drop i ∧ ∀ j, j < i → ¬needle <+: s.drop j := by
  induction s generalizing i with
  | nil =>
    obtain ⟨hfound, hi⟩ := Option.ite_none_right_eq_some.mp h
    cases hi
    exact ⟨List.isPrefixOf_iff_prefix.mp hfound, fun j hj => absurd hj (Nat.not_lt_zero j)⟩
  | cons c rest ih =>
    rw [position?] at h
    split at h
    case isTrue hfound =>
      cases h
      exact ⟨List.isPrefixOf_iff_prefix.mp hfound, fun j hj => absurd hj (Nat.not_lt_zero j)⟩
    case isFalse hfound =>
      obtain ⟨k, hk, rfl⟩ := Option.map_eq_some_iff.mp h
      obtain ⟨hplace, hfirst⟩ := ih hk
      refine ⟨hplace, ?_⟩
      intro j hj
      cases j with
      | zero => exact fun hzero => hfound (List.isPrefixOf_iff_prefix.mpr hzero)
      | succ j => exact hfirst j (by omega)

theorem position?_eq_none (h : position? needle s = none) : ¬needle <+: s.drop i := by
  induction s generalizing i with
  | nil =>
    rw [position?, ite_eq_right_iff] at h
    rw [List.drop_nil, ← List.isPrefixOf_iff_prefix]
    intro hfound
    cases h hfound
  | cons c rest ih =>
    rw [position?] at h
    split at h
    case isTrue => cases h
    case isFalse hfound =>
      cases i with
      | zero => exact fun hzero => hfound (List.isPrefixOf_iff_prefix.mpr hzero)
      | succ i => exact ih (Option.map_eq_none_iff.mp h)

theorem positionFrom?_eq_some (h : positionFrom? needle start s = some i) :
    IsIndexOf needle s start i := by
  obtain ⟨k, hk, rfl⟩ := Option.map_eq_some_iff.mp h
  obtain ⟨hplace, hfirst⟩ := position?_eq_some hk
  rw [List.drop_drop] at hplace
  refine .found (by omega) hplace ?_
  intro j hj hjk
  have hbefore := hfirst (j - start) (by omega)
  rwa [List.drop_drop, Nat.add_sub_cancel' hj] at hbefore

theorem positionFrom?_eq_none (h : positionFrom? needle start s = none) :
    IsIndexOf needle s start (-1) := by
  refine .missing ?_
  intro j hj
  have hbefore := position?_eq_none (i := j - start) (Option.map_eq_none_iff.mp h)
  rwa [List.drop_drop, Nat.add_sub_cancel' hj] at hbefore

theorem positionFrom?_eq_some_iff : positionFrom? needle start s = some i ↔ IsIndexOf needle s start i := by
  refine ⟨positionFrom?_eq_some, fun h => ?_⟩
  cases hfound : positionFrom? needle start s with
  | none => exact absurd ((positionFrom?_eq_none hfound).unique h) (by omega)
  | some j => rw [Int.ofNat.inj ((positionFrom?_eq_some hfound).unique h)]

theorem positionFrom?_eq_none_iff :
    positionFrom? needle start s = none ↔ IsIndexOf needle s start (-1) := by
  refine ⟨positionFrom?_eq_none, fun h => ?_⟩
  cases hfound : positionFrom? needle start s with
  | none => rfl
  | some j => exact absurd ((positionFrom?_eq_some hfound).unique h) (by omega)

end

theorem contains_iff {needle s : List Char} : contains needle s = true ↔ ∃ i, needle <+: s.drop i := by
  rw [contains, Option.isSome_iff_exists]
  constructor
  · rintro ⟨i, hi⟩
    exact ⟨i, (position?_eq_some hi).1⟩
  · rintro ⟨i, hi⟩
    cases h : position? needle s with
    | some k => exact ⟨k, rfl⟩
    | none => exact absurd hi (position?_eq_none h)

/-! ## Characters and bytes -/

def byteOffset (s : List Char) (i : Nat) : Nat := (bytes (s.take i)).length

/-- The byte position of a character position, where -1 stays as it is. -/
def byteIndex (s : List Char) (n : Int) : Int := if n < 0 then -1 else byteOffset s n.toNat

section
variable {needle s t : List Char} {c : Char} {start i j k : Nat} {n : Int}

theorem bytes_cons : bytes (c :: s) = String.utf8EncodeChar c ++ bytes s := List.flatMap_cons

theorem bytes_append : bytes (s ++ t) = bytes s ++ bytes t := List.flatMap_append

theorem byteOffset_cons :
    byteOffset (c :: s) (i + 1) = (String.utf8EncodeChar c).length + byteOffset s i := by
  rw [byteOffset, List.take_succ_cons, bytes_cons, List.length_append, byteOffset]

theorem length_bytes_pos (h : s ≠ []) : 0 < (bytes s).length := by
  cases s with
  | nil => exact absurd rfl h
  | cons c s =>
    have hpos := c.utf8Size_pos
    rw [bytes_cons, List.length_append, String.length_utf8EncodeChar]
    omega

theorem bytes_eq_append (i : Nat) : bytes s = bytes (s.take i) ++ bytes (s.drop i) := by
  rw [← bytes_append, List.take_append_drop]

theorem drop_byteOffset : (bytes s).drop (byteOffset s i) = bytes (s.drop i) := by
  rw [bytes_eq_append i, byteOffset, List.drop_left]

theorem take_byteOffset : (bytes s).take (byteOffset s i) = bytes (s.take i) := by
  rw [bytes_eq_append i, byteOffset, List.take_left]

theorem getElem?_charOffsets (offset : Nat) :
    (charOffsets offset s)[i]?.getD (offset + (bytes s).length) = offset + byteOffset s i := by
  induction s generalizing offset i with
  | nil => simp [charOffsets, byteOffset, bytes]
  | cons c s ih =>
    cases i with
    | zero => rfl
    | succ i =>
      rw [charOffsets, List.getElem?_cons_succ, bytes_cons, List.length_append, byteOffset_cons,
        String.length_utf8EncodeChar, ← Nat.add_assoc, ← Nat.add_assoc, ih]

theorem offsetOf_eq : offsetOf s i = byteOffset s i := by
  have h := getElem?_charOffsets (s := s) (i := i) 0
  rwa [Nat.zero_add, Nat.zero_add] at h

/-- Of the bytes of a character, only the first one may start an encoded character. -/
theorem charCount_utf8EncodeChar : charCount (String.utf8EncodeChar c) = 1 := by
  have hfirst : ∀ i (hi : i < (String.utf8EncodeChar c).length),
      (String.utf8EncodeChar c)[i].IsUTF8FirstByte ↔ i = 0 :=
    fun i hi => UInt8.isUTF8FirstByte_getElem_utf8EncodeChar
  have hpos : 0 < (String.utf8EncodeChar c).length := by
    rw [String.length_utf8EncodeChar]
    exact c.utf8Size_pos
  generalize String.utf8EncodeChar c = encoded at hfirst hpos
  cases encoded with
  | nil => cases hpos
  | cons b rest =>
    have hrest : charCount rest = 0 := by
      rw [charCount, List.countP_eq_zero]
      intro b' hb'
      obtain ⟨i, hi, rfl⟩ := List.getElem_of_mem hb'
      have hnot := (hfirst (i + 1) (Nat.succ_lt_succ hi)).not.mpr (Nat.succ_ne_zero i)
      simpa using hnot
    rw [charCount] at hrest ⊢
    rw [List.countP_cons_of_pos (by simpa using (hfirst 0 hpos).mpr rfl), hrest]

theorem charCount_bytes : charCount (bytes s) = s.length := by
  induction s with
  | nil => rfl
  | cons c s ih =>
    have hcount : charCount (bytes (c :: s)) = charCount (String.utf8EncodeChar c) + charCount (bytes s) := by
      rw [bytes_cons, charCount, List.countP_append, charCount, charCount]
    rw [hcount, charCount_utf8EncodeChar, ih, List.length_cons, Nat.add_comm]

theorem byteOffset_lt (hij : i < j) (hj : j ≤ s.length) : byteOffset s i < byteOffset s j := by
  have hsplit : s.take j = s.take i ++ (s.drop i).take (j - i) := by
    rw [← List.take_add, Nat.add_sub_cancel' (by omega)]
  have hne : (s.drop i).take (j - i) ≠ [] := by
    rw [← List.length_pos_iff, List.length_take, List.length_drop]
    omega
  have hpos := length_bytes_pos hne
  rw [byteOffset, byteOffset, hsplit, bytes_append, List.length_append]
  omega

theorem byteOffset_le_iff (hi : i ≤ s.length) (hj : j ≤ s.length) :
    byteOffset s i ≤ byteOffset s j ↔ i ≤ j := by
  constructor
  · intro h
    by_contra hlt
    have := byteOffset_lt (Nat.lt_of_not_le hlt) hi
    omega
  · intro h
    rcases Nat.eq_or_lt_of_le h with rfl | hlt
    · exact Nat.le_refl _
    · exact Nat.le_of_lt (byteOffset_lt hlt hj)

/-- An encoded text that starts an encoded text starts that text itself. -/
theorem isPrefix_of_bytes (h : bytes t <+: bytes s) : t <+: s := by
  obtain ⟨rest, hrest⟩ := h
  apply List.isPrefix_of_utf8Encode_append_eq_utf8Encode rest.toByteArray
  have harrays := congrArg List.toByteArray hrest
  rwa [List.toByteArray_append] at harrays

theorem bytes_isPrefix (h : t <+: s) : bytes t <+: bytes s := by
  obtain ⟨rest, rfl⟩ := h
  exact ⟨bytes rest, bytes_append.symm⟩

/-- The byte that may start an encoded character stands at the start of one. -/
theorem exists_byteOffset {b : UInt8} (hb : (bytes s)[k]? = some b) (hfirst : b.IsUTF8FirstByte) :
    ∃ j, j < s.length ∧ k = byteOffset s j := by
  induction s generalizing k with
  | nil => cases hb
  | cons c s ih =>
    rw [bytes_cons] at hb
    by_cases hk : k < (String.utf8EncodeChar c).length
    · rw [List.getElem?_append_left hk] at hb
      obtain ⟨hlt, rfl⟩ := List.getElem?_eq_some_iff.mp hb
      exact ⟨0, Nat.zero_lt_succ _, UInt8.isUTF8FirstByte_getElem_utf8EncodeChar.mp hfirst⟩
    · rw [List.getElem?_append_right (by omega)] at hb
      obtain ⟨j, hj, hoffset⟩ := ih hb
      refine ⟨j + 1, Nat.succ_lt_succ hj, ?_⟩
      rw [byteOffset_cons]
      omega

/-- An encoded text is found in an encoded text only at a character, where the text itself is. -/
theorem exists_of_bytes_isPrefix (hne : needle ≠ []) (h : bytes needle <+: (bytes s).drop k) :
    ∃ j, j < s.length ∧ k = byteOffset s j ∧ needle <+: s.drop j := by
  cases needle with
  | nil => exact absurd rfl hne
  | cons c rest =>
    have hpos : 0 < (String.utf8EncodeChar c).length := by
      rw [String.length_utf8EncodeChar]
      exact c.utf8Size_pos
    have hhead : (bytes s)[k]? = some (String.utf8EncodeChar c)[0] := by
      obtain ⟨tail, htail⟩ := h
      have hzero : ((bytes s).drop k)[0]? = some (String.utf8EncodeChar c)[0] := by
        rw [← htail, bytes_cons, List.append_assoc, List.getElem?_append_left hpos,
          List.getElem?_eq_getElem hpos]
      rwa [List.getElem?_drop] at hzero
    obtain ⟨j, hj, rfl⟩ := exists_byteOffset hhead (UInt8.isUTF8FirstByte_getElem_utf8EncodeChar.mpr rfl)
    rw [drop_byteOffset] at h
    exact ⟨j, hj, rfl, isPrefix_of_bytes h⟩

/-- The search for the encoding of a text among bytes finds the character that the search for the text
finds. -/
theorem IsIndexOf.bytes (hstart : start ≤ s.length) (h : IsIndexOf needle s start n) :
    IsIndexOf (bytes needle) (bytes s) (byteOffset s start) (byteIndex s n) := by
  have hcharacter (hne : needle ≠ []) {k : Nat} (hk : byteOffset s start ≤ k)
      (hplace : Text.bytes needle <+: (Text.bytes s).drop k) :
      ∃ j, start ≤ j ∧ j < s.length ∧ k = byteOffset s j ∧ needle <+: s.drop j := by
    obtain ⟨j, hj, rfl, hfound⟩ := exists_of_bytes_isPrefix hne hplace
    exact ⟨j, (byteOffset_le_iff hstart (Nat.le_of_lt hj)).mp hk, hj, rfl, hfound⟩
  cases h with
  | missing hnone =>
    have hne : needle ≠ [] := by
      rintro rfl
      exact hnone start (Nat.le_refl _) List.nil_prefix
    refine .missing ?_
    intro k hk hplace
    obtain ⟨j, hj, -, -, hfound⟩ := hcharacter hne hk hplace
    exact hnone j hj hfound
  | @found place hle hplace hfirst =>
    have hindex : byteIndex s place = byteOffset s place := if_neg (by omega)
    rw [hindex]
    by_cases hne : needle = []
    · -- Nothing is found at once, so there is no earlier byte to look at.
      subst hne
      have hplace : place = start := by
        by_contra hlt
        exact hfirst start (Nat.le_refl _) (by omega) List.nil_prefix
      subst hplace
      exact .found (Nat.le_refl _) List.nil_prefix (by omega)
    · have hlt : place < s.length := by
        by_contra hge
        rw [List.drop_of_length_le (by omega), List.prefix_nil] at hplace
        exact hne hplace
      refine .found ((byteOffset_le_iff hstart (Nat.le_of_lt hlt)).mpr hle) ?_ ?_
      · rw [drop_byteOffset]
        exact bytes_isPrefix hplace
      · intro k hk hbefore hbytes
        obtain ⟨j, hj, hjlt, rfl, hfound⟩ := hcharacter hne hk hbytes
        refine hfirst j hj ?_ hfound
        by_contra hge
        have hbehind := (byteOffset_le_iff (Nat.le_of_lt hlt) (Nat.le_of_lt hjlt)).mpr (Nat.le_of_not_lt hge)
        omega

/-- Through the bytes, the search finds the first position among the characters. -/
theorem indexFrom?_eq_positionFrom? (hstart : start ≤ s.length) :
    indexFrom? needle start s = positionFrom? needle start s := by
  have hsteps : indexFrom? needle start s =
      (positionFrom? (bytes needle) (byteOffset s start) (bytes s)).map
        fun found => charCount ((bytes s).take found) := by
    rw [indexFrom?, offsetOf_eq, positionFrom?, Option.map_map]
    rfl
  rw [hsteps]
  cases hfound : positionFrom? needle start s with
  | none =>
    have hbytes := (positionFrom?_eq_none hfound).bytes hstart
    rw [positionFrom?_eq_none_iff.mpr hbytes]
    rfl
  | some i =>
    have hindex := positionFrom?_eq_some hfound
    have hle := hindex.le_length hstart
    have hbytes := hindex.bytes hstart
    rw [byteIndex, if_neg (by omega), Int.toNat_natCast] at hbytes
    rw [positionFrom?_eq_some_iff.mpr hbytes, Option.map_some, take_byteOffset, charCount_bytes,
      List.length_take_of_le (by omega)]

end

/-- A number that is the first position among the characters, and that of the character at the first
position among the bytes. -/
structure FirstAt (needle s : String) (start : Nat) (n : Int) : Prop where
  characters : IsIndexOf needle.toList s.toList start n
  bytes : IsIndexOf (bytes needle.toList) (bytes s.toList) (byteOffset s.toList start)
    (byteIndex s.toList n)

end Text

/-! ## Methods of texts -/

namespace Value

variable {s t : String} {n m : Int}

def InText (length : Nat) (n : Int) : Prop := 0 ≤ n ∧ n ≤ length

instance (length : Nat) (n : Int) : Decidable (InText length n) := inferInstanceAs (Decidable (_ ∧ _))

theorem charIndex_eq {index : Value} (length limit : Nat) (h : index.integer? = some n) :
    charIndex length limit index =
      if InText limit n then .ok n.toNat else .error (.indexOutOfRange n length) := by
  rw [charIndex, h]
  rfl

theorem Stores.exists_int32 {v : Value} (h : v.Stores .int32 n) :
    ∃ k : Int32, v = .int32 k ∧ k.toInt = n := by
  obtain ⟨hinteger, hty⟩ := h
  cases v <;> cases hinteger <;> cases hty
  exact ⟨_, rfl, rfl⟩

/-- A search from within the text has a result, for positions of 32 bits. -/
theorem exists_indexOf {start : Nat} (hs : s.length < 2147483648) (hstart : start ≤ s.length) :
    ∃ n : Int32, indexOf s t start = .ok (.int32 n) ∧ Text.FirstAt t s start n.toInt := by
  have hlength : s.toList.length = s.length := String.length_toList
  obtain ⟨found, hfound, hindex⟩ : ∃ found : Int, indexOf s t start = stored "IndexOf" .int32 found ∧
      Text.IsIndexOf t.toList s.toList start found := by
    rw [indexOf, Text.indexFrom?_eq_positionFrom? (by omega)]
    cases h : Text.positionFrom? t.toList start s.toList with
    | none => exact ⟨-1, rfl, Text.positionFrom?_eq_none h⟩
    | some i => exact ⟨i, rfl, Text.positionFrom?_eq_some h⟩
  have hle := hindex.le_length (by omega)
  have hneg : -1 ≤ found := by
    cases hindex <;> omega
  have hholds : Ty.int32.holds found = true := by
    simp only [Ty.holds, Ty.underlying, Bool.and_eq_true, decide_eq_true_eq]
    omega
  obtain ⟨v, hv, hstores⟩ := stored_of_holds "IndexOf" hholds
  obtain ⟨k, rfl, rfl⟩ := hstores.exists_int32
  exact ⟨k, hfound.trans hv, hindex, hindex.bytes (by omega)⟩

end Value

namespace Expr

/-- A call of a method of texts, whose result has the type that goes with its name. -/
def onText (declaring : Ty) (result : String → Ty) (target : Expr) (name : String) (args : List Expr) :
    Expr :=
  .call target ⟨declaring, name, none⟩ args (result name)

section
variable {depth : Nat} {x y i k : Expr} {s t : String} {needle start count : Value} {n m : Int}

theorem evaluateWithin_onText {declaring : Ty} {result : String → Ty} {name : String} {args : List Expr}
    {ws : List Value} {r : Evaluated} (hx : x.evaluateWithin depth = .ok (.string s))
    (hargs : List.Forall₂ (fun e w => e.evaluateWithin depth = .ok w) args ws)
    (hr : Value.stringMethod s name ws = some r) :
    (onText declaring result x name args).evaluateWithin (depth + 1) = r := by
  have hws := mapM_eq_ok.mpr hargs
  unfold evaluateWithin at hx hws ⊢
  change args.mapM (eval (depth + 1)) = .ok ws at hws
  rw [onText, eval, hx, hws]
  change (Value.stringMethod s name ws).getD _ = r
  rw [hr]
  rfl

theorem evaluateWithin_indexOf_from {declaring : Ty} {result : String → Ty}
    (hx : x.evaluateWithin depth = .ok (.string s)) (hy : y.evaluateWithin depth = .ok needle)
    (ht : needle.text? = some t) (hi : i.evaluateWithin depth = .ok start) (hn : start.integer? = some n) :
    (onText declaring result x "IndexOf" [y, i]).evaluateWithin (depth + 1) =
      if Value.InText s.length n then Value.indexOf s t n.toNat
      else .error (.indexOutOfRange n s.length) := by
  have hr : Value.stringMethod s "IndexOf" [needle, start] =
      some (Value.charIndex s.length s.length start >>= Value.indexOf s t) := by
    simp [Value.stringMethod, ht, String.length_toList]
  rw [evaluateWithin_onText hx (.cons hy (.cons hi .nil)) hr, Value.charIndex_eq _ _ hn]
  split <;> rfl

theorem evaluateWithin_substring {declaring : Ty} {result : String → Ty}
    (hx : x.evaluateWithin depth = .ok (.string s)) (hi : i.evaluateWithin depth = .ok start)
    (hn : start.integer? = some n) :
    (onText declaring result x "Substring" [i]).evaluateWithin (depth + 1) =
      if Value.InText s.length n then .ok (.string (.ofList (s.toList.drop n.toNat)))
      else .error (.indexOutOfRange n s.length) := by
  have hr : Value.stringMethod s "Substring" [start] =
      some (Value.charIndex s.length s.length start >>= fun start =>
        .ok (.string (.ofList (s.toList.drop start)))) := by
    simp [Value.stringMethod, pure, Except.pure, String.length_toList]
  rw [evaluateWithin_onText hx (.cons hi .nil) hr, Value.charIndex_eq _ _ hn]
  split <;> rfl

theorem evaluateWithin_substring_count {declaring : Ty} {result : String → Ty}
    (hx : x.evaluateWithin depth = .ok (.string s)) (hi : i.evaluateWithin depth = .ok start)
    (hn : start.integer? = some n) (hk : k.evaluateWithin depth = .ok count)
    (hm : count.integer? = some m) :
    (onText declaring result x "Substring" [i, k]).evaluateWithin (depth + 1) =
      if Value.InText s.length n then
        if Value.InText (s.length - n.toNat) m then
          .ok (.string (.ofList ((s.toList.drop n.toNat).take m.toNat)))
        else .error (.indexOutOfRange m s.length)
      else .error (.indexOutOfRange n s.length) := by
  have hr : Value.stringMethod s "Substring" [start, count] =
      some (Value.charIndex s.length s.length start >>= fun start =>
        Value.charIndex s.length (s.length - start) count >>= fun count =>
          .ok (.string (.ofList ((s.toList.drop start).take count)))) := by
    simp [Value.stringMethod, pure, Except.pure, String.length_toList]
  rw [evaluateWithin_onText hx (.cons hi (.cons hk .nil)) hr, Value.charIndex_eq _ _ hn]
  split
  · change Value.charIndex s.length (s.length - n.toNat) count >>= _ = _
    rw [Value.charIndex_eq _ _ hm]
    split <;> rfl
  · rfl

/-- The methods that search a text find the first position that it has among the characters, and the
methods that cut it fail exactly outside of the text and otherwise keep the characters that they say. -/
theorem onText_finds_and_cuts (declaring : Ty) (result : String → Ty)
    (hx : x.evaluateWithin depth = .ok (.string s)) (hs : s.length < 2147483648)
    (hy : y.evaluateWithin depth = .ok needle) (ht : needle.text? = some t)
    (hi : i.evaluateWithin depth = .ok start) (hn : start.integer? = some n)
    (hk : k.evaluateWithin depth = .ok count) (hm : count.integer? = some m) :
    let folded (name : String) (args : List Expr) : Evaluated :=
      (onText declaring result x name args).evaluateWithin (depth + 1)
    ∃ position : Int32,
      Text.FirstAt t s 0 position.toInt ∧
      folded "IndexOf" [y] = .ok (.int32 position) ∧
      folded "Contains" [y] = .ok (.boolean (decide (0 ≤ position.toInt))) ∧
      folded "StartsWith" [y] = .ok (.boolean (decide (position.toInt = 0))) ∧
      (if Value.InText s.length n then
        ∃ later : Int32, Text.FirstAt t s n.toNat later.toInt ∧ folded "IndexOf" [y, i] = .ok (.int32 later)
      else folded "IndexOf" [y, i] = .error (.indexOutOfRange n s.length)) ∧
      folded "Substring" [i] =
        (if Value.InText s.length n then .ok (.string (.ofList (s.toList.drop n.toNat)))
        else .error (.indexOutOfRange n s.length)) ∧
      folded "Substring" [i, k] =
        (if Value.InText s.length n then
          if Value.InText (s.length - n.toNat) m then
            .ok (.string (.ofList ((s.toList.drop n.toNat).take m.toNat)))
          else .error (.indexOutOfRange m s.length)
        else .error (.indexOutOfRange n s.length)) ∧
      (0 ≤ position.toInt → m = t.length →
        (onText declaring result x "Substring" [onText declaring result x "IndexOf" [y], k]).evaluateWithin
          (depth + 2) = .ok (.string t)) := by
  intro folded
  have hzero : 0 ≤ s.length := Nat.zero_le _
  obtain ⟨position, hindex, hfirst⟩ := Value.exists_indexOf (t := t) hs hzero
  have hindexOf : folded "IndexOf" [y] = .ok (.int32 position) := by
    refine evaluateWithin_onText hx (.cons hy .nil) ?_
    simp [Value.stringMethod, ht, hindex]
  refine ⟨position, hfirst, hindexOf, ?_, ?_, ?_, evaluateWithin_substring hx hi hn,
    evaluateWithin_substring_count hx hi hn hk hm, ?_⟩
  · have hcontains : Text.contains t.toList s.toList = decide (0 ≤ position.toInt) := by
      rw [Bool.eq_iff_iff, Text.contains_iff, decide_eq_true_iff, hfirst.characters.nonneg_iff]
      simp
    refine evaluateWithin_onText hx (.cons hy .nil) ?_
    simp [Value.stringMethod, ht, hcontains]
  · have hprefix : t.toList.isPrefixOf s.toList = decide (position.toInt = 0) := by
      rw [Bool.eq_iff_iff, List.isPrefixOf_iff_prefix, decide_eq_true_iff, hfirst.characters.eq_zero_iff]
    refine evaluateWithin_onText hx (.cons hy .nil) ?_
    simp [Value.stringMethod, ht, hprefix]
  · have hlater : folded "IndexOf" [y, i] = _ := evaluateWithin_indexOf_from hx hy ht hi hn
    split
    case isTrue hrange =>
      rw [if_pos hrange] at hlater
      obtain ⟨hpos, hle⟩ := hrange
      have hstart : n.toNat ≤ s.length := by omega
      obtain ⟨later, hindex, hfirst⟩ := Value.exists_indexOf (t := t) hs hstart
      exact ⟨later, hfirst, hlater.trans hindex⟩
    case isFalse hrange => rwa [if_neg hrange] at hlater
  · intro hpos hlength
    have hplace := hfirst.characters.isPrefix_drop hpos
    have hle := hfirst.characters.le_length (Nat.zero_le _)
    have hfits := hplace.length_le
    rw [List.length_drop, String.length_toList, String.length_toList] at hfits
    rw [String.length_toList] at hle
    have hinner : Value.InText s.length position.toInt := ⟨hpos, hle⟩
    have hcount : Value.InText (s.length - position.toInt.toNat) m := ⟨by omega, by omega⟩
    have hcut : (s.toList.drop position.toInt.toNat).take m.toNat = t.toList := by
      rw [hlength, Int.toNat_natCast, ← String.length_toList]
      exact (List.prefix_iff_eq_take.mp hplace).symm
    have hdeeper {e : Expr} {w : Value} (he : e.evaluateWithin depth = .ok w) :
        e.evaluateWithin (depth + 1) = .ok w := eval_mono (Nat.le_succ _) he
    rw [evaluateWithin_substring_count (hdeeper hx) hindexOf rfl (hdeeper hk) hm, if_pos hinner,
      if_pos hcount, hcut, String.ofList_toList]

end

/-- The first accented letter of a word is its third character and its fourth byte. -/
theorem onText_finds_and_cuts_accent :
    let word : Expr := .ofValue (.string "nïñño")
    let letter : Expr := .ofValue (.char 'ñ')
    let one : Expr := .ofValue (.int64 1)
    Text.FirstAt "ñ" "nïñño" 0 2 ∧ Text.byteIndex "nïñño".toList 2 = 3 ∧
    (onText .string (fun _ => .string) word "Substring"
      [onText .string (fun _ => .string) word "IndexOf" [letter], one]).evaluateWithin 2 =
        .ok (.string "ñ") := by
  intro word letter one
  have hword : word.evaluateWithin 0 = .ok (.string "nïñño") := rfl
  have hletter : letter.evaluateWithin 0 = .ok (.char 'ñ') := rfl
  have hone : one.evaluateWithin 0 = .ok (.int64 1) := rfl
  obtain ⟨position, hfirst, hindex, -, -, -, -, -, hcut⟩ :=
    onText_finds_and_cuts .string (fun _ => .string) hword (by decide) hletter rfl hone rfl hone rfl
  have hposition : (.ok (.int32 2) : Evaluated) = .ok (.int32 position) := hindex
  cases hposition
  exact ⟨hfirst, by decide, hcut (by decide) (by decide)⟩

end Expr
end ResourceQuery
