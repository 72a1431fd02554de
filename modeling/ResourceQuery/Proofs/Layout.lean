import ResourceQuery.Proofs.Unambiguity

/-! # Texts with places for a key

A layout is a text in which some paths go on with a key after fixed names. Two texts of one layout
differ if their keys do. They are read as the same tokens, but for the paths with the key, exactly
if nothing in either key ends a word or a segment.
-/
namespace ResourceQuery
open Text

/-- The segments of a token that is read as a path, none of them empty. -/
def Text.Token.path? : Token → Option (List String)
  | .word w =>
    match Shape.ofWord w with
    | .path segments => if segments.all (· ≠ "") then some segments else none
    | _ => none
  | _ => none

theorem Text.Token.path?_eq_some {t : Token} {segments : List String} :
    t.path? = some segments ↔
      ∃ w, t = .word w ∧ Shape.ofWord w = .path segments ∧ ∀ name ∈ segments, name ≠ "" := by
  unfold Token.path?
  constructor
  · intro h
    repeat' split at h
    all_goals cases h
    rename_i w _ hw hne
    exact ⟨w, rfl, hw, by simpa using hne⟩
  · rintro ⟨w, rfl, hw, hne⟩
    simp only [hw]
    rw [if_pos (by simpa using hne)]

theorem mem_of_mem_splitOn {cs piece : List Char} (h : piece ∈ cs.splitOn '.') :
    (∀ c ∈ piece, c ∈ cs) ∧ '.' ∉ piece := by
  induction cs generalizing piece with
  | nil =>
    rw [List.splitOn_nil, List.mem_singleton] at h
    simp [h]
  | cons c cs ih =>
    obtain ⟨first, rest, hfirst⟩ := List.exists_cons_of_ne_nil (List.splitOn_ne_nil '.' cs)
    rw [List.splitOn_cons_eq_if_modifyHead, hfirst, List.modifyHead_cons] at h
    rw [hfirst] at ih
    split at h
    · rcases List.mem_cons.mp h with rfl | h
      · simp
      · exact ⟨fun d hd => .tail _ ((ih h).1 d hd), (ih h).2⟩
    · rename_i hc
      rcases List.mem_cons.mp h with rfl | h
      · obtain ⟨hmem, hpoint⟩ := ih (List.mem_cons_self)
        refine ⟨fun d hd => ?_, ?_⟩
        · rcases List.mem_cons.mp hd with rfl | hd
          · exact .head _
          · exact .tail _ (hmem d hd)
        · intro hd
          rcases List.mem_cons.mp hd with rfl | hd
          · exact hc rfl
          · exact hpoint hd
      · obtain ⟨hmem, hpoint⟩ := ih (List.mem_cons_of_mem _ h)
        exact ⟨fun d hd => .tail _ (hmem d hd), hpoint⟩

/-- A segment of a path that is read has no break, no point, and is not empty. -/
theorem isSegment_of_path? {cs : List Char} {ts : List Token} {t : Token} {segments : List String}
    {name : String} (hlex : lex cs = some ts) (ht : t ∈ ts) (hp : t.path? = some segments)
    (hname : name ∈ segments) : isSegment name = true := by
  obtain ⟨w, rfl, hw, hne⟩ := Token.path?_eq_some.mp hp
  have hbreak := unbrokenWords_lex hlex w ht
  have hnonempty := hne name hname
  unfold Shape.ofWord at hw
  split at hw
  · cases hw
  · cases hw
    obtain ⟨piece, hpiece, rfl⟩ := List.mem_map.mp hname
    obtain ⟨hmem, hpoint⟩ := mem_of_mem_splitOn hpiece
    rw [isSegment_iff, String.toList_ofList]
    refine ⟨by simpa using hnonempty, fun c hc => ⟨hbreak c (hmem c hc), ?_⟩⟩
    rintro rfl
    exact hpoint hc

inductive Layout
  | text (cs : List Char)
  /-- A path of the fixed names, the key and the rest. -/
  | entry (rest : List String)
  | join (left : Layout) (c : Char) (right : Layout)

namespace Layout
variable {names : List String} {k k₁ k₂ : String} {l : Layout}

def write (names : List String) (k : String) : Layout → List Char
  | .text cs => cs
  | .entry rest => (Query.pathText (names ++ k :: rest)).toList
  | .join left c right => left.write names k ++ c :: right.write names k

def places : Layout → Nat
  | .text _ => 0
  | .entry _ => 1
  | .join left _ right => left.places + right.places

theorem places_join {left right : Layout} {c : Char} (h : 0 < (join left c right).places) :
    0 < left.places ∨ 0 < right.places := by
  simp only [places] at h
  omega

theorem toList_pathText_entry (names rest : List String) (k : String) :
    (Query.pathText (names ++ k :: rest)).toList =
      names.flatMap (fun name => name.toList ++ ['.']) ++
        (k.toList ++ rest.flatMap fun name => '.' :: name.toList) := by
  rw [toList_pathText (by simp)]
  induction names with
  | nil =>
    rw [List.nil_append, List.map_cons]
    induction rest generalizing k with
    | nil => simp
    | cons name rest ih => simpa [List.intercalate_cons_cons] using ih name
  | cons name names ih =>
    cases names with
    | nil => simpa [List.intercalate_cons_cons] using ih
    | cons next names => simpa [List.intercalate_cons_cons] using ih

theorem length_write (names : List String) (k : String) (l : Layout) :
    (l.write names k).length = (l.write names "").length + l.places * k.length := by
  induction l with
  | text cs => simp [write, places]
  | entry rest =>
    simp only [write, places, toList_pathText_entry, List.length_append, String.length_toList,
      String.length_empty]
    omega
  | join left c right ihl ihr =>
    simp only [write, places, List.length_append, List.length_cons, ihl, ihr, Nat.add_mul]
    omega

/-- Texts of one layout show the key, whatever is in it. -/
theorem eq_of_write_eq (hp : 0 < l.places) (h : l.write names k₁ = l.write names k₂) : k₁ = k₂ := by
  have hlength : k₁.length = k₂.length := by
    have hall := congrArg List.length h
    rw [length_write names k₁, length_write names k₂] at hall
    exact Nat.eq_of_mul_eq_mul_left hp (by omega)
  induction l with
  | text => cases hp
  | entry rest =>
    rw [write, write, toList_pathText_entry, toList_pathText_entry] at h
    have hchars : k₁.toList.length = k₂.toList.length := by
      rw [String.length_toList, String.length_toList, hlength]
    exact String.toList_inj.mp (List.append_inj_left (List.append_cancel_left h) hchars)
  | join left c right ihl ihr =>
    have hleft : (left.write names k₁).length = (left.write names k₂).length := by
      rw [length_write names k₁, length_write names k₂, hlength]
    obtain ⟨hl, hr⟩ := List.append_inj h hleft
    rcases places_join hp with hp | hp
    · exact ihl hp hl
    · exact ihr hp (List.cons.inj hr).2

end Layout

/-- A place in a row of tokens: one token, or a path with a key after the names and the rest. -/
inductive Slot
  | token (t : Token)
  | entry (rest : List String)

def Slot.Holds (names : List String) (k : String) : Slot → Token → Prop
  | .token t, u => u = t
  | .entry rest, u => u.path? = some (names ++ k :: rest)

/-- The text is read as these tokens, with the key in the places for it. -/
def Fits (names : List String) (k : String) (pattern : List Slot) (cs : List Char) : Prop :=
  ∃ ts, lex cs = some ts ∧ List.Forall₂ (Slot.Holds names k) pattern ts

theorem Fits.isSegment {names rest : List String} {k : String} {pattern : List Slot} {cs : List Char}
    (h : Fits names k pattern cs) (hentry : .entry rest ∈ pattern) : isSegment k = true := by
  obtain ⟨ts, hlex, hts⟩ := h
  obtain ⟨i, hi, hslot⟩ := List.mem_iff_getElem.mp hentry
  obtain ⟨hlength, hholds⟩ := List.forall₂_iff_get.mp hts
  have ht := hholds i hi (hlength ▸ hi)
  rw [List.get_eq_getElem, hslot] at ht
  exact isSegment_of_path? hlex (List.get_mem _ _) ht (by simp)

namespace Layout
variable {names : List String} {k : String} {l : Layout}

def pattern : Layout → List Slot
  | .text cs => ((lex cs).getD []).map .token
  | .entry rest => [.entry rest]
  | .join left c right => left.pattern ++ (separated c).map .token ++ right.pattern

/-- The parts between separators are tokens, or paths with nothing but the key to end a segment. -/
def IsTokenized : Layout → Prop
  | .text cs => ∃ ts, lex cs = some ts
  | .entry rest => ∀ name ∈ rest, isSegment name = true
  | .join left c right => left.IsTokenized ∧ isSeparator c = true ∧ right.IsTokenized

theorem mem_pattern_of_places (h : 0 < l.places) : ∃ rest, .entry rest ∈ l.pattern := by
  induction l with
  | text => cases h
  | entry rest => exact ⟨rest, List.mem_singleton_self _⟩
  | join left c right ihl ihr =>
    rcases places_join h with h | h
    · obtain ⟨rest, hrest⟩ := ihl h
      exact ⟨rest, List.mem_append_left _ (List.mem_append_left _ hrest)⟩
    · obtain ⟨rest, hrest⟩ := ihr h
      exact ⟨rest, List.mem_append_right _ hrest⟩

theorem holds_tokens (names : List String) (k : String) (ts : List Token) :
    List.Forall₂ (Slot.Holds names k) (ts.map .token) ts := by
  rw [List.forall₂_map_left_iff, List.forall₂_same]
  exact fun t _ => rfl

/-- A path with a key is read as a path if the key is a segment. -/
theorem fits_entry {rest : List String} (hne : names ≠ []) (hnames : ∀ name ∈ names, isName name = true)
    (hk : isSegment k = true) (hrest : ∀ name ∈ rest, isSegment name = true) :
    Fits names k [.entry rest] (Query.pathText (names ++ k :: rest)).toList := by
  obtain ⟨first, others, rfl⟩ := List.exists_cons_of_ne_nil hne
  have hsegments : ∀ name ∈ first :: (others ++ k :: rest), isSegment name = true := by
    intro name hname
    rcases List.mem_append.mp (show name ∈ first :: others ++ k :: rest from hname) with h | h
    · exact (isName_iff.mp (hnames name h)).1
    · rcases List.mem_cons.mp h with rfl | h
      · exact hk
      · exact hrest name h
  have hfirst := (isName_iff.mp (hnames first (by simp))).2.1
  obtain ⟨hword, hbreak, -⟩ := pathText_segments (by simp) hsegments
  refine ⟨_, lex_word hword hbreak, .cons ?_ .nil⟩
  refine Token.path?_eq_some.mpr ⟨_, rfl, ofWord_pathText hsegments hfirst (by simp), ?_⟩
  rintro name hname rfl
  exact (isSegment_iff.mp (hsegments "" hname)).1 rfl

theorem fits_pattern (hne : names ≠ []) (hnames : ∀ name ∈ names, isName name = true)
    (hk : isSegment k = true) (h : l.IsTokenized) : Fits names k l.pattern (l.write names k) := by
  induction l with
  | text cs =>
    obtain ⟨ts, hts⟩ := h
    refine ⟨ts, hts, ?_⟩
    rw [pattern, hts]
    exact holds_tokens names k ts
  | entry rest => exact fits_entry hne hnames hk h
  | join left c right ihl ihr =>
    obtain ⟨hl, hc, hr⟩ := h
    obtain ⟨ts, hts, hleft⟩ := ihl hl
    obtain ⟨us, hus, hright⟩ := ihr hr
    refine ⟨_, lex_append_separator hc hts hus, ?_⟩
    exact List.rel_append (List.rel_append hleft (holds_tokens names k _)) hright

end Layout
end ResourceQuery
