import ResourceQuery.Proofs.LiteralText
import ResourceQuery.Proofs.Printing
import ResourceQuery.Proofs.Reading

/-! # Filter text is unambiguous

Reading the text of a tree gives back the tree's shape, so trees of one text have one shape: no
pair of parentheses that the grouping needs is left out. Member names are taken to be words
that the grammar does not use for itself where an operand stands.
-/
namespace ResourceQuery
open Text

def Denotes (text : String) (level : Nat) (s : Shape) : Prop :=
  ∃ ts, lex text.toList = some ts ∧ Yields ts level s

namespace Denotes

theorem mono {text : String} {j k : Nat} {s : Shape} (h : Denotes text k s) (hjk : j ≤ k) :
    Denotes text j s := by
  obtain ⟨ts, hlex, hts⟩ := h
  exact ⟨ts, hlex, hts.mono hjk⟩

theorem readShape_eq {text : String} {level : Nat} {s : Shape} (h : Denotes text level s) :
    readShape text = some s := by
  obtain ⟨ts, hlex, hts⟩ := h
  have hread := hts.run_eq
  rw [readShape, hlex]
  exact hread

theorem word (text : String) (level : Nat) (hne : text.toList ≠ [])
    (hbreak : ∀ c ∈ text.toList, isBreak c = false) (hnot : text.toList ≠ "not".toList) :
    Denotes text level (.ofWord text.toList) := by
  refine ⟨_, lex_word hne hbreak, .atom level fun fs => ?_⟩
  have hstep : (Reader.before fs).step (.word text.toList) =
      some (.after (.ofWord text.toList) fs) := by
    simp only [Reader.step, Reader.stepBefore, hnot, ↓reduceIte]
  exact Reader.run_cons hstep

theorem enclosed {text : String} {q : Query} {least : Nat} {s : Shape} (hle : least ≤ 7)
    (h : Denotes text (min 7 q.precedence) s) : Denotes (q.enclosed least text) least s := by
  unfold Query.enclosed
  split
  · obtain ⟨ts, hlex, hts⟩ := h
    refine ⟨_, ?_, hts.grouped least⟩
    have hclosed := lex_concat_sign (c := ')') rfl hlex
    simpa using lex_cons_sign (c := '(') rfl hclosed
  · exact h.mono (by omega)

theorem binary {left right : String} {op : BinaryOp} {a b : Shape}
    (ha : Denotes left op.level a) (hb : Denotes right op.rightLevel b) :
    Denotes (left ++ " " ++ op.token ++ " " ++ right) op.level (op.shape a b) := by
  obtain ⟨ts, hts, hta⟩ := ha
  obtain ⟨us, hus, hub⟩ := hb
  have hword : lex op.token.toList = some [.word op.token.toList] := by
    rcases op with op | op | op <;> cases op <;> decide
  refine ⟨_, ?_, hta.binary hub⟩
  simpa using lex_append_space hts (lex_append_space hword hus)

/-- Both operands stand in the parentheses that the operator's level asks for. -/
theorem operator {left right : String} {p q : Query} {a b : Shape} {least : Nat}
    (ha : Denotes left (min 7 p.precedence) a) (op : BinaryOp) (hop : op.level ≤ least)
    (hleast : least ≤ 7) (hb : Denotes right (min 7 q.precedence) b) :
    Denotes (p.enclosed least left ++ " " ++ op.token ++ " " ++ q.enclosed op.rightLevel right)
      (min 7 op.level) (op.shape a b) := by
  have hleft := (ha.enclosed hleast).mono hop
  have hright := hb.enclosed op.rightLevel_le
  exact (hleft.binary hright).mono (Nat.min_le_right 7 op.level)

theorem not {text : String} {s : Shape} (h : Denotes text 7 s) :
    Denotes ("not " ++ text) 7 (.not s) := by
  obtain ⟨ts, hlex, hts⟩ := h
  have hword : lex "not".toList = some [.word "not".toList] := by decide
  refine ⟨_, ?_, hts.not⟩
  simpa using lex_append_space hword hlex

theorem negate {text : String} {s : Shape} (h : Denotes text 7 s) :
    Denotes ("-" ++ text) 7 (.negate s) := by
  obtain ⟨ts, hlex, hts⟩ := h
  refine ⟨_, ?_, hts.negate⟩
  simpa using lex_cons_sign (c := '-') rfl hlex

/-- Items between commas are the items of the tokens. -/
theorem lex_items {texts : List String} {shapes : List Shape}
    (h : List.Forall₂ (Denotes · 0 ·) texts shapes) :
    ∃ tss, lex (",".intercalate texts).toList = some ([.sign ','].intercalate tss) ∧
      List.Forall₂ (Yields · 0 ·) tss shapes := by
  induction h with
  | nil => exact ⟨[], rfl, .nil⟩
  | @cons text s texts shapes htext htexts ih =>
    obtain ⟨ts, hlex, hts⟩ := htext
    obtain ⟨tss, hlexes, htss⟩ := ih
    refine ⟨ts :: tss, ?_, .cons hts htss⟩
    rcases htexts with _ | ⟨hnext, hrest⟩
    · cases htss
      simpa using hlex
    · rcases htss with _ | ⟨hy, hys⟩
      have hcons := lex_append_sign (c := ',') rfl hlex hlexes
      simpa [List.intercalate_cons_cons] using hcons

theorem list {texts : List String} {shapes : List Shape}
    (h : List.Forall₂ (Denotes · 0 ·) texts shapes) :
    Denotes ("[" ++ ",".intercalate texts ++ "]") 7 (.list shapes) := by
  obtain ⟨tss, hlex, htss⟩ := lex_items h
  refine ⟨_, ?_, .list 7 htss⟩
  have hclosed := lex_concat_sign (c := ']') rfl hlex
  simpa using lex_cons_sign (c := '[') rfl hclosed

theorem call {texts : List String} {shapes : List Shape} (f : Function)
    (h : List.Forall₂ (Denotes · 0 ·) texts shapes) :
    Denotes (f.name ++ "(" ++ ",".intercalate texts ++ ")") 7 (.call f shapes) := by
  obtain ⟨tss, hlex, htss⟩ := lex_items h
  refine ⟨_, ?_, .call 7 f htss⟩
  have hname : lex f.name.toList = some [.word f.name.toList] := by cases f <;> decide
  have hclosed := lex_concat_sign (c := ')') rfl hlex
  simpa using lex_append_sign (c := '(') rfl hname hclosed

theorem number {cs : List Char} (h : Numeral cs) :
    Denotes (String.ofList cs) 7 (.literal (String.ofList cs)) := by
  obtain ⟨d, ds, rfl, hd⟩ := h.head
  have hnot : d :: ds ≠ "not".toList := by
    intro heq
    cases heq
    revert hd
    decide
  have hread : Shape.ofWord (d :: ds) = .literal (String.ofList (d :: ds)) := by
    simp [Shape.ofWord, Shape.startsWithDigit, hd]
  have hword := Denotes.word (String.ofList (d :: ds)) 7
  rw [String.toList_ofList, hread] at hword
  exact hword (by simp) h.unbroken hnot

theorem quoted (cs : List Char) :
    Denotes (Text.quoted (String.ofList cs)) 7 (.literal (Text.quoted (String.ofList cs))) := by
  refine ⟨[.quoted cs], ?_, .atom 7 fun fs => rfl⟩
  have hlex := lex_quoted cs
  simpa [Text.quoted] using hlex

theorem marked {s : String} (hs : s ∈ ["datetime", "guid"]) (cs : List Char) :
    Denotes (s ++ Text.quoted (String.ofList cs)) 7
      (.literal (s ++ Text.quoted (String.ofList cs))) := by
  have hne : s.toList ≠ [] := by revert s; decide
  have hbreak : ∀ s ∈ ["datetime", "guid"], s.toList.all (!isBreak ·) = true := by decide
  have hmark : s.toList ≠ "not".toList ∧ Shape.ofWord s.toList = .path [s] := by
    simp only [List.mem_cons, List.not_mem_nil, or_false] at hs
    rcases hs with rfl | rfl
    · exact ⟨by decide, rfl⟩
    · exact ⟨by decide, rfl⟩
  refine ⟨[.word s.toList, .quoted cs], ?_, .atom 7 fun fs => ?_⟩
  · have hlex := lex_word_quoted cs hne (isBreak_of_all (hbreak s hs))
    simpa [Text.quoted] using hlex
  · have hstep : (Reader.before fs).step (.word s.toList) = some (.after (.path [s]) fs) := by
      simp only [Reader.step, Reader.stepBefore, hmark.1, ↓reduceIte, hmark.2]
    exact (Reader.run_cons hstep).trans rfl

theorem keyword {s : String} (hs : s ∈ ["null", "true", "false"]) : Denotes s 7 (.literal s) := by
  simp only [List.mem_cons, List.not_mem_nil, or_false] at hs
  rcases hs with rfl | rfl | rfl
  · exact .word "null" 7 (by decide) (isBreak_of_all (by decide)) (by decide)
  · exact .word "true" 7 (by decide) (isBreak_of_all (by decide)) (by decide)
  · exact .word "false" 7 (by decide) (isBreak_of_all (by decide)) (by decide)

/-- A literal is read as it is written, with its sign apart. -/
theorem literal {text : String} (h : LiteralText text.toList) : Denotes text 7 (.ofLiteral text) := by
  obtain ⟨cs, rfl⟩ : ∃ cs, text = String.ofList cs := ⟨text.toList, String.ofList_toList.symm⟩
  rw [String.toList_ofList] at h
  have hplain : cs.head? ≠ some '-' → Shape.ofLiteral (String.ofList cs) = .literal (String.ofList cs) := by
    intro hhead
    unfold Shape.ofLiteral
    rw [String.toList_ofList]
    split
    · exact absurd rfl hhead
    · rfl
  cases h with
  | number hn =>
    obtain ⟨d, ds, rfl, hd⟩ := hn.head
    have hsign : d ≠ '-' := by
      rintro rfl
      revert hd
      decide
    rw [hplain (by simpa using hsign)]
    exact .number hn
  | negative hn => simpa [Shape.ofLiteral] using (Denotes.number hn).negate
  | keyword hs =>
    have hhead : ∀ s ∈ ["null", "true", "false"], s.toList.head? ≠ some '-' := by decide
    rw [hplain (hhead _ hs), String.ofList_toList]
    exact .keyword hs
  | quoted cs =>
    rw [hplain (by simp)]
    simpa [Text.quoted, String.append_assoc] using Denotes.quoted cs
  | @marked s cs hs =>
    have hhead : ∀ s ∈ ["datetime", "guid"], ∃ c ds, s.toList = c :: ds ∧ c ≠ '-' := by
      simp
    obtain ⟨c, ds, hds, hc⟩ := hhead s hs
    rw [hplain (by simpa [hds] using hc)]
    simpa [Text.quoted, String.append_assoc] using Denotes.marked hs cs

end Denotes

/-- Whether nothing in a member's name ends a word or a segment of a path. -/
def isSegment (name : String) : Bool :=
  name ≠ "" && name.toList.all fun c => !isBreak c && c ≠ '.'

/-- Whether a member's name is read as a name: it does not begin like a number, and it is none of
the words that can stand for an operand or before one. -/
def isName (name : String) : Bool :=
  isSegment name && !Shape.startsWithDigit name.toList && name ∉ ["null", "true", "false", "not"]

theorem isSegment_iff {name : String} : isSegment name = true ↔
    name.toList ≠ [] ∧ ∀ c ∈ name.toList, isBreak c = false ∧ c ≠ '.' := by
  simp [isSegment]

theorem isName_iff {name : String} : isName name = true ↔ isSegment name = true ∧
    Shape.startsWithDigit name.toList = false ∧ name ∉ ["null", "true", "false", "not"] := by
  simp [isName, and_assoc]

theorem toList_pathText {path : List String} (hne : path ≠ []) :
    (Query.pathText path).toList = ['.'].intercalate (path.map String.toList) := by
  cases path with
  | nil => exact absurd rfl hne
  | cons first rest => simp [Query.pathText]

/-- A path is one word, and the points in it are those between its segments. -/
theorem pathText_segments {path : List String} (hne : path ≠ [])
    (h : ∀ name ∈ path, isSegment name = true) :
    (Query.pathText path).toList ≠ [] ∧
      (∀ c ∈ (Query.pathText path).toList, isBreak c = false) ∧
      ((Query.pathText path).toList.splitOn '.').map String.ofList = path := by
  have hpieces : ∀ piece ∈ path.map String.toList, piece ≠ [] ∧
      ∀ c ∈ piece, isBreak c = false ∧ c ≠ '.' := by
    intro piece hp
    obtain ⟨name, hname, rfl⟩ := List.mem_map.mp hp
    exact isSegment_iff.mp (h name hname)
  rw [toList_pathText hne]
  refine ⟨?_, ?_, ?_⟩
  · cases path with
    | nil => exact absurd rfl hne
    | cons first rest =>
      have hfirst := (hpieces first.toList (by simp)).1
      cases rest <;> simp_all [List.intercalate_cons_cons]
  · refine forall_mem_intercalate (isBreak_of_all (by decide)) ?_
    intro piece hp c hc
    exact ((hpieces piece hp).2 c hc).1
  · rw [List.splitOn_intercalate '.' ?_ (by simpa using hne), List.map_map]
    · simp
    · intro piece hp hpoint
      exact ((hpieces piece hp).2 '.' hpoint).2 rfl

theorem startsWithDigit_pathText {first : String} (rest : List String) (h : isSegment first = true) :
    Shape.startsWithDigit (Query.pathText (first :: rest)).toList =
      Shape.startsWithDigit first.toList := by
  obtain ⟨c, cs, hcs⟩ := List.exists_cons_of_ne_nil (isSegment_iff.mp h).1
  rw [toList_pathText (by simp)]
  cases rest <;> simp [List.intercalate_cons_cons, Shape.startsWithDigit, hcs]

/-- A word of the grammar has no point in it, so it is no path but the one of that name. -/
theorem eq_of_pathText {path : List String} {word : String} (hne : path ≠ [])
    (h : ∀ name ∈ path, isSegment name = true) (hword : '.' ∉ word.toList)
    (heq : (Query.pathText path).toList = word.toList) : path = [word] := by
  obtain ⟨-, -, hsplit⟩ := pathText_segments hne h
  rw [heq, List.splitOn_eq_singleton hword] at hsplit
  simpa using hsplit.symm

/-- A path is read as its segments, unless its first name begins like a number or it is a word of
the grammar. -/
theorem ofWord_pathText {first : String} {rest : List String}
    (h : ∀ name ∈ first :: rest, isSegment name = true)
    (hdigit : Shape.startsWithDigit first.toList = false)
    (hword : ∀ word ∈ ["null", "true", "false"], first :: rest ≠ [word]) :
    Shape.ofWord (Query.pathText (first :: rest)).toList = .path (first :: rest) := by
  obtain ⟨-, -, hsplit⟩ := pathText_segments (by simp) h
  have hkeyword : Shape.isKeyword (Query.pathText (first :: rest)).toList = false := by
    have hne : ∀ word ∈ ["null", "true", "false"],
        (Query.pathText (first :: rest)).toList ≠ word.toList := by
      intro word hw heq
      have hpoint : ∀ word ∈ ["null", "true", "false"], '.' ∉ word.toList := by decide
      exact hword word hw (eq_of_pathText (by simp) h (hpoint word hw) heq)
    simp only [Shape.isKeyword, decide_eq_false_iff_not, List.mem_cons, List.not_mem_nil, or_false,
      not_or]
    exact ⟨hne _ (by simp), hne _ (by simp), hne _ (by simp)⟩
  unfold Shape.ofWord
  rw [startsWithDigit_pathText rest (h first (by simp)), hdigit, hkeyword, hsplit]
  rfl

theorem Denotes.path {path : List String} (hne : path ≠ []) (h : ∀ name ∈ path, isName name = true) :
    Denotes (Query.pathText path) 7 (.path path) := by
  have hsegments : ∀ name ∈ path, isSegment name = true := fun name hname =>
    (isName_iff.mp (h name hname)).1
  obtain ⟨hword, hbreak, -⟩ := pathText_segments hne hsegments
  have hreserved : ∀ word ∈ ["null", "true", "false", "not"], path ≠ [word] := by
    rintro word hw rfl
    exact (isName_iff.mp (h word (by simp))).2.2 hw
  have hnot : (Query.pathText path).toList ≠ "not".toList := fun heq =>
    hreserved "not" (by simp) (eq_of_pathText hne hsegments (by decide) heq)
  have hdenotes := Denotes.word (Query.pathText path) 7 hword hbreak hnot
  cases path with
  | nil => exact absurd rfl hne
  | cons first rest =>
    have hdigit := (isName_iff.mp (h first (by simp))).2.1
    rw [ofWord_pathText hsegments hdigit fun word hw =>
      hreserved word (List.mem_append_left ["not"] hw)] at hdenotes
    exact hdenotes

namespace Query

mutual
/-- Whether a tree is built from operators, calls and lists over literals and member paths. -/
def isPlain : Query → Bool
  | .constant value _ => value.literal.isOk
  | .member path _ => !path.isEmpty && path.all isName
  | .comparison _ left right | .logical _ left right | .arithmetic _ left right _ =>
    left.isPlain && right.isPlain
  | .not operand | .negate operand => operand.isPlain
  | .call _ args _ => allPlain args
  | .list elements _ => allPlain elements
  | .projection .. | .selector _ | .source _ | .selectMany .. | .unsupported .. => false
def allPlain : List Query → Bool
  | [] => true
  | q :: rest => q.isPlain && allPlain rest
end

mutual
/-- The tree without its types. Only that of plain trees is used. -/
def shape : Query → Shape
  | .constant value _ =>
    match value.literal with
    | .ok text => .ofLiteral text
    | .error _ => .path []
  | .member path _ => .path path
  | .comparison op left right => .comparison op left.shape right.shape
  | .logical op left right => .joined op left.shape right.shape
  | .arithmetic op left right _ => .arithmetic op left.shape right.shape
  | .not operand => .not operand.shape
  | .negate operand => .negate operand.shape
  | .call function args _ => .call function (shapes args)
  | .list elements _ => .list (shapes elements)
  | .projection .. | .selector _ | .source _ | .selectMany .. | .unsupported .. => .path []
def shapes : List Query → List Shape
  | [] => []
  | q :: rest => q.shape :: shapes rest
end

theorem precedence_logical (op : LogicalOp) (left right : Query) :
    (logical op left right).precedence = (BinaryOp.logical op).level := by
  cases op <;> rfl

theorem precedence_arithmetic (op : ArithmeticOp) (left right : Query) (ty : Ty) :
    (arithmetic op left right ty).precedence = (BinaryOp.arithmetic op).level := by
  cases op <;> rfl

mutual
theorem isRepresentable_of_isPlain : (q : Query) → q.isPlain = true → q.isRepresentable = true
  | .constant .., _ | .member .., _ => rfl
  | .comparison _ left right, h | .logical _ left right, h | .arithmetic _ left right _, h => by
    simp only [isPlain, Bool.and_eq_true] at h
    simp [isRepresentable, isRepresentable_of_isPlain left h.1, isRepresentable_of_isPlain right h.2]
  | .not operand, h | .negate operand, h => isRepresentable_of_isPlain operand h
  | .call _ args _, h => allRepresentable_of_allPlain args h
  | .list elements _, h => allRepresentable_of_allPlain elements h
theorem allRepresentable_of_allPlain :
    (qs : List Query) → allPlain qs = true → allRepresentable qs = true
  | [], _ => rfl
  | q :: rest, h => by
    simp only [allPlain, Bool.and_eq_true] at h
    simp [allRepresentable, isRepresentable_of_isPlain q h.1, allRepresentable_of_allPlain rest h.2]
end

mutual
/-- The text of a plain tree is read as its shape, at the level of its outermost operator. -/
theorem denotes_bare : (q : Query) → q.isPlain = true →
    ∃ text, q.bare = .ok text ∧ Denotes text (min 7 q.precedence) q.shape
  | .constant value ty, h => by
    cases hl : value.literal with
    | error e =>
      rw [isPlain, hl] at h
      cases h
    | ok text =>
      refine ⟨text, by simp [bare, hl], ?_⟩
      rw [shape, hl]
      exact .literal (Value.literalText hl)
  | .member path ty, h => by
    simp only [isPlain, Bool.and_eq_true, Bool.not_eq_true', List.isEmpty_eq_false_iff,
      List.all_eq_true] at h
    exact ⟨_, rfl, .path h.1 h.2⟩
  | .comparison op left right, h => by
    simp only [isPlain, Bool.and_eq_true] at h
    obtain ⟨l, hl, hleft⟩ := denotes_bare left h.1
    obtain ⟨r, hr, hright⟩ := denotes_bare right h.2
    refine ⟨_, by simp only [bare, hl, hr]; rfl, ?_⟩
    exact hleft.operator (.comparison op) (Nat.le_succ 4) (by decide) hright
  | .logical op left right, h => by
    simp only [isPlain, Bool.and_eq_true] at h
    obtain ⟨l, hl, hleft⟩ := denotes_bare left h.1
    obtain ⟨r, hr, hright⟩ := denotes_bare right h.2
    refine ⟨_, by simp only [bare, hl, hr]; rfl, ?_⟩
    rw [precedence_logical]
    have hle := BinaryOp.level_le (.logical op)
    exact hleft.operator (.logical op) (Nat.le_refl _) (by omega) hright
  | .arithmetic op left right ty, h => by
    simp only [isPlain, Bool.and_eq_true] at h
    obtain ⟨l, hl, hleft⟩ := denotes_bare left h.1
    obtain ⟨r, hr, hright⟩ := denotes_bare right h.2
    refine ⟨_, by simp only [bare, hl, hr]; rfl, ?_⟩
    rw [precedence_arithmetic]
    have hle := BinaryOp.level_le (.arithmetic op)
    exact hleft.operator (.arithmetic op) (Nat.le_refl _) (by omega) hright
  | .not operand, h => by
    obtain ⟨text, ht, hoperand⟩ := denotes_bare operand h
    exact ⟨_, by simp only [bare, ht]; rfl, (hoperand.enclosed (by decide)).not⟩
  | .negate operand, h => by
    obtain ⟨text, ht, hoperand⟩ := denotes_bare operand h
    exact ⟨_, by simp only [bare, ht]; rfl, (hoperand.enclosed (by decide)).negate⟩
  | .call function args ty, h => by
    obtain ⟨texts, ht, hargs⟩ := denotes_bareAll args h
    exact ⟨_, by simp only [bare, ht]; rfl, .call function hargs⟩
  | .list elements ty, h => by
    obtain ⟨texts, ht, helements⟩ := denotes_bareAll elements h
    exact ⟨_, by simp only [bare, ht]; rfl, .list helements⟩
theorem denotes_bareAll : (qs : List Query) → allPlain qs = true →
    ∃ texts, bareAll qs = .ok texts ∧ List.Forall₂ (Denotes · 0 ·) texts (shapes qs)
  | [], _ => ⟨[], rfl, .nil⟩
  | q :: rest, h => by
    simp only [allPlain, Bool.and_eq_true] at h
    obtain ⟨text, ht, hq⟩ := denotes_bare q h.1
    obtain ⟨texts, hts, hrest⟩ := denotes_bareAll rest h.2
    exact ⟨text :: texts, by simp only [bareAll, ht, hts]; rfl, .cons (hq.mono (Nat.zero_le _)) hrest⟩
end

theorem readShape_of_print {q : Query} {text : String} (h : q.isPlain = true)
    (hp : q.print = .ok text) : readShape text = some q.shape := by
  obtain ⟨own, hbare, hdenotes⟩ := denotes_bare q h
  rw [print_of_isRepresentable (isRepresentable_of_isPlain q h), hbare] at hp
  cases hp
  exact hdenotes.readShape_eq

/-- A plain tree is printed, and a plain tree of the same text has the same shape. -/
theorem shape_eq_of_print_eq {q₁ q₂ : Query} (h₁ : q₁.isPlain = true) (h₂ : q₂.isPlain = true) :
    (∃ text, q₁.print = .ok text) ∧ (q₁.print = q₂.print → q₁.shape = q₂.shape) := by
  obtain ⟨text, hbare, -⟩ := denotes_bare q₁ h₁
  have hprint : q₁.print = .ok text := by
    rw [print_of_isRepresentable (isRepresentable_of_isPlain q₁ h₁), hbare]
  refine ⟨⟨text, hprint⟩, fun heq => ?_⟩
  have hread₁ := readShape_of_print h₁ hprint
  have hread₂ := readShape_of_print h₂ (heq ▸ hprint)
  exact Option.some.inj (hread₁.symm.trans hread₂)

namespace Sample

/-- A name that holds a quote and two words of the grammar. -/
def unnamed : Query :=
  .not (.comparison .equal (.member ["Owner", "Name"] .string) (.constant (.string "it's (and) or") .string))

def grown (least : Query) : Query :=
  .comparison .greater (.arithmetic .multiply (.arithmetic .add (.member ["Age"] .int32) least .int32)
    (.constant (.int32 2) .int32) .int32) (.call .length [.member ["Name"] .string] .int32)

def permitted : Query := .logical .or (.member ["IsActive"] .boolean) (.member ["IsOwner"] .boolean)

/-- Grouped to the left, with a negative number. -/
def leftGrouped : Query :=
  .logical .and (.logical .and unnamed (grown (.constant (.int32 (-5)) .int32))) permitted

/-- Grouped to the right, with a negated number of another type. -/
def rightGrouped : Query :=
  .logical .and unnamed (.logical .and (grown (.negate (.constant (.byte 5) .byte))) permitted)

end Sample

open Sample in
theorem shape_eq_of_print_eq_regrouped :
    leftGrouped.print = rightGrouped.print ∧ leftGrouped.shape = rightGrouped.shape := by
  have hprint : leftGrouped.print = rightGrouped.print := by rfl
  exact ⟨hprint, (shape_eq_of_print_eq (by rfl) (by rfl)).2 hprint⟩

end Query
end ResourceQuery
