import ResourceQuery.Text.Quoted

/-! # Tokens of the filter grammar

A text is read one character at a time. A word is a longest run of characters that break no
word; a quoted text is over at a quote that no second one follows, so a character more has to
be seen.
-/
namespace ResourceQuery.Text

inductive Token
  | sign (c : Char)
  | word (cs : List Char)
  | quoted (cs : List Char)
  deriving DecidableEq

def isSign (c : Char) : Bool := c ∈ ['(', ')', '[', ']', ',', '-']

def isSeparator (c : Char) : Bool := c == ' ' || isSign c

def isBreak (c : Char) : Bool := c == '\'' || isSeparator c

theorem isBreak_of_all {cs : List Char} (h : cs.all (!isBreak ·) = true) :
    ∀ c ∈ cs, isBreak c = false := by
  simpa using h

/-- The part of a token that has been read. -/
inductive Pending
  | blank
  | word (cs : List Char)
  | quote (cs : List Char)
  /-- After a quote that ends the text unless another one follows. -/
  | closed (cs : List Char)
  deriving DecidableEq

namespace Pending

def tokens : Pending → List Token
  | .blank | .quote _ => []
  | .word cs => [.word cs]
  | .closed cs => [.quoted cs]

def isQuote : Pending → Bool
  | .quote _ => true
  | _ => false

end Pending

def separated (c : Char) : List Token := if c = ' ' then [] else [.sign c]

def start (c : Char) : List Token × Pending :=
  if isSeparator c then (separated c, .blank)
  else if c = '\'' then ([], .quote [])
  else ([], .word [c])

/-- The tokens that a character completes, and what is pending after it. -/
def step (p : Pending) (c : Char) : List Token × Pending :=
  match p with
  | .blank => start c
  | .word cs =>
    if isBreak c then (.word cs :: (start c).1, (start c).2) else ([], .word (cs ++ [c]))
  | .quote cs => ([], if c = '\'' then .closed cs else .quote (cs ++ [c]))
  | .closed cs =>
    if c = '\'' then ([], .quote (cs ++ [c])) else (.quoted cs :: (start c).1, (start c).2)

def scan : Pending → List Char → List Token × Pending
  | p, [] => ([], p)
  | p, c :: cs => ((step p c).1 ++ (scan (step p c).2 cs).1, (scan (step p c).2 cs).2)

/-- The tokens of a text, unless it ends inside quotes. -/
def lex (cs : List Char) : Option (List Token) :=
  let (ts, p) := scan .blank cs
  if p.isQuote then none else some (ts ++ p.tokens)

theorem forall_mem_intercalate {P : Char → Prop} {sep : List Char} {pieces : List (List Char)}
    (hsep : ∀ c ∈ sep, P c) (h : ∀ piece ∈ pieces, ∀ c ∈ piece, P c) :
    ∀ c ∈ sep.intercalate pieces, P c := by
  induction pieces with
  | nil => simp
  | cons piece pieces ih =>
    have htail := ih fun p hp => h p (List.mem_cons_of_mem _ hp)
    cases pieces with
    | nil => simpa using h piece
    | cons next rest =>
      intro c hc
      simp only [List.intercalate_cons_cons, List.mem_append] at hc
      rcases hc with (hc | hc) | hc
      · exact h piece (by simp) c hc
      · exact hsep c hc
      · exact htail c hc

theorem scan_append (p : Pending) (cs ds : List Char) :
    scan p (cs ++ ds) =
      ((scan p cs).1 ++ (scan (scan p cs).2 ds).1, (scan (scan p cs).2 ds).2) := by
  induction cs generalizing p with
  | nil => rfl
  | cons c cs ih => simp [scan, ih]

theorem lex_eq_some {cs : List Char} {ts : List Token} : lex cs = some ts ↔
    (scan .blank cs).2.isQuote = false ∧ (scan .blank cs).1 ++ (scan .blank cs).2.tokens = ts := by
  simp [lex]

/-- A separator completes what is pending and leaves nothing pending. -/
theorem step_separator {p : Pending} {c : Char} (hp : p.isQuote = false)
    (hc : isSeparator c = true) : step p c = (p.tokens ++ separated c, .blank) := by
  have hq : c ≠ '\'' := by rintro rfl; revert hc; decide
  cases p with
  | blank => simp [step, start, Pending.tokens, hc]
  | word cs => simp [step, start, Pending.tokens, hc, isBreak]
  | quote cs => cases hp
  | closed cs => simp [step, start, Pending.tokens, hc, hq]

theorem lex_append_separator {cs ds : List Char} {ts us : List Token} {c : Char}
    (hc : isSeparator c = true) (hcs : lex cs = some ts) (hds : lex ds = some us) :
    lex (cs ++ c :: ds) = some (ts ++ separated c ++ us) := by
  obtain ⟨hq, rfl⟩ := lex_eq_some.mp hcs
  obtain ⟨hr, rfl⟩ := lex_eq_some.mp hds
  rw [lex_eq_some, scan_append, scan, step_separator hq hc]
  exact ⟨hr, by simp⟩

theorem lex_append_space {cs ds : List Char} {ts us : List Token} (hcs : lex cs = some ts)
    (hds : lex ds = some us) : lex (cs ++ ' ' :: ds) = some (ts ++ us) := by
  rw [lex_append_separator rfl hcs hds]
  simp [separated]

theorem lex_append_sign {cs ds : List Char} {ts us : List Token} {c : Char}
    (hc : isSign c = true) (hcs : lex cs = some ts) (hds : lex ds = some us) :
    lex (cs ++ c :: ds) = some (ts ++ .sign c :: us) := by
  have hsp : c ≠ ' ' := by rintro rfl; revert hc; decide
  rw [lex_append_separator (by simp [isSeparator, hc]) hcs hds]
  simp [separated, hsp]

theorem lex_cons_sign {ds : List Char} {us : List Token} {c : Char} (hc : isSign c = true)
    (hds : lex ds = some us) : lex (c :: ds) = some (.sign c :: us) := by
  have hnil : lex [] = some [] := rfl
  exact lex_append_sign hc hnil hds

theorem lex_concat_sign {cs : List Char} {ts : List Token} {c : Char} (hc : isSign c = true)
    (hcs : lex cs = some ts) : lex (cs ++ [c]) = some (ts ++ [.sign c]) := by
  have hnil : lex [] = some [] := rfl
  exact lex_append_sign hc hcs hnil

theorem scan_word (cs ds : List Char) (h : ∀ c ∈ ds, isBreak c = false) :
    scan (.word cs) ds = ([], .word (cs ++ ds)) := by
  induction ds generalizing cs with
  | nil => simp [scan]
  | cons d ds ih =>
    have hd : isBreak d = false := h d (by simp)
    simp [scan, step, hd, ih (cs ++ [d]) (fun c hc => h c (by simp [hc]))]

theorem scan_blank_word {cs : List Char} (hne : cs ≠ []) (h : ∀ c ∈ cs, isBreak c = false) :
    scan .blank cs = ([], .word cs) := by
  cases cs with
  | nil => exact absurd rfl hne
  | cons c cs =>
    have hc : isBreak c = false := h c (by simp)
    have hstart : start c = ([], .word [c]) := by
      simp only [isBreak, Bool.or_eq_false_iff, beq_eq_false_iff_ne] at hc
      simp [start, hc]
    simp [scan, step, hstart, scan_word [c] cs (fun d hd => h d (by simp [hd]))]

theorem lex_word {cs : List Char} (hne : cs ≠ []) (h : ∀ c ∈ cs, isBreak c = false) :
    lex cs = some [.word cs] := by
  simp [lex, scan_blank_word hne h, Pending.isQuote, Pending.tokens]

/-- Every second quote of a doubled text is taken for one of the text's own. -/
theorem scan_doubled (cs ds rest : List Char) :
    scan (.quote cs) (doubled ds ++ rest) = scan (.quote (cs ++ ds)) rest := by
  induction ds generalizing cs with
  | nil => simp [doubled]
  | cons d ds ih =>
    by_cases hd : d = '\''
    · simp [doubled, hd, scan, step, ih]
    · simp [doubled, hd, scan, step, ih]

theorem scan_quoted (cs : List Char) :
    scan (.quote []) (doubled cs ++ ['\'']) = ([], .closed cs) := by
  rw [scan_doubled]
  simp [scan, step]

theorem lex_quoted (cs : List Char) : lex ('\'' :: (doubled cs ++ ['\''])) = some [.quoted cs] := by
  have hstep : step .blank '\'' = ([], .quote []) := rfl
  simp [lex, scan, hstep, scan_quoted, Pending.isQuote, Pending.tokens]

theorem lex_word_quoted {cs : List Char} (ds : List Char) (hne : cs ≠ [])
    (h : ∀ c ∈ cs, isBreak c = false) :
    lex (cs ++ '\'' :: (doubled ds ++ ['\''])) = some [.word cs, .quoted ds] := by
  have hstep : step (.word cs) '\'' = ([.word cs], .quote []) := rfl
  have hscan : scan .blank (cs ++ '\'' :: (doubled ds ++ ['\''])) = ([.word cs], .closed ds) := by
    rw [scan_append, scan_blank_word hne h, scan, hstep, scan_quoted]
    rfl
  rw [lex, hscan]
  rfl

/-! ## Words have no breaks in them -/

def Pending.Unbroken : Pending → Prop
  | .word cs => ∀ c ∈ cs, isBreak c = false
  | _ => True

def UnbrokenWords (ts : List Token) : Prop := ∀ w, .word w ∈ ts → ∀ c ∈ w, isBreak c = false

theorem start_unbroken (c : Char) : (start c).2.Unbroken ∧ UnbrokenWords (start c).1 := by
  unfold start
  split
  · refine ⟨trivial, fun w hw => ?_⟩
    unfold separated at hw
    split at hw <;> simp at hw
  · rename_i hsep
    split
    · exact ⟨trivial, by simp [UnbrokenWords]⟩
    · rename_i hquote
      have hbreak : isBreak c = false := by simp [isBreak, hquote, hsep]
      exact ⟨by simpa [Pending.Unbroken] using hbreak, by simp [UnbrokenWords]⟩

theorem step_unbroken {p : Pending} (c : Char) (hp : p.Unbroken) :
    (step p c).2.Unbroken ∧ UnbrokenWords (step p c).1 := by
  obtain ⟨hpending, hwords⟩ := start_unbroken c
  cases p with
  | blank => exact ⟨hpending, hwords⟩
  | word cs =>
    simp only [step]
    split
    · refine ⟨hpending, fun w hw => ?_⟩
      rcases List.mem_cons.mp hw with h | h
      · cases h
        exact hp
      · exact hwords w h
    · rename_i hc
      refine ⟨fun d hd => ?_, by simp [UnbrokenWords]⟩
      rcases List.mem_append.mp hd with hd | hd
      · exact hp d hd
      · rw [List.mem_singleton.mp hd]
        simpa using hc
  | quote cs =>
    refine ⟨?_, by simp [step, UnbrokenWords]⟩
    simp only [step]
    split <;> trivial
  | closed cs =>
    simp only [step]
    split
    · exact ⟨trivial, by simp [UnbrokenWords]⟩
    · refine ⟨hpending, fun w hw => ?_⟩
      rcases List.mem_cons.mp hw with h | h
      · cases h
      · exact hwords w h

theorem scan_unbroken {p : Pending} (cs : List Char) (hp : p.Unbroken) :
    (scan p cs).2.Unbroken ∧ UnbrokenWords (scan p cs).1 := by
  induction cs generalizing p with
  | nil => exact ⟨hp, by simp [scan, UnbrokenWords]⟩
  | cons c cs ih =>
    obtain ⟨hpending, hwords⟩ := step_unbroken c hp
    obtain ⟨hlast, hrest⟩ := ih hpending
    refine ⟨hlast, fun w hw => ?_⟩
    rcases List.mem_append.mp hw with hw | hw
    · exact hwords w hw
    · exact hrest w hw

theorem unbrokenWords_lex {cs : List Char} {ts : List Token} (h : lex cs = some ts) :
    UnbrokenWords ts := by
  obtain ⟨-, rfl⟩ := lex_eq_some.mp h
  obtain ⟨hpending, hwords⟩ := scan_unbroken (p := .blank) cs trivial
  intro w hw
  rcases List.mem_append.mp hw with hw | hw
  · exact hwords w hw
  · cases hlast : (scan .blank cs).2 with
    | word ds =>
      rw [hlast] at hpending hw
      simp only [Pending.tokens, List.mem_singleton, Token.word.injEq] at hw
      rw [hw]
      exact hpending
    | _ => simp [hlast, Pending.tokens] at hw

end ResourceQuery.Text
