/-! # Quoted texts

A quoted text stands between single quotes, and a quote inside it is written twice. Reading
stops at the first quote that stands alone.
-/
namespace ResourceQuery.Text

def doubled : List Char → List Char
  | [] => []
  | c :: rest => if c = '\'' then c :: c :: doubled rest else c :: doubled rest

/-- The text up to the closing quote, and what follows it. -/
def undoubled? : List Char → Option (List Char × List Char)
  | [] => none
  | '\'' :: '\'' :: rest => (undoubled? rest).map fun (s, r) => ('\'' :: s, r)
  | c :: rest =>
    if c = '\'' then some ([], rest) else (undoubled? rest).map fun (s, r) => (c :: s, r)

theorem undoubled?_doubled (s : List Char) {rest : List Char} (h : rest.head? ≠ some '\'') :
    undoubled? (doubled s ++ '\'' :: rest) = some (s, rest) := by
  induction s with
  | nil =>
    cases rest with
    | nil => rfl
    | cons c r =>
      have hc : ¬c = '\'' := by simpa using h
      rw [doubled, List.nil_append, undoubled?] <;> simp [hc]
  | cons c s ih =>
    by_cases hc : c = '\''
    · simp [doubled, undoubled?, hc, ih]
    · simp only [doubled, hc, ↓reduceIte, List.cons_append]
      rw [undoubled?] <;> simp [hc, ih]

def quoted (s : String) : String := "'" ++ String.ofList (doubled s.toList) ++ "'"

end ResourceQuery.Text
