/-! # Powers and rounded quotients of natural numbers -/
namespace ResourceQuery.Number

def pow2 (n : Nat) : Nat := Nat.pow 2 n
def pow10 (n : Nat) : Nat := Nat.pow 10 n

theorem pow10_succ (n : Nat) : pow10 (n + 1) = pow10 n * 10 := rfl

theorem pow10_pos (n : Nat) : 0 < pow10 n := by
  induction n with
  | zero => decide
  | succ n ih => rw [pow10_succ]; omega

/-- Where a quotient exactly half way between two numbers goes. -/
inductive Tie
  | even
  | up
  deriving DecidableEq

def roundedQuotient (tie : Tie) (num den : Nat) : Nat :=
  let quotient := num / den
  let twice := 2 * (num % den)
  if twice < den then quotient
  else if den < twice then quotient + 1
  else match tie with
    | .even => quotient + quotient % 2
    | .up => quotient + 1

def zeroPadded (width n : Nat) : String :=
  String.ofList (List.replicate (width - n.repr.length) '0') ++ n.repr

/-- The number `n / 10 ^ places`, written with exactly that many places. -/
def pointed (n places : Nat) : String :=
  if places = 0 then n.repr
  else (n / pow10 places).repr ++ "." ++ zeroPadded places (n % pow10 places)

end ResourceQuery.Number
