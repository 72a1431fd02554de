import ResourceQuery.Number.Shortest

/-! # Decimals of 96 bits

A decimal is a sign, a mantissa below `2 ^ 96` and a scale of at most 28 places. The scale is
part of the value that is written, so `1.0` and `1.00` are equal numbers with different texts;
a zero keeps its sign too.
-/
namespace ResourceQuery
open Number

/-- Two to the ninety-sixth. -/
abbrev mantissaLimit : Nat := 79228162514264337593543950336

structure Decimal where
  negative : Bool
  mantissa : Nat
  scale : Nat
  mantissa_lt : mantissa < mantissaLimit
  scale_le : scale ≤ 28
  deriving DecidableEq

namespace Decimal

def maxScale : Nat := 28

def ofParts? (negative : Bool) (mantissa scale : Nat) : Option Decimal :=
  if h : mantissa < mantissaLimit ∧ scale ≤ 28 then some ⟨negative, mantissa, scale, h.1, h.2⟩ else none

theorem ofParts?_eq_some (d : Decimal) : ofParts? d.negative d.mantissa d.scale = some d :=
  dif_pos ⟨d.mantissa_lt, d.scale_le⟩

def ofMantissa (negative : Bool) (mantissa : Nat) (h : mantissa < mantissaLimit) : Decimal :=
  ⟨negative, mantissa, 0, h, Nat.zero_le 28⟩

def zero : Decimal := ofMantissa false 0 (by decide)

def isZero (d : Decimal) : Bool := d.mantissa == 0

def units (d : Decimal) : Int := Number.signed d.negative d.mantissa

/-- The mantissa that `d` has at a scale no smaller than its own. -/
def mantissaAt (d : Decimal) (scale : Nat) : Nat := d.mantissa * pow10 (scale - d.scale)

def unitsAt (d : Decimal) (scale : Nat) : Int := d.units * pow10 (scale - d.scale)

/-- Numeric order, whatever the scales. -/
def order (a b : Decimal) : Ordering :=
  compare (a.units * pow10 b.scale) (b.units * pow10 a.scale)

def neg (d : Decimal) : Decimal := { d with negative := !d.negative }

def ofInt? (n : Int) : Option Decimal := ofParts? (n < 0) n.natAbs 0

/-- All places of the scale are written, and the sign of a zero too. -/
def text (d : Decimal) : String :=
  (if d.negative then "-" else "") ++ Number.pointed d.mantissa d.scale

/-- Reads a sign, digits and, after a point, the places of the scale. -/
def ofText? (s : String) : Option Decimal :=
  let (negative, body) := match s.toList with
    | '-' :: rest => (true, rest)
    | rest => (false, rest)
  let whole := body.takeWhile Char.isDigit
  let digits : Option (List Char) := match body.dropWhile Char.isDigit with
    | [] => some []
    | '.' :: places => if places.all Char.isDigit && !places.isEmpty then some places else none
    | _ => none
  match whole, digits with
  | [], _ => none
  | _, none => none
  | _, some places => ofParts? negative (Nat.ofDigitChars 10 (whole ++ places) 0) places.length

end Decimal
end ResourceQuery
