import ResourceQuery.Decimal.Arithmetic

/-! # Quotients of decimals

A quotient is developed in blocks of up to nine places, until it comes out even or has no room for
another place. `none` is a quotient too large for 96 bits.
-/
namespace ResourceQuery.Decimal
open Number

def shortened (places : Nat) (d : Decimal) : Decimal :=
  ⟨d.negative, d.mantissa / pow10 places, d.scale - places,
    Nat.lt_of_le_of_lt (Nat.div_le_self d.mantissa (pow10 places)) d.mantissa_lt,
    Nat.le_trans (Nat.sub_le d.scale places) d.scale_le⟩

/-- The last places are zeros, and the mantissa is also a multiple of `twos`. -/
def hasZeros (places twos : Nat) (d : Decimal) : Bool :=
  d.mantissa % twos == 0 && decide (places ≤ d.scale) && d.mantissa % pow10 places == 0

def stripBlock (places twos : Nat) (d : Decimal) : Decimal :=
  if d.hasZeros places twos then d.shortened places else d

def stripEights : Nat → Decimal → Decimal
  | 0, d => d
  | tries + 1, d => if d.hasZeros 8 4294967296 then stripEights tries (d.shortened 8) else d

/-- Takes trailing zeros off in blocks of eight, four, two and one; a block goes only if the
mantissa is a multiple of the power of two that comes with it. -/
def stripZeros (d : Decimal) : Decimal :=
  (((stripEights 4 d).stripBlock 4 16).stripBlock 2 4).stripBlock 1 2

/-- The largest number of places, at most `limit`, by which the quotient can grow and still fit. -/
def growth (quotient : Nat) : Nat → Nat
  | 0 => 0
  | limit + 1 => if quotient * pow10 (limit + 1) < mantissaLimit then limit + 1 else growth quotient limit

/-- A quotient under development: `(quotient + remainder / divisor) / 10 ^ scale`. The scale is
negative while whole digits are missing. -/
structure Quotient where
  quotient : Nat
  remainder : Nat
  scale : Int
  inexact : Bool

/-- The quotient rounded half to even; the last place goes too if it has outgrown 96 bits. -/
def Quotient.rounded (negative : Bool) (divisor : Nat) (d : Quotient) : Option Decimal :=
  if d.scale < 0 then none
  else fit negative (d.quotient * divisor + d.remainder) divisor d.scale.toNat

def Quotient.extended (divisor places : Nat) (d : Quotient) : Quotient :=
  let shifted := d.remainder * pow10 places
  { quotient := d.quotient * pow10 places + shifted / divisor
    remainder := shifted % divisor
    scale := d.scale + places
    inexact := d.inexact || d.remainder != 0 }

/-- The developed quotient; trailing zeros go if the division did not come out even at once. -/
def Quotient.develop (negative : Bool) (divisor : Nat) : Nat → Quotient → Option Decimal
  | 0, d => (d.rounded negative divisor).map stripZeros
  | steps + 1, d =>
    if d.remainder = 0 ∧ 0 ≤ d.scale then
      (d.rounded negative divisor).map fun q => if d.inexact then q.stripZeros else q
    else
      let places :=
        if d.remainder = 0 then min 9 (-d.scale).toNat
        else growth d.quotient (min 9 (28 - d.scale).toNat)
      if places = 0 then (d.rounded negative divisor).map stripZeros
      else if mantissaLimit ≤ d.quotient * pow10 places then none
      else
        let next := d.extended divisor places
        if mantissaLimit ≤ next.quotient then (next.rounded negative divisor).map stripZeros
        else Quotient.develop negative divisor steps next

def div (a b : Decimal) : Option Decimal :=
  if a.isZero then some zero
  else
    let scale : Int := a.scale - b.scale
    let start : Quotient := ⟨a.mantissa / b.mantissa, a.mantissa % b.mantissa, scale, false⟩
    (Quotient.develop (a.negative != b.negative) b.mantissa ((28 - scale).toNat + 1) start).map withPlainZero

end ResourceQuery.Decimal
