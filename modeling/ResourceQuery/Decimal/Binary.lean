import ResourceQuery.Decimal.Arithmetic

/-! # Decimals and doubles

A decimal becomes a double through its whole part and its places, which are brought together
and rounded back to the scale. A double becomes a decimal by trading its powers of two for
powers of ten, and keeps about sixteen digits of it.
-/
namespace ResourceQuery.Decimal
open Number

/-- Multiplies `acc` by a power of `base`, squaring the base for each binary digit of the
exponent; `bits` bounds their number. -/
def timesPower (acc base : Float) : Nat → Nat → Float
  | 0, _ => acc
  | bits + 1, exponent =>
    let acc := if exponent % 2 = 1 then acc * base else acc
    if exponent / 2 = 0 then acc else timesPower acc (base * base) bits (exponent / 2)

def toFloat (d : Decimal) : Float :=
  if d.scale = 0 then Number.ofInt d.units
  else
    let unit := pow10 d.scale
    let whole := Number.ofInt (d.mantissa / unit : Nat)
    let places := Number.ofInt (d.mantissa % unit : Nat) / Number.ofInt unit
    let magnitude :=
      if places == 0 then whole
      else
        let scaled := timesPower 1 10 5 d.scale
        Whole.nearestAway.apply ((whole + places) * scaled) / scaled
    if d.negative then -magnitude else magnitude

structure Scaled where
  mantissa : Nat
  exponent : Int

/-- Takes `count` halvings: each is a halving of an even mantissa, or five tenths. -/
def Scaled.halve : Nat → Scaled → Scaled
  | 0, s => s
  | count + 1, s =>
    Scaled.halve count <|
      if s.mantissa % 2 = 0 then ⟨s.mantissa / 2, s.exponent + 1⟩
      else if s.mantissa * 5 < mantissaLimit then ⟨s.mantissa * 5, s.exponent⟩
      else ⟨s.mantissa / 2, s.exponent + 1⟩

/-- Takes `count` divisions by five: each is a doubling and a tenth while there is room. -/
def Scaled.fifth : Nat → Scaled → Option Scaled
  | 0, s => some s
  | count + 1, s =>
    if s.mantissa < mantissaLimit / 2 then Scaled.fifth count ⟨s.mantissa * 2, s.exponent - 1⟩
    else if (count + 1 : Int) < s.exponent * 2 then none
    else Scaled.fifth count ⟨s.mantissa / 5, s.exponent⟩

def Scaled.raise : Nat → Scaled → Option Scaled
  | 0, s => some s
  | count + 1, s =>
    if s.mantissa * 10 < mantissaLimit then Scaled.raise count ⟨s.mantissa * 10, s.exponent - 1⟩ else none

def withoutDigit (mantissa : Nat) : Nat := mantissa / 10 + if 5 ≤ mantissa % 10 then 1 else 0

/-- Drops `count` places that no scale can hold; a mantissa that runs out is a plain zero. -/
def Scaled.lower : Nat → Scaled → Scaled
  | 0, s => s
  | count + 1, s =>
    if s.mantissa / 10 = 0 then ⟨0, 0⟩
    else Scaled.lower count ⟨withoutDigit s.mantissa, s.exponent + 1⟩

def Scaled.shorten : Nat → Scaled → Scaled
  | 0, s => s
  | count + 1, s =>
    if 4503599627370496 ≤ s.mantissa then
      Scaled.shorten count ⟨withoutDigit s.mantissa, s.exponent + 1⟩
    else s

def Scaled.strip : Nat → Scaled → Scaled
  | 0, s => s
  | count + 1, s =>
    if s.mantissa % 10 = 0 then Scaled.strip count ⟨s.mantissa / 10, s.exponent + 1⟩ else s

def Scaled.toDecimal? (negative : Bool) (s : Scaled) : Option Decimal := do
  let s ← s.raise s.exponent.toNat
  let s := s.lower (-28 - s.exponent).toNat
  let s := s.shorten (-s.exponent).toNat
  let s := s.strip (-s.exponent).toNat
  ofParts? negative s.mantissa (-s.exponent).toNat

/-- The decimal of a double; `none` if it is not finite or too large. -/
def ofFloat? (x : Float) : Option Decimal :=
  match datum x with
  | .finite negative 0 _ => some { zero with negative }
  | .finite negative significand exponent => do
    let s := Scaled.halve (-exponent).toNat ⟨significand, exponent⟩
    let s ← if 0 < exponent then s.fifth exponent.toNat else some s
    s.toDecimal? negative
  | _ => none

end ResourceQuery.Decimal
