import ResourceQuery.Number.Rounding

/-! # Binary floating-point numbers as exact ratios

A bit pattern is read as a sign, a significand and a power of two, and a ratio is written as
the pattern nearest to it. Truncation, rounding to whole numbers, the remainder and the step
between the two widths are computed on the exact ratios, so none of them rounds twice.
-/
namespace ResourceQuery.Number

structure Format where
  fractionBits : Nat
  exponentBits : Nat
  deriving DecidableEq

def Format.binary64 : Format := ⟨52, 11⟩
def Format.binary32 : Format := ⟨23, 8⟩

/-- The exponent of the least positive number. -/
def Format.minExponent (F : Format) : Int := 2 - pow2 (F.exponentBits - 1) - F.fractionBits

def Format.infinityBits (F : Format) : Nat := (pow2 F.exponentBits - 1) * pow2 F.fractionBits

def Format.signBit (F : Format) : Nat := pow2 (F.fractionBits + F.exponentBits)

/-- What a bit pattern denotes; a finite number is `± significand * 2 ^ exponent`. -/
inductive Datum
  | nan
  | infinite (negative : Bool)
  | finite (negative : Bool) (significand : Nat) (exponent : Int)
  deriving DecidableEq

def Format.decode (F : Format) (bits : Nat) : Datum :=
  let fraction := bits % pow2 F.fractionBits
  let biased := bits / pow2 F.fractionBits % pow2 F.exponentBits
  let negative := bits / F.signBit % 2 == 1
  if biased + 1 = pow2 F.exponentBits then
    if fraction = 0 then .infinite negative else .nan
  else if biased = 0 then .finite negative fraction F.minExponent
  else .finite negative (pow2 F.fractionBits + fraction) (F.minExponent + (biased - 1 : Nat))

/-- The ratio `significand * 2 ^ exponent` as numerator and denominator. -/
def ratio (significand : Nat) (exponent : Int) : Nat × Nat :=
  (significand * pow2 exponent.toNat, pow2 (-exponent).toNat)

/-- The largest `k` with `2 ^ k ≤ num / den`, for a positive ratio. -/
def floorLog2 (num den : Nat) : Int :=
  let guess : Int := (num.log2 : Int) - (den.log2 : Int)
  if den * pow2 guess.toNat ≤ num * pow2 (-guess).toNat then guess else guess - 1

/-- The pattern nearest to `num / den`, half to even; a carry out of the significand runs
into the exponent field, which is the next power of two. -/
def Format.encodeMagnitude (F : Format) (num den : Nat) : Nat :=
  if num = 0 then 0
  else
    let exponent := max F.minExponent (floorLog2 num den - F.fractionBits)
    let significand :=
      roundedQuotient .even (num * pow2 (-exponent).toNat) (den * pow2 exponent.toNat)
    min F.infinityBits ((exponent - F.minExponent).toNat * pow2 F.fractionBits + significand)

def Format.encode (F : Format) (negative : Bool) (num den : Nat) : Nat :=
  F.encodeMagnitude num den + if negative then F.signBit else 0

def Format.encodeDatum (F : Format) : Datum → Nat
  | .nan => F.infinityBits + pow2 (F.fractionBits - 1)
  | .infinite negative => F.infinityBits + if negative then F.signBit else 0
  | .finite negative significand exponent =>
    let (num, den) := ratio significand exponent
    F.encode negative num den

def datum (x : Float) : Datum := Format.binary64.decode x.toBits.toNat
def datum32 (x : Float32) : Datum := Format.binary32.decode x.toBits.toNat

def ofDatum (d : Datum) : Float := Float.ofBits (UInt64.ofNat (Format.binary64.encodeDatum d))
def ofDatum32 (d : Datum) : Float32 := Float32.ofBits (UInt32.ofNat (Format.binary32.encodeDatum d))

def Datum.isFinite : Datum → Bool
  | .finite .. => true
  | _ => false

def Datum.isNaN : Datum → Bool
  | .nan => true
  | _ => false

def widen (x : Float32) : Float := ofDatum (datum32 x)

def narrow (x : Float) : Float32 := ofDatum32 (datum x)

def ofInt (n : Int) : Float := ofDatum (.finite (n < 0) n.natAbs 0)

def ofInt32 (n : Int) : Float32 := ofDatum32 (.finite (n < 0) n.natAbs 0)

def signed (negative : Bool) (n : Nat) : Int := if negative then -n else n

def truncated (x : Float) : Option Int :=
  match datum x with
  | .finite negative significand exponent =>
    let (num, den) := ratio significand exponent
    some (signed negative (num / den))
  | _ => none

inductive Whole
  | nearestEven
  | nearestAway
  | floor
  | ceiling
  deriving DecidableEq

def Whole.magnitude (rule : Whole) (negative : Bool) (num den : Nat) : Nat :=
  match rule with
  | .nearestEven => roundedQuotient .even num den
  | .nearestAway => roundedQuotient .up num den
  | .floor => if negative && num % den != 0 then num / den + 1 else num / den
  | .ceiling => if !negative && num % den != 0 then num / den + 1 else num / den

def Whole.isNearest : Whole → Bool
  | .nearestEven | .nearestAway => true
  | .floor | .ceiling => false

/-- The number brought to a whole one; the sign stays, also on a zero. -/
def Whole.apply (rule : Whole) (x : Float) : Float :=
  match datum x with
  | .finite negative significand exponent =>
    let (num, den) := ratio significand exponent
    ofDatum (.finite negative (rule.magnitude negative num den) 0)
  | _ => x

/-- What is left of `x` after taking `y` off a whole number of times toward zero. The result
is exact and has the sign of `x`. -/
def remainder (x y : Float) : Float :=
  match datum x, datum y with
  | .finite negative m p, .finite _ n q =>
    if n = 0 then ofDatum .nan
    else
      let low := min p q
      ofDatum (.finite negative (m * pow2 (p - low).toNat % (n * pow2 (q - low).toNat)) low)
  | .finite .., .infinite _ => x
  | _, _ => ofDatum .nan

end ResourceQuery.Number
