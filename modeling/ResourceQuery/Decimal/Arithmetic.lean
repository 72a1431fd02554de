import ResourceQuery.Decimal

/-! # Sums, products and whole numbers of decimals

A result is exact where it fits, and otherwise loses the fewest places that make it fit, half to
even. `none` is a result too large for 96 bits.
-/
namespace ResourceQuery.Decimal
open Number

/-- The number `num / den / 10 ^ scale` with the fewest places dropped that make it fit, half to
even. -/
def fit (negative : Bool) (num den scale : Nat) : Option Decimal :=
  (List.range (scale + 1)).findSome? fun places =>
    ofParts? negative (roundedQuotient .even num (den * pow10 places)) (scale - places)

/-- A number other than zero keeps its sign, and a zero loses it. -/
def withPlainZero (d : Decimal) : Decimal := { d with negative := d.negative && !d.isZero }

/-- The sum, `subtract` taking the second operand with the other sign. A zero operand gives the
other one unchanged. -/
def combine (subtract : Bool) (a b : Decimal) : Option Decimal :=
  if a.isZero then some (if subtract && !b.isZero then b.neg else b)
  else if b.isZero then some a
  else
    let scale := max a.scale b.scale
    let total := a.unitsAt scale + (if subtract then -b.unitsAt scale else b.unitsAt scale)
    fit (total < 0) total.natAbs 1 scale

def add (a b : Decimal) : Option Decimal := combine false a b
def sub (a b : Decimal) : Option Decimal := combine true a b

def isNarrow (d : Decimal) : Bool := d.mantissa < 4294967296

/-- The product. Of two narrow operands nothing is left past 47 places, and a product that rounds
to zero is a plain one; with a wide operand such a zero has the sign of the product. -/
def mul (a b : Decimal) : Option Decimal :=
  if a.isZero || b.isZero then some zero
  else
    let scale := a.scale + b.scale
    let product := fit (a.negative != b.negative) (a.mantissa * b.mantissa) 1 scale
    if a.isNarrow && b.isNarrow then
      if maxScale + 19 < scale then some zero else product.map withPlainZero
    else product

theorem magnitude_le (rule : Whole) (negative : Bool) (num den : Nat) :
    rule.magnitude negative num den ≤ num / den + 1 := by
  cases rule <;> simp only [Whole.magnitude, roundedQuotient] <;> (repeat' split) <;> omega

/-- Without its places a mantissa is a digit shorter, which leaves room for the step up. -/
theorem magnitude_lt (rule : Whole) (d : Decimal) (h : d.scale ≠ 0) :
    rule.magnitude d.negative d.mantissa (pow10 d.scale) < mantissaLimit := by
  have hb := magnitude_le rule d.negative d.mantissa (pow10 d.scale)
  have hm := d.mantissa_lt
  have hten : 10 ≤ pow10 d.scale := by
    obtain ⟨n, hn⟩ := Nat.exists_eq_succ_of_ne_zero h
    have hpos := pow10_pos n
    rw [hn, pow10_succ]
    omega
  have hq : d.mantissa / pow10 d.scale ≤ d.mantissa / 10 := Nat.div_le_div_left hten (by decide)
  unfold mantissaLimit at *
  omega

/-- The decimal brought to a whole number; one without places stays as it is. A number that goes
to zero as the nearest loses its sign; a zero, and one that goes down or up, keeps it. -/
def whole (rule : Whole) (d : Decimal) : Decimal :=
  if h : d.scale = 0 then d
  else
    let magnitude := rule.magnitude d.negative d.mantissa (pow10 d.scale)
    let lost := rule.isNearest && !d.isZero && magnitude == 0
    ofMantissa (d.negative && !lost) magnitude (magnitude_lt rule d h)

def truncated (d : Decimal) : Int := signed d.negative (d.mantissa / pow10 d.scale)

end ResourceQuery.Decimal
