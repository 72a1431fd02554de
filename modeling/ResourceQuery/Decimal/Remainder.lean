import ResourceQuery.Decimal

/-! # Remainders of decimals

The remainder by a divisor of up to 64 bits is exact. A wider divisor takes long division in words
of 32 bits, with the divisor shifted up to fill three words. The digit of a step is the leading
word of the dividend over that of the divisor, and the two are equal at times; the digit is then
too large for a word, and the step goes on without the leading word.
-/
namespace ResourceQuery.Decimal
open Number

def carriedOver (divisor remainder : Nat) : Nat :=
  if remainder / pow2 64 = divisor / pow2 64 then remainder % pow2 64 else remainder

def bringDown (divisor remainder word : Nat) : Nat :=
  (carriedOver divisor remainder * pow2 32 + word) % divisor

def longRemainder (divisor : Nat) : Nat → Nat → Nat
  | 0, _ => 0
  | words + 1, n => bringDown divisor (longRemainder divisor words (n / pow2 32)) (n % pow2 32)

/-- The remainder of the mantissas at one scale. Seven words hold every dividend: 96 bits, 28
places and the shift. -/
def remainder (dividend divisor : Nat) : Nat :=
  if divisor < pow2 64 then dividend % divisor
  else
    let shift := pow2 (95 - divisor.log2)
    longRemainder (divisor * shift) 7 (dividend * shift) / shift

/-- The remainder of the division toward zero, by a divisor that is not zero. It has the sign of
the dividend, and a zero is a plain one. -/
def rem (a b : Decimal) : Option Decimal :=
  let scale := max a.scale b.scale
  let dividend := a.mantissaAt scale
  let divisor := b.mantissaAt scale
  if a.isZero || dividend = divisor then some zero
  else if dividend < divisor then some a
  else
    let left := remainder dividend divisor
    ofParts? (a.negative && left != 0) left scale

end ResourceQuery.Decimal
