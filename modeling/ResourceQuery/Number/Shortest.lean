import ResourceQuery.Number.Binary

/-! # The fewest digits that read back

A finite number stands for every real that rounds to it. Of the decimal grids `10 ^ k`, the
coarsest one with a point in that interval gives the fewest digits, and of its two points
around the number the nearer one is taken.
-/
namespace ResourceQuery.Number

structure Shortest where
  digits : Nat
  exponent : Int
  deriving DecidableEq

/-- The reals that round to `significand * 2 ^ exponent`, in quarters of a unit in the last
place. The step below a power of two is half as wide. -/
structure Interval where
  low : Nat
  high : Nat
  closed : Bool

def Format.interval (F : Format) (significand : Nat) (exponent : Int) : Interval :=
  let narrowBelow := significand = pow2 F.fractionBits ∧ F.minExponent < exponent
  { low := 4 * significand - if narrowBelow then 1 else 2
    high := 4 * significand + 2
    closed := significand % 2 = 0 }

def Interval.holds (i : Interval) (unit point : Nat) : Bool :=
  if i.closed then i.low * unit ≤ point ∧ point ≤ i.high * unit
  else i.low * unit < point ∧ point < i.high * unit

/-- The point of the grid `10 ^ k` that reads back, if one does; of two the nearer one, and the
upper one of two equally near. -/
def Format.gridPoint (F : Format) (significand : Nat) (exponent k : Int) : Option Nat :=
  let i := F.interval significand exponent
  -- All lengths are multiples of the same small unit.
  let quarter := exponent - 2
  let unit := pow2 quarter.toNat * pow10 (-k).toNat
  let step := pow2 (-quarter).toNat * pow10 k.toNat
  let value := 4 * significand * unit
  let below := value / step
  let lower := i.holds unit (below * step)
  let upper := i.holds unit ((below + 1) * step)
  if lower && upper then
    some (if value - below * step < (below + 1) * step - value then below else below + 1)
  else if lower then some below
  else if upper then some (below + 1)
  else none

def firstGrid (hit : Int → Option Nat) : Nat → Int → Option Shortest
  | 0, _ => none
  | tries + 1, k =>
    match hit k with
    | some digits => some ⟨digits, k⟩
    | none => firstGrid hit tries (k - 1)

/-- The fewest digits for a positive number. The search starts above the leading digit, at
`log10 2 < 30103 / 100000` places for each binary one, and seventeen digits always suffice;
the exact expansion stands behind it. -/
def Format.shortest (F : Format) (significand : Nat) (exponent : Int) : Shortest :=
  let top := ((significand.log2 : Int) + exponent + 1) * 30103 / 100000 + 1
  match firstGrid (F.gridPoint significand exponent) 24 top with
  | some found => found
  | none => ⟨significand * pow2 exponent.toNat * Nat.pow 5 (-exponent).toNat, min exponent 0⟩

/-- Positional text: no exponent, and no point in a whole number. -/
def Shortest.text (d : Shortest) : String :=
  pointed (d.digits * pow10 d.exponent.toNat) (-d.exponent).toNat

def Format.text (F : Format) : Datum → String
  | .nan => "NaN"
  | .infinite negative => if negative then "-inf" else "inf"
  | .finite negative significand exponent =>
    (if negative then "-" else "") ++
      if significand = 0 then "0" else (F.shortest significand exponent).text

def doubleText (x : Float) : String := Format.binary64.text (datum x)
def singleText (x : Float32) : String := Format.binary32.text (datum32 x)

end ResourceQuery.Number
