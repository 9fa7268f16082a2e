import Setwise.Decimal.Magnitude

/-!
The fewest decimal digits that identify a real number.

The reals that round to a magnitude form an interval, and `shortest` takes the
coarsest decimal grid with a point in that interval, the nearer of two such points, and the upper one
when both are equally near.
-/

set_option autoImplicit false

namespace Setwise.Decimal

structure Scientific where
  digits : Nat
  exponent : Int
  deriving DecidableEq

def compareScaled (a : Nat) (i : Int) (n : Nat) (j : Int) : Ordering :=
  compare (a * Nat.pow 10 i.toNat * Nat.pow 2 (-j).toNat) (n * Nat.pow 2 j.toNat * Nat.pow 10 (-i).toNat)

/-- The decimal lies among the reals that round to `x`; the two ends do exactly when the
significand is even. -/
def Magnitude.readsBack (x : Magnitude) (d : Scientific) : Bool :=
  let ends := x.significand % 2 == 0
  let below := 4 * x.significand - (if x.narrowBelow then 1 else 2)
  let above := 4 * x.significand + 2
  let low := compareScaled d.digits d.exponent below (x.exponent - 2)
  let high := compareScaled d.digits d.exponent above (x.exponent - 2)
  (low == .gt || ends && low == .eq) && (high == .lt || ends && high == .eq)

/-- The number of digits in front of the point: the least `k` with `x < 10 ^ k`. The logarithm is
estimated from the binary one, which is never off by more than one. -/
def Magnitude.scale (x : Magnitude) : Int :=
  let estimate := ((x.significand.log2 : Int) + x.exponent) * 30103 / 100000
  let least := [estimate - 1, estimate, estimate + 1].find? fun k =>
    compareScaled 1 k x.significand x.exponent == .gt
  least.getD (estimate + 2)

def Magnitude.floorAt (x : Magnitude) (k : Int) : Nat :=
  x.significand * Nat.pow 2 x.exponent.toNat * Nat.pow 10 (-k).toNat
    / (Nat.pow 2 (-x.exponent).toNat * Nat.pow 10 k.toNat)

/-- The point of the grid of step `10 ^ k` that identifies `x`, the nearer one where both neighbours
do, and the upper one where they are equally near. -/
def Magnitude.onGrid? (x : Magnitude) (k : Int) : Option Scientific :=
  let low : Scientific := ⟨x.floorAt k, k⟩
  let high : Scientific := ⟨x.floorAt k + 1, k⟩
  match x.readsBack low, x.readsBack high with
  | false, false => none
  | true, false => some low
  | false, true => some high
  | true, true =>
    let middle := compareScaled (low.digits + high.digits) k (2 * x.significand) x.exponent
    some (if middle == .gt then low else high)

def Scientific.stripZeros (d : Scientific) : (fuel : Nat) → Scientific
  | 0 => d
  | fuel + 1 =>
    if d.digits % 10 == 0 && d.digits != 0 then
      Scientific.stripZeros ⟨d.digits / 10, d.exponent + 1⟩ fuel
    else d

def Magnitude.exact (x : Magnitude) : Scientific :=
  ⟨x.significand * Nat.pow 2 x.exponent.toNat * Nat.pow 5 (-x.exponent).toNat, min x.exponent 0⟩

/-- The decimal with the fewest digits that identifies `x`. Seventeen digits always suffice; the
exact value stands in where they would not. -/
def Magnitude.shortest (x : Magnitude) : Scientific :=
  if x.significand = 0 then ⟨0, 0⟩
  else
    let grids := (List.range 17).map fun (n : Nat) => x.scale - ((n : Int) + 1)
    ((grids.findSome? x.onGrid?).getD x.exact).stripZeros 20

end Setwise.Decimal
