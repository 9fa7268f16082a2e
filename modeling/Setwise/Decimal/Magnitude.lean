/-!
Sign and absolute value of a real number.

A finite real is a sign and a `Magnitude`, a natural number times a power of two, read off the bits
that represent it. Infinities and the value that is no number have no magnitude.
-/

set_option autoImplicit false

namespace Setwise.Decimal

structure Magnitude where
  significand : Nat
  exponent : Int
  /-- The gap to the value below is half the gap to the value above. -/
  narrowBelow : Bool
  deriving DecidableEq

def Magnitude.ofFloat? (x : Float) : Option Magnitude :=
  let bits : Nat := x.toBits.toNat
  let biased : Nat := bits / Nat.pow 2 52 % Nat.pow 2 11
  let fraction : Nat := bits % Nat.pow 2 52
  if biased = Nat.pow 2 11 - 1 then none
  else if biased = 0 then some ⟨fraction, -1074, false⟩
  else some ⟨Nat.pow 2 52 + fraction, (biased : Int) - 1075, fraction == 0 && decide (1 < biased)⟩

def isNegative (x : Float) : Bool :=
  x.toBits.toNat / Nat.pow 2 63 == 1

def ofScaled (n : Nat) (exponent : Int) : Float :=
  if 0 ≤ exponent then Float.ofNat (n * Nat.pow 2 exponent.toNat)
  else Float.ofScientific (n * Nat.pow 5 exponent.natAbs) true exponent.natAbs

end Setwise.Decimal
