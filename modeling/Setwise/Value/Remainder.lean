import Setwise.Decimal.Magnitude

/-!
The remainder of two real numbers.
-/

set_option autoImplicit false

namespace Setwise.Value

/-- What is left of `x` after taking away a whole multiple of `y`. It is exact, smaller than `y` in
magnitude, and has the sign of `x`. -/
def remainder (x y : Float) : Float :=
  match Decimal.Magnitude.ofFloat? x, Decimal.Magnitude.ofFloat? y with
  | some a, some b =>
    if b.significand = 0 then Float.ofBits 0x7FF8000000000000
    else
      let unit := min a.exponent b.exponent
      let rest := a.significand * Nat.pow 2 (a.exponent - unit).toNat
        % (b.significand * Nat.pow 2 (b.exponent - unit).toNat)
      let size := Decimal.ofScaled rest unit
      if Decimal.isNegative x then -size else size
  | some _, none => if y.isNaN then y else x
  | none, _ => Float.ofBits 0x7FF8000000000000

end Setwise.Value
