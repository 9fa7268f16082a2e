/-!
Reading a real number from text.

The accepted texts are an optional sign followed by `inf`, `infinity` or `nan` in any case, or by
digits with at most one point among them and an optional decimal exponent. The number read is the real
nearest to the decimal.
-/

set_option autoImplicit false

namespace Setwise.Decimal

def appendDigits (start : Nat) (digits : List Char) : Nat :=
  digits.foldl (fun n c => 10 * n + (c.toNat - '0'.toNat)) start

def splitSign : List Char → Bool × List Char
  | '-' :: rest => (true, rest)
  | '+' :: rest => (false, rest)
  | rest => (false, rest)

def readExponent? : List Char → Option Int
  | [] => some 0
  | mark :: rest =>
    if mark = 'e' ∨ mark = 'E' then
      let (negative, digits) := splitSign rest
      if digits.isEmpty || !digits.all Char.isDigit then none
      else
        let n : Int := appendDigits 0 digits
        some (if negative then -n else n)
    else none

/-- The real nearest to `digits * 10 ^ exponent`. Exponents that leave no digit in range are cut
short, so that no huge power is ever formed. -/
def nearest (digits : Nat) (exponent : Int) : Float :=
  let width : Int := (Nat.toDigits 10 digits).length
  if digits = 0 ∨ exponent + width < -400 then 0.0
  -- beyond the largest real by far
  else if 400 < exponent + width then Float.ofBits 0x7FF0000000000000
  else Float.ofScientific digits (decide (exponent < 0)) exponent.natAbs

def readUnsigned? (text : List Char) : Option Float :=
  let lower := String.ofList (text.map Char.toLower)
  if lower = "inf" ∨ lower = "infinity" then some (Float.ofBits 0x7FF0000000000000)
  else if lower = "nan" then some (Float.ofBits 0x7FF8000000000000)
  else
    let whole := text.takeWhile Char.isDigit
    let rest := text.dropWhile Char.isDigit
    let (fraction, rest) := match rest with
      | '.' :: tail => (tail.takeWhile Char.isDigit, tail.dropWhile Char.isDigit)
      | tail => ([], tail)
    if whole.isEmpty && fraction.isEmpty then none
    else do
      let exponent ← readExponent? rest
      return nearest (appendDigits (appendDigits 0 whole) fraction) (exponent - fraction.length)

def read? (text : String) : Option Float :=
  let (negative, rest) := splitSign text.toList
  (readUnsigned? rest).map fun x => if negative then -x else x

end Setwise.Decimal
