import Setwise.Decimal.Shortest

/-!
How the shortest decimal of a real is laid out as text.

A `Layout` holds the two decisions on which this library's forms differ. `Layout.literal` is the form
of constants in commands and expressions; `Layout.plain` is the form of values in messages and tables.
-/

set_option autoImplicit false

namespace Setwise.Decimal

structure Layout where
  /-- Numbers whose leading digit stands at this power of ten are written without an exponent. -/
  positional : Int → Bool
  /-- An integral number keeps the suffix `.0`. -/
  pointZero : Bool

/-- Positional from `0.0001` up to and below `10 ^ 16`, and otherwise with an exponent. -/
def Layout.literal : Layout where
  positional e := decide (-4 ≤ e) && decide (e < 16)
  pointZero := true

def Layout.plain : Layout where
  positional _ := true
  pointZero := false

def Layout.digits (layout : Layout) (d : Scientific) : String :=
  let ds := Nat.toDigits 10 d.digits
  let lead := d.exponent + (ds.length : Int) - 1
  if layout.positional lead then
    if 0 ≤ d.exponent then
      String.ofList (ds ++ List.replicate d.exponent.toNat '0') ++ (if layout.pointZero then ".0" else "")
    else if 0 ≤ lead then
      String.ofList (ds.take (lead.toNat + 1)) ++ "." ++ String.ofList (ds.drop (lead.toNat + 1))
    else
      "0." ++ String.ofList (List.replicate (-lead - 1).toNat '0' ++ ds)
  else
    let fraction := ds.drop 1
    String.ofList (ds.take 1) ++ (if fraction.isEmpty then "" else "." ++ String.ofList fraction)
      ++ "e" ++ toString lead

/-- The text of a real: the fewest digits that identify it, behind a sign that a zero keeps and that
the one value that is no number does not have. -/
def Layout.render (layout : Layout) (x : Float) : String :=
  if x.isNaN then "NaN"
  else
    (if isNegative x then "-" else "") ++
      match Magnitude.ofFloat? x with
      | none => "inf"
      | some m => layout.digits m.shortest

end Setwise.Decimal
