import Setwise.Value.Basic

/-!
The order of values.

Only values of related types compare: numbers with numbers, truth values with truth values and with
integers (as zero and one), text with text by code points, and byte strings bytewise. NULL compares
with nothing, itself included.
-/

set_option autoImplicit false

namespace Setwise.Value

def compareReals? (x y : Float) : Option Ordering :=
  if x < y then some .lt
  else if x == y then some .eq
  else if y < x then some .gt
  else none

def compareBytes : List UInt8 → List UInt8 → Ordering
  | [], [] => .eq
  | [], _ :: _ => .lt
  | _ :: _, [] => .gt
  | a :: as, b :: bs => (compare a.toNat b.toNat).then (compareBytes as bs)

def bit (b : Bool) : Int :=
  if b then 1 else 0

/-- The order of two values, where they have one. An integer beside a real is taken as the nearest
real. -/
def compare? : Value → Value → Option Ordering
  | int i, int j => some (compare i j)
  | real x, real y => compareReals? x y
  | int i, real y => compareReals? (Float.ofInt i) y
  | real x, int j => compareReals? x (Float.ofInt j)
  | text s, text t => some (compare s t)
  | blob a, blob b => some (compareBytes a b)
  | bool a, bool b => some (compare (bit a) (bit b))
  | bool a, int j => some (compare (bit a) j)
  | int i, bool b => some (compare i (bit b))
  | _, _ => none

def equates (v w : Value) : Bool :=
  compare? v w == some .eq

end Setwise.Value
