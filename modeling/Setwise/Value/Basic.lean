import Setwise.Decimal.Layout
import Setwise.Text.Quoted

/-!
The values that a column, a parameter or an expression can hold.

Equality of values is identity of what they hold: two reals are equal when they have the same sign and
digits, and the value that is no number equals itself. Whether values compare equal in a query is a
different question, answered by `Value.compare?`.
-/

set_option autoImplicit false

namespace Setwise

/-- A value that can be stored in a column or bound to a parameter. Integers are those of 64 bits. -/
inductive Value where
  | int (i : Int)
  | text (s : String)
  | blob (bytes : List UInt8)
  | real (x : Float)
  | bool (b : Bool)
  | null
  deriving DecidableEq

namespace Value

instance : Inhabited Value := ⟨null⟩

def isNull : Value → Bool
  | null => true
  | _ => false

def isTrue : Value → Bool
  | bool b => b
  | int i => i != 0
  | _ => false

def display : Value → String
  | int i => toString i
  | text s => Text.quote '\'' '\'' s
  | blob _ => "<BLOB>"
  | real x => Decimal.Layout.plain.render x
  | bool true => "TRUE"
  | bool false => "FALSE"
  | null => "NULL"

def minInt : Int := -Int.pow 2 63

def maxInt : Int := Int.pow 2 63 - 1

def ofInt? (i : Int) : Option Value :=
  if minInt ≤ i ∧ i ≤ maxInt then some (int i) else none

end Value

end Setwise
