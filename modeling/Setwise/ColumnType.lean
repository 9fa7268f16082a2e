import Setwise.Text.LowerCase
import Setwise.Value.Basic

/-!
The types of columns, their names, and the values that a column of a type stores.
-/

set_option autoImplicit false

namespace Setwise

inductive ColumnType where
  | integer | text | blob | real | boolean
  deriving DecidableEq

namespace ColumnType

def name : ColumnType → String
  | integer => "integer"
  | text => "text"
  | blob => "blob"
  | real => "real"
  | boolean => "boolean"

structure UnknownName where
  name : String
  deriving DecidableEq

def UnknownName.message (e : UnknownName) : String :=
  "Unable to parse SqlType from type name: " ++ e.name ++ "."

def names : ColumnType → List String
  | integer => ["int", "integer", "bigint"]
  | text => ["text", "string", "varchar", "nvarchar"]
  | blob => ["blob", "varbinary"]
  | real => ["real", "float", "double"]
  | boolean => ["bool", "boolean", "bit"]

def ofName (s : String) : Except UnknownName ColumnType :=
  let lowered := Text.lower s
  match [integer, text, blob, real, boolean].find? fun t => t.names.contains lowered with
  | some t => .ok t
  | none => .error ⟨lowered⟩

end ColumnType

def Value.type? : Value → Option ColumnType
  | .int _ => some .integer
  | .text _ => some .text
  | .blob _ => some .blob
  | .real _ => some .real
  | .bool _ => some .boolean
  | .null => none

/-- The value as a column of the given type stores it: an integer widens to a real, a truth value
becomes zero or one in an integer column, and zero and one become truth values. -/
def Value.cast? (v : Value) (t : ColumnType) : Option Value :=
  match v, t with
  | .null, _ => some .null
  | .int i, .real => some (.real (Float.ofInt i))
  | .bool b, .integer => some (.int (if b then 1 else 0))
  | .int i, .boolean => if i = 0 ∨ i = 1 then some (.bool (i == 1)) else none
  | v, t => if v.type? = some t then some v else none

end Setwise
