import Setwise.ColumnType

/-!
Rows of values and their validation against the columns of a table.

A row is stored only as a whole: every value is cast to the type of its column, and the first value
that does not fit rejects the row.
-/

set_option autoImplicit false

namespace Setwise

structure Column where
  name : String
  type : ColumnType
  nullable : Bool
  deriving DecidableEq

abbrev Row := List Value

inductive RowError where
  | lengthMismatch
  | typeMismatch (column : String) (expected : ColumnType) (value : Value)
  | nullNotAllowed (column : String)
  deriving DecidableEq

def RowError.message : RowError → String
  | lengthMismatch => "Type array and value array length mismatch."
  | typeMismatch column expected value =>
    "Column " ++ column ++ " has type " ++ expected.name ++ "; cannot store " ++ value.display ++ "."
  | nullNotAllowed column => "Column " ++ column ++ " cannot be NULL."

def Column.accept (c : Column) (v : Value) : Except RowError Value :=
  if v.isNull && !c.nullable then .error (.nullNotAllowed c.name)
  else
    match v.cast? c.type with
    | some stored => .ok stored
    | none => .error (.typeMismatch c.name c.type v)

def acceptAll : List Column → Row → Except RowError Row
  | c :: cs, v :: vs => do
    let stored ← c.accept v
    let rest ← acceptAll cs vs
    return stored :: rest
  | _, _ => .ok []

def acceptRow (columns : List Column) (row : Row) : Except RowError Row :=
  if row.length = columns.length then acceptAll columns row else .error .lengthMismatch

end Setwise
