import Setwise.Table.Basic

/-!
The printed form of a table: a title, the column names, and one line per row.
-/

set_option autoImplicit false

namespace Setwise.Table

def pad (cell : String) : String :=
  cell ++ String.ofList (List.replicate (15 - cell.length) ' ')

def line (cells : List String) : String :=
  "   | " ++ " | ".intercalate (cells.map pad) ++ " |"

def print (t : Table) (detailed : Bool) : String :=
  let heading := ["Full Dump of Table " ++ t.name, line t.columnNames]
  let types := if detailed then [line (t.columns.map fun c => c.type.name)] else []
  let body := t.rows.map fun r => line (r.map Value.display)
  "\n".intercalate (heading ++ types ++ body)

end Setwise.Table
