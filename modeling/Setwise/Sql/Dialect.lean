import Setwise.Capabilities
import Setwise.Operator
import Setwise.Value.Basic

/-!
The two dialects of SQL: their names, limits, quoting and literals.
-/

set_option autoImplicit false

namespace Setwise.Sql

/-- A dialect of SQL. SQLite has no MERGE, and takes any value as a condition. SQL Server tells
conditions from values. -/
inductive Dialect where
  | sqlite | sqlServer
  deriving DecidableEq

namespace Dialect

def name : Dialect → String
  | sqlite => "SQLite"
  | sqlServer => "SQL Server"

def maxParameters : Dialect → Nat
  | sqlite => 32766
  | sqlServer => 2100

def capabilities : Dialect → Capabilities
  | sqlite => ⟨sqlite.name, false⟩
  | sqlServer => ⟨sqlServer.name, true⟩

def quote : Dialect → String → String
  | sqlite, s => Text.quote '"' '"' s
  | sqlServer, s => Text.quote '[' ']' s

def hexDigits (b : UInt8) : List Char :=
  [Nat.digitChar (b.toNat / 16), Nat.digitChar (b.toNat % 16)].map Char.toUpper

def hex (bytes : List UInt8) : String :=
  String.ofList (bytes.flatMap hexDigits)

def literal (d : Dialect) (v : Value) : String :=
  match v, d with
  | .int i, _ => toString i
  | .real x, _ => Decimal.Layout.literal.render x
  | .null, _ => "NULL"
  | .text s, sqlite => Text.quote '\'' '\'' s
  | .text s, sqlServer => "N" ++ Text.quote '\'' '\'' s
  | .blob bytes, sqlite => "X'" ++ hex bytes ++ "'"
  | .blob bytes, sqlServer => "0x" ++ hex bytes
  | .bool b, sqlite => if b then "TRUE" else "FALSE"
  | .bool b, sqlServer => if b then "CAST(1 AS bit)" else "CAST(0 AS bit)"

def excluded : Dialect → String → String
  | sqlite, column => "excluded." ++ sqlite.quote column
  | sqlServer, column => sqlServer.quote "excluded" ++ "." ++ sqlServer.quote column

def operator : Operator → String
  | .add => "+"
  | .subtract => "-"
  | .multiply => "*"
  | .divide => "/"
  | .modulo => "%"
  | .equal => "="
  | .notEqual => "<>"
  | .less => "<"
  | .lessEqual => "<="
  | .greater => ">"
  | .greaterEqual => ">="
  | .and => "AND"
  | .or => "OR"
  | .coalesce => "COALESCE"

end Dialect

end Setwise.Sql
