import Setwise.Table.Row
import Setwise.Value.Comparison

/-!
Tables held in memory.

A table stores validated rows in the order of their insertion. An insert that leaves the identity
column out takes the next number of a counter, which stays above every number stored in that column by
appending. Appending refuses a row that repeats a key of a stored row; assignments defer that check to
`Table.checkUnique`. An operation that fails returns no table.
-/

set_option autoImplicit false

namespace Setwise

structure UniqueKey where
  name : String
  columns : List Nat
  deriving DecidableEq

structure Table where
  name : String
  columns : List Column
  /-- The column that an insert fills from `nextIdentity` when it leaves the column out. -/
  identity : Option Nat := none
  keys : List UniqueKey := []
  nextIdentity : Int := 1
  rows : List Row := []
  deriving DecidableEq

namespace Table

inductive Error where
  | invalidRow (table : String) (detail : RowError)
  | unknownColumn (table column : String)
  | keyViolation (table key : String) (values : List Value)
  | noSuchRow (table : String) (index : Nat)
  | identityExhausted (table : String)
  deriving DecidableEq

def Error.message : Error → String
  | invalidRow table detail => "Something went wrong storing a row of " ++ table ++ ": " ++ detail.message
  | unknownColumn table column => "Table " ++ table ++ " has no column " ++ column ++ "."
  | keyViolation table key values =>
    "Violation of unique key " ++ key ++ " on " ++ table ++ ": duplicate value ("
      ++ ", ".intercalate (values.map Value.display) ++ ")."
  | noSuchRow table index => "Table " ++ table ++ " has no row " ++ toString index ++ "."
  | identityExhausted table => "The identity column of " ++ table ++ " is exhausted."

def result (name : String) (names : List String) (rows : List Row) : Table where
  name := name
  columns := names.zipIdx.map fun (column, i) =>
    { name := column
      type := (rows.findSome? fun r => r[i]? >>= Value.type?).getD .integer
      nullable := true }
  rows := rows

def columnNames (t : Table) : List String :=
  t.columns.map Column.name

def columnIndex (t : Table) (name : String) : Except Error Nat :=
  match t.columns.findIdx? fun c => c.name == name with
  | some i => .ok i
  | none => .error (.unknownColumn t.name name)

def validate (t : Table) (row : Row) : Except Error Row :=
  match acceptRow t.columns row with
  | .ok stored => .ok stored
  | .error detail => .error (.invalidRow t.name detail)

def agreeOn (columns : List Nat) (a b : Row) : Bool :=
  columns.all fun c =>
    match a[c]?, b[c]? with
    | some v, some w => v.equates w
    | _, _ => false

def commonKey? (t : Table) (a b : Row) : Option UniqueKey :=
  -- a key without columns is violated by nothing
  t.keys.find? fun k => !k.columns.isEmpty && agreeOn k.columns a b

def violation (t : Table) (key : UniqueKey) (row : Row) : Error :=
  .keyViolation t.name key.name (key.columns.filterMap fun c => row[c]?)

def firstRepeat? (t : Table) : List Row → Option (UniqueKey × Row)
  | [] => none
  | a :: rest =>
    match rest.findSome? (t.commonKey? a) with
    | some key => some (key, a)
    | none => t.firstRepeat? rest

def checkUnique (t : Table) : Except Error Unit :=
  match t.firstRepeat? t.rows with
  | some (key, row) => .error (t.violation key row)
  | none => .ok ()

def identityAfter (t : Table) (row : Row) : Except Error Int :=
  match t.identity.bind fun c => row[c]? with
  | some (.int i) =>
    if i < Value.maxInt then .ok (max t.nextIdentity (i + 1)) else .error (.identityExhausted t.name)
  | _ => .ok t.nextIdentity

def append (t : Table) (row : Row) : Except Error Table := do
  let stored ← t.validate row
  match t.rows.findSome? fun r => t.commonKey? r stored with
  | some key => .error (t.violation key stored)
  | none =>
    -- a number that was given explicitly raises the counter too
    let next ← t.identityAfter stored
    return { t with rows := t.rows ++ [stored], nextIdentity := next }

def setNamed (t : Table) (row : Row) : List (String × Value) → Except Error Row
  | [] => .ok row
  | (name, v) :: rest => do
    let i ← t.columnIndex name
    t.setNamed (row.set i v) rest

def blankRow (t : Table) : Row :=
  let blank := List.replicate t.columns.length Value.null
  -- the next number stands in until an explicit one replaces it
  match t.identity with
  | some c => blank.set c (.int t.nextIdentity)
  | none => blank

def insert (t : Table) (values : List (String × Value)) : Except Error Table := do
  let row ← t.setNamed t.blankRow values
  t.append row

def assign (t : Table) (index : Nat) (values : List (String × Value)) : Except Error Table :=
  match t.rows[index]? with
  | none => .error (.noSuchRow t.name index)
  | some row => do
    let changed ← t.setNamed row values
    -- keys are checked at the end of the statement, and the counter stays
    let stored ← t.validate changed
    return { t with rows := t.rows.set index stored }

def remove (t : Table) (indices : List Nat) : Table :=
  { t with rows := (t.rows.zipIdx.filter fun (_, i) => !indices.contains i).map Prod.fst }

end Table

end Setwise
