import Setwise.Relational.Plan
import Setwise.Sql.Select

/-!
Statements as fragments of a command.

SQLite writes an update that reads other tables with the sources behind FROM and their conditions in
the predicate, and an upsert as an insert with a conflict clause. SQL Server writes upserts and merges
as MERGE.
-/

set_option autoImplicit false

namespace Setwise.Sql

open Relational

namespace Writer

variable (d : Dialect) (ps : Parameters)

def assignments (label : Option String) : List Projection → Writer (List Fragment)
  | [] => pure []
  | p :: rest => do
    let f ← value d ps p.value
    let column := match label with
      | some l => .identifier l ++ .word "." ++ .identifier p.name
      | none => Fragment.identifier p.name
    let rest ← assignments label rest
    return (column ++ .word " = " ++ f) :: rest

def nameList (list : List Projection) : Fragment :=
  .list (list.map fun p => .identifier p.name)

def excludedColumn (name : String) : Fragment :=
  [.value (.excluded name)]

def insertInto (table : String) (schema : Option String) (rows : Select) : Writer Fragment := do
  let f ← select d ps rows false
  let target := Fragment.table { name := table, schema, label := "" }
  return .lines [.word "INSERT INTO " ++ target ++ .word " " ++ .paren (nameList rows.projection), f]

def deleteAll (t : StoredTable) : Fragment :=
  .word "DELETE FROM " ++ .table t

/-- The sources of an update in SQLite, and the conjunction of their conditions so far. Outer joins
have no such form. -/
def updateSources : List (Join Select) → (condition : Option Scalar) →
    Writer (List Fragment × Option Scalar)
  | [], condition => pure ([], condition)
  | j :: rest, condition => do
    if j.kind = .leftOuter then throw (.unsupported .sqlite "LEFT JOIN in UPDATE")
    let f ← source .sqlite ps j.source
    let condition := match j.on with
      | some on => some (Scalar.both condition on)
      | none => condition
    let (rest, condition) ← updateSources rest condition
    return (f :: rest, condition)

/-- The source of an upsert in SQLite. Without a predicate the conflict clause would be read as the
condition of a join. -/
def conflictSource (rows : Select) (inserted : List Projection) : Select :=
  { rows with
    projection := inserted
    predicate := some (rows.predicate.getD (.constant (.bool true))) }

def sqliteStatement : Statement → Writer Fragment
  | .delete table predicate [] => do
    let filter ← conditionLine .sqlite ps "WHERE " predicate
    return .lines ((.word "DELETE FROM " ++ (Fragment.table table).labelled table.label) :: filter)
  | .delete table predicate joined => do
    let joined ← joins .sqlite ps joined
    let filter ← conditionLine .sqlite ps "WHERE " predicate
    return .lines ([.word "DELETE FROM " ++ .table table, .word "WHERE rowid IN (",
      .word "SELECT " ++ .identifier table.label ++ .word ".rowid",
      .word "FROM " ++ (Fragment.table table).labelled table.label] ++ joined ++ filter ++ [.word ")"])
  | .update table set predicate joined => do
    let set ← assignments .sqlite ps none set
    let (sources, condition) ← updateSources ps joined none
    let condition := match predicate with
      | some p => some (Scalar.both condition p)
      | none => condition
    let filter ← conditionLine .sqlite ps "WHERE " condition
    let from' := if sources.isEmpty then [] else [.word "FROM " ++ Fragment.list sources]
    return .lines ([.word "UPDATE " ++ (Fragment.table table).labelled table.label,
      .word "SET " ++ .list set] ++ from' ++ filter)
  | .insertInto table schema rows => insertInto .sqlite ps table schema rows
  | .upsert table rows inserted updated _ conflictColumns => do
    let rows ← match rows with
      | some rows => select .sqlite ps (conflictSource rows inserted) false
      | none => do
        let values ← valueList .sqlite ps (inserted.map Projection.value)
        pure (.word "VALUES " ++ .paren (.list values))
    let conflict := .word "ON CONFLICT " ++ .paren (.list (conflictColumns.map .identifier))
    let action ← match updated with
      | some updated => do
        let set ← assignments .sqlite ps none updated
        pure (.word " DO UPDATE SET " ++ Fragment.list set)
      | none => pure (.word " DO NOTHING")
    return .lines [.word "INSERT INTO " ++ (Fragment.table table).labelled table.label ++ .word " "
      ++ .paren (nameList inserted), rows, conflict ++ action]
  | .merge .. => throw (.unsupported .sqlite "MERGE")
  | .truncate table => return deleteAll table
  | .noop => return .word "SELECT 0"

def matchedLine (label : String) : Option (List Projection) → Writer (List Fragment)
  | none => pure []
  | some set => do
    let set ← assignments .sqlServer ps (some label) set
    return [.word "WHEN MATCHED THEN UPDATE SET " ++ .list set]

def insertLine : Option (List Projection) → Writer (List Fragment)
  | none => pure []
  | some list => do
    let values ← valueList .sqlServer ps (list.map Projection.value)
    return [.word "WHEN NOT MATCHED BY TARGET THEN INSERT " ++ .paren (nameList list)
      ++ .word " VALUES " ++ .paren (.list values)]

def sqlServerStatement : Statement → Writer Fragment
  | .delete table predicate joined => do
    let joined ← joins .sqlServer ps joined
    let filter ← conditionLine .sqlServer ps "WHERE " predicate
    return .lines ([.word "DELETE " ++ .identifier table.label,
      .word "FROM " ++ (Fragment.table table).labelled table.label] ++ joined ++ filter)
  | .update table set predicate joined => do
    let set ← assignments .sqlServer ps (some table.label) set
    let joined ← joins .sqlServer ps joined
    let filter ← conditionLine .sqlServer ps "WHERE " predicate
    return .lines ([.word "UPDATE " ++ .identifier table.label, .word "SET " ++ .list set,
      .word "FROM " ++ (Fragment.table table).labelled table.label] ++ joined ++ filter)
  | .insertInto table schema rows => insertInto .sqlServer ps table schema rows
  | .upsert table rows inserted updated _ conflictColumns => do
    let rows ← match rows with
      | some rows => do
        let f ← select .sqlServer ps { rows with projection := inserted } true
        pure (.word "(\n" ++ f ++ .word "\n)")
      | none => do
        let f ← projection .sqlServer ps inserted
        pure (.paren (.word "SELECT " ++ f))
    let on := conflictColumns.map fun c =>
      .identifier table.label ++ .word "." ++ .identifier c ++ .word " = " ++ excludedColumn c
    let matched ← matchedLine ps table.label updated
    return .lines ([.word "MERGE INTO " ++ (Fragment.table table).labelled table.label,
      .word "USING " ++ Fragment.labelled rows "excluded",
      .word "ON " ++ .separated " AND " on] ++ matched
      ++ [.word "WHEN NOT MATCHED THEN INSERT " ++ .paren (nameList inserted) ++ .word " VALUES "
        ++ .paren (.list (inserted.map fun p => excludedColumn p.name)) ++ .word ";"])
  | .merge target from' on matched inserted deleteUnmatched => do
    let from' ← source .sqlServer ps from'
    let on ← condition .sqlServer ps on
    let matched ← matchedLine ps target.label matched
    let inserted ← insertLine ps inserted
    let deleted := if deleteUnmatched then [.word "WHEN NOT MATCHED BY SOURCE THEN DELETE"] else []
    return .lines ([.word "MERGE INTO " ++ (Fragment.table target).labelled target.label,
      .word "USING " ++ from', .word "ON " ++ on] ++ matched ++ inserted ++ deleted) ++ .word ";"
  | .truncate table => return deleteAll table
  | .noop => return .word "SELECT 0"

def block : Block → Writer Fragment
  | .select s => select d ps s false
  | .affected s =>
    match d with
    | .sqlite => sqliteStatement ps s
    | .sqlServer => sqlServerStatement ps s

end Writer

/-- The text of one command, and the parameters that it uses with their values, in the order of their
first use. -/
structure Command where
  sql : String
  parameters : List (String × Value)
  deriving DecidableEq

def Command.ofBlock (d : Dialect) (b : Block) (ps : Parameters) (maxParameters : Option Nat) :
    Except Error Command := do
  let (f, used) ← Writer.block d ps b []
  let max := maxParameters.getD d.maxParameters
  if max < used.length then throw (.tooManyParameters used.length max)
  return ⟨f.text d, used⟩

end Setwise.Sql
