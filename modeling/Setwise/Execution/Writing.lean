import Setwise.Execution.Selection
import Setwise.Relational.Plan

/-!
Writes, and the running of blocks.

A statement first reads the database as it was, and then writes to its table row by row, except that an
upsert looks for conflicts among the rows that it has written already. When a row cannot be written, or
two rows agree on a key in the end, the table is put back.
-/

set_option autoImplicit false

namespace Setwise.Execution

open Relational

abbrev Write := ExceptT Error (StateM Table)

namespace Write

def ofResult {α : Type} : Except Error α → Write α
  | .ok a => pure a
  | .error e => throw e

def change (f : Table → Except Table.Error Table) : Write Unit := do
  let t ← get
  match f t with
  | .ok t => set t
  | .error e => throw (.row e)

def insertAll (columns : List String) : List Row → Write Unit
  | [] => pure ()
  | r :: rest => do
    change fun t => t.insert (columns.zip r)
    insertAll columns rest

def assignAll (columns : List String) : List (Nat × Row) → Write Unit
  | [] => pure ()
  | (i, r) :: rest => do
    change fun t => t.assign i (columns.zip r)
    assignAll columns rest

end Write

section

variable (db : Database) (env : Environment)

def firstFrame? (predicate : Option Scalar) : List Frame → Except Error (Option Frame)
  | [] => .ok none
  | f :: rest => do
    let keep ← holdsOption env f predicate
    if keep then return some f else firstFrame? predicate rest

/-- The rows of a table, from the given position on, that satisfy the predicate in some combination with
the joined sources, each with the first such frame. -/
def satisfyingFrom (rs : RowSet) (joins : List (Join Select)) (predicate : Option Scalar) (position : Nat) :
    List Row → Except Error (List (Nat × Frame))
  | [] => .ok []
  | r :: rest => do
    let (frames, _) ← joinAll db env joins [[rs.visible r]]
    -- a row that is joined with several others is found once
    let found ← firstFrame? env predicate frames
    let others ← satisfyingFrom rs joins predicate (position + 1) rest
    return match found with
      | some f => (position, f) :: others
      | none => others

/-- The rows of a stored table that satisfy the predicate in some combination with the joined sources,
each with the first such frame. -/
def satisfyingRows (table : StoredTable) (joins : List (Join Select)) (predicate : Option Scalar) :
    Except Error (List (Nat × Frame)) := do
  let t ← (db.get table.name).mapError .table
  satisfyingFrom db env (.ofTable t table.label) joins predicate 0 t.rows

def changesOf (set : List Projection) : List (Nat × Frame) → Except Error (List (Nat × Row))
  | [] => .ok []
  | (i, f) :: rest => do
    let values ← project env f set
    let rest ← changesOf set rest
    return (i, values) :: rest

def assignedColumns (ps : List Projection) : List String :=
  ps.map Projection.name

/-! ### Upserts -/

def incomingRows (source : Option Select) (inserted : List Projection) : Except Error (List Row) :=
  match source with
  | some s => do
    let frames ← selectFrames db env s
    projectAll env inserted frames
  | none => do
    let row ← project env [] inserted
    return [row]

abbrev ConflictColumn := Nat × Option Nat

def conflictPositions (t : Table) (columns : List String) :
    List String → Except Error (List ConflictColumn)
  | [] => .ok []
  | c :: rest => do
    let i ← (t.columnIndex c).mapError .row
    let rest ← conflictPositions t columns rest
    return (i, columns.findIdx? fun n => n == c) :: rest

def conflicts (positions : List ConflictColumn) (stored incoming : Row) : Bool :=
  positions.all fun (i, j?) =>
    match j?.bind fun j => incoming[j]?, stored[i]? with
    | some w, some v => v.equates w
    -- a conflict column that no value is given for conflicts with nothing
    | _, _ => false

/-- Write one incoming row of an upsert: insert it, or update the first stored row that it meets. The
result tells whether the table has been written to. -/
def upsertRow (label : String) (columns : List String) (updated : Option (List Projection))
    (positions : List ConflictColumn) (incoming : Row) : Write Bool := do
  let t ← get
  -- the table as it is now: rows that an earlier incoming row has written are met as well
  match t.rows.zipIdx.find? fun (r, _) => conflicts positions r incoming with
  | none => do
    Write.change fun t => t.insert (columns.zip incoming)
    return true
  | some (r, i) =>
    match updated with
    | none => return false
    | some set => do
      let frame := [(RowSet.ofTable t label).visible r]
      let values ← Write.ofResult (project { env with incoming := some (columns, incoming) } frame set)
      Write.change fun t => t.assign i ((assignedColumns set).zip values)
      return true

/-- Write the incoming rows of an upsert one after the other. The result is the number of rows that have
been written. -/
def upsertAll (label : String) (columns : List String) (updated : Option (List Projection))
    (positions : List ConflictColumn) : List Row → Write Nat
  | [] => pure 0
  | r :: rest => do
    let written ← upsertRow env label columns updated positions r
    let others ← upsertAll label columns updated positions rest
    return if written then others + 1 else others

/-! ### Merges -/

def partners (target source : RowSet) (on : Scalar) (row : Row) (position : Nat) :
    List Row → Except Error (List (Nat × Row))
  | [] => .ok []
  | r :: rest => do
    let found ← holds env [target.visible row, source.visible r] on
    let others ← partners target source on row (position + 1) rest
    return if found then (position, r) :: others else others

structure MergeChanges where
  updates : List (Nat × Row) := []
  deletes : List Nat := []
  matched : List Nat := []

def mergeChanges (target source : RowSet) (on : Scalar) (set : Option (List Projection))
    (deleteUnmatched : Bool) (position : Nat) : List Row → Except Error MergeChanges
  | [] => .ok {}
  | row :: rest => do
    let found ← partners env target source on row 0 source.rows
    let update ← match found, set with
      | [(_, r)], some set => do
        let values ← project env [target.visible row, source.visible r] set
        pure [(position, values)]
      -- several partners are refused only where the row would be updated
      | _ :: _ :: _, some _ => .error (.ambiguousMatch position)
      | _, _ => pure []
    let others ← mergeChanges target source on set deleteUnmatched (position + 1) rest
    return {
      updates := update ++ others.updates
      deletes := if found.isEmpty && deleteUnmatched then position :: others.deletes else others.deletes
      matched := found.map Prod.fst ++ others.matched }

def mergeInserts (source : RowSet) (matched : List Nat) (inserted : List Projection) (position : Nat) :
    List Row → Except Error (List Row)
  | [] => .ok []
  | r :: rest => do
    -- positions count the rows of the source, whether they are inserted or not
    if matched.contains position then mergeInserts source matched inserted (position + 1) rest
    else do
      let row ← project env [source.visible r] inserted
      let others ← mergeInserts source matched inserted (position + 1) rest
      return row :: others

def merge (target : StoredTable) (source : Source) (on : Scalar)
    (matched inserted : Option (List Projection)) (deleteUnmatched : Bool) : Write Nat := do
  let t ← get
  let targetRows := RowSet.ofTable t target.label
  let sourceRows ← Write.ofResult (sourceRows db env source)
  let changes ← Write.ofResult
    (mergeChanges env targetRows sourceRows on matched deleteUnmatched 0 targetRows.rows)
  -- everything is computed before anything is written
  let inserts ← Write.ofResult <| match inserted with
    | none => .ok []
    | some ps => mergeInserts env sourceRows changes.matched ps 0 sourceRows.rows
  Write.assignAll (assignedColumns (matched.getD [])) changes.updates
  modify fun t => t.remove changes.deletes
  Write.insertAll (assignedColumns (inserted.getD [])) inserts
  return changes.updates.length + changes.deletes.length + inserts.length

/-- Run a statement on its table, which starts as the database holds it. The result is the number of
affected rows. -/
def write (s : Statement) : Write Nat :=
  match s with
  | .delete table predicate joins => do
    let found ← Write.ofResult (satisfyingRows db env table joins predicate)
    modify fun t => t.remove (found.map Prod.fst)
    return found.length
  | .update table set predicate joins => do
    let found ← Write.ofResult (satisfyingRows db env table joins predicate)
    let changes ← Write.ofResult (changesOf env set found)
    Write.assignAll (assignedColumns set) changes
    return changes.length
  | .insertInto _ _ select => do
    let output ← Write.ofResult (selectRows db env select)
    Write.insertAll output.columns output.rows
    return output.rows.length
  | .upsert table source inserted updated _ conflictColumns => do
    let incoming ← Write.ofResult (incomingRows db env source inserted)
    let columns := assignedColumns inserted
    let t ← get
    let positions ← Write.ofResult (conflictPositions t columns conflictColumns)
    upsertAll env table.label columns updated positions incoming
  | .merge target source on matched inserted deleteUnmatched =>
    merge db env target source on matched inserted deleteUnmatched
  -- the counter of the identity column stays
  | .truncate _ => do
    let t ← get
    set { t with rows := [] }
    return t.rows.length
  | .noop => return 0

end

def targetTable? : Statement → Option String
  | .delete table .. | .update table .. | .upsert table .. | .merge table .. | .truncate table =>
    some table.name
  | .insertInto table .. => some table
  | .noop => none

def writeChecked (db : Database) (ps : Parameters) (s : Statement) : Write Nat := do
  let n ← write db { parameters := ps } s
  let t ← get
  match t.checkUnique with
  | .ok () => return n
  | .error e => throw (.row e)

def runWrite (db : Database) (s : Statement) (ps : Parameters) : Except Error Nat × Database :=
  match targetTable? s with
  | none => (.ok 0, db)
  | some name =>
    match db.get name with
    | .error e => (.error (.table e), db)
    | .ok before =>
      let (result, after) := (writeChecked db ps s).run before
      match result with
      | .ok n => (.ok n, db.put after)
      -- the rows written so far are taken back with the table
      | .error e => (.error e, (db.put after).put before)

inductive Outcome where
  | rows (output : Output)
  | affected (count : Nat)
  deriving DecidableEq

def Outcome.count : Outcome → Nat
  | rows output => output.rows.length
  | affected count => count

def run (db : Database) (b : Block) (ps : Parameters) : Except Error Outcome × Database :=
  match b with
  | .select s => ((selectRows db { parameters := ps } s).map .rows, db)
  | .affected s =>
    let (result, db) := runWrite db s ps
    (result.map .affected, db)

end Setwise.Execution
