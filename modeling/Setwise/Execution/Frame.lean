import Setwise.Database
import Setwise.Parameters.Basic
import Setwise.Relational.Scalar
import Setwise.Value.Evaluation

/-!
Frames and the evaluation of expressions in them.

A frame holds one row of every source in scope, each under the label of its source. A label is looked up
from the first source on.
-/

set_option autoImplicit false

namespace Setwise.Execution

open Relational

inductive Error where
  | table (error : Database.Error)
  | row (error : Table.Error)
  | parameter (error : Parameters.Error)
  | evaluation (error : Value.Error)
  | unknownColumn (source column : String)
  /-- The row of the source is too short to have a value in the column. -/
  | missingValue (source column : String)
  | unbound (parameter : String)
  | ambiguousMatch (row : Nat)
  | invalidPaging (value : Value)
  deriving DecidableEq

def Error.message : Error → String
  | table e => e.message
  | row e => e.message
  | parameter e => e.message
  | evaluation e => e.message
  | unknownColumn source column => "No column " ++ column ++ " is visible under alias " ++ source ++ "."
  | missingValue source column => "The row under alias " ++ source ++ " has no value for " ++ column ++ "."
  | unbound name => "The rows of '" ++ name ++ "' were not bound before execution."
  | ambiguousMatch i =>
    "The MERGE statement attempted to update or delete the same row more than once: target row "
      ++ toString i ++ " matches several source rows."
  | invalidPaging v => "LIMIT and OFFSET must be non-negative integers; got " ++ v.display ++ "."

structure Visible where
  label : String
  columns : List String
  values : Row
  deriving DecidableEq

abbrev Frame := List Visible

structure RowSet where
  label : String
  columns : List String
  rows : List Row
  deriving DecidableEq

namespace RowSet

def visible (rs : RowSet) (r : Row) : Visible :=
  ⟨rs.label, rs.columns, r⟩

def absent (rs : RowSet) : Visible :=
  ⟨rs.label, rs.columns, List.replicate rs.columns.length .null⟩

def ofTable (t : Table) (label : String) : RowSet :=
  ⟨label, t.columnNames, t.rows⟩

end RowSet

/-- What expressions can read beside the frame: the parameters, and the row that an upsert tries to
insert. -/
structure Environment where
  parameters : Parameters
  incoming : Option (List String × Row) := none

def columnValue (source : String) (columns : List String) (values : Row) (name : String) :
    Except Error Value :=
  match columns.findIdx? fun c => c == name with
  | none => .error (.unknownColumn source name)
  | some i =>
    match values[i]? with
    | some v => .ok v
    | none => .error (.missingValue source name)

def eval (env : Environment) (frame : Frame) : Scalar → Except Error Value
  | .column source name =>
    match frame.find? fun b => b.label == source with
    | none => .error (.unknownColumn source name)
    | some b => columnValue source b.columns b.values name
  | .constant v => .ok v
  | .parameter name => (env.parameters.scalar name).mapError .parameter
  | .binary l op r => do
    let l ← eval env frame l
    let r ← eval env frame r
    (l.apply op r).mapError .evaluation
  | .not e => do
    let v ← eval env frame e
    v.negation.mapError .evaluation
  | .isNull e => do
    let v ← eval env frame e
    return .bool v.isNull
  | .isNotNull e => do
    let v ← eval env frame e
    return .bool (!v.isNull)
  | .case test a b => do
    let t ← eval env frame test
    -- only the branch that is taken is evaluated
    if t.isTrue then eval env frame a else eval env frame b
  | .excluded column =>
    match env.incoming with
    | none => .error (.unknownColumn "excluded" column)
    | some (columns, values) => columnValue "excluded" columns values column

def holds (env : Environment) (frame : Frame) (condition : Scalar) : Except Error Bool := do
  let v ← eval env frame condition
  -- an unknown condition holds as little as a false one
  return v.isTrue

def holdsOption (env : Environment) (frame : Frame) : Option Scalar → Except Error Bool
  | none => .ok true
  | some condition => holds env frame condition

def evalAll (env : Environment) (frame : Frame) : List Scalar → Except Error Row
  | [] => .ok []
  | e :: rest => do
    let v ← eval env frame e
    let rest ← evalAll env frame rest
    return v :: rest

def project (env : Environment) (frame : Frame) (ps : List Projection) : Except Error Row :=
  evalAll env frame (ps.map Projection.value)

end Setwise.Execution
