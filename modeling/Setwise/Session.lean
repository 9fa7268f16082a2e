import Setwise.Model.Storage
import Setwise.Operation

/-!
Sessions: one store, one planner, and one operation at a time.

An operation starts by taking hold of the store; while it holds it, no other operation starts. On a
database held in memory it then runs to its end. On a connection it reaches the connection with at most
one command, and ends when the connection answers or the operation is abandoned. A cancelled session
starts nothing more.
-/

set_option autoImplicit false

namespace Setwise

open Client

inductive Phase where
  /-- The store is held, but no operation is under way. -/
  | held
  /-- The block is about to run. An operation that can be abandoned looks for cancellation first. -/
  | ready (block : Relational.Block) (parameters : Parameters) (abandonable : Bool)
  /-- The connection has the command. -/
  | waiting (command : Sql.Command)

structure Session (Store : Type) where
  planner : Planner
  store : Store
  cancelled : Bool := false
  /-- The operation that holds the store. -/
  current : Option Phase := none

namespace Session

variable {Store : Type}

def planCount (s : Session Store) : Nat :=
  s.planner.plans.length

def cancel (s : Session Store) : Session Store :=
  { s with cancelled := true }

def hold (s : Session Store) : Session Store :=
  { s with current := some .held }

def release (s : Session Store) : Session Store :=
  { s with current := none }

/-- Start an operation: take hold of the store, plan and bind. `callerCancelled` tells whether the
caller has cancelled the operation beforehand. -/
def start (s : Session Store) (m : Mutation) (abandonable callerCancelled : Bool) :
    Except OperationError Unit × Session Store :=
  match s.current with
  | some _ => (.error .concurrent, s)
  | none =>
    if callerCancelled || s.cancelled then (.error .cancelled, s)
    else
      -- a plan that is made is kept even if binding fails
      let (prepared, planner) := s.planner.prepare m
      match prepared with
      | .error e => (.error e, { s with planner })
      | .ok (block, ps) => (.ok (), { s with planner, current := some (.ready block ps abandonable) })

/-! ### Databases held in memory -/

def inMemory (model : Model) (cachePlans : Bool) : Session Database where
  planner := { model, capabilities := .inMemory, cachePlans }
  store := model.database

def runCurrent (s : Session Database) : Except OperationError Nat × Session Database :=
  match s.current with
  | some (.ready block ps _) =>
    let (result, db) := Execution.run s.store block ps
    ((result.map Execution.Outcome.count).mapError .execution, { s.release with store := db })
  | _ => (.error .concurrent, s)

def execute (s : Session Database) (m : Mutation) (abandonable callerCancelled : Bool) :
    Except OperationError Nat × Session Database :=
  match s.start m abandonable callerCancelled with
  | (.error e, s) => (.error e, s)
  | (.ok (), s) => s.runCurrent

/-! ### Connections -/

structure Remote where
  dialect : Sql.Dialect
  maxParameters : Option Nat := none

def remote (model : Model) (store : Remote) (cachePlans : Bool) : Session Remote where
  planner := { model, capabilities := store.dialect.capabilities, cachePlans }
  store := store

inductive Reply where
  | done (result : Except OperationError Nat)
  | sent (command : Sql.Command)

def command? (store : Remote) (block : Relational.Block) (ps : Parameters) :
    Except Sql.Error (Option Sql.Command) :=
  match block with
  -- nothing is sent for a statement that does nothing
  | .affected .noop => .ok none
  | block => (Sql.Command.ofBlock store.dialect block ps store.maxParameters).map some

def reach (s : Session Remote) (callerCancelled : Bool) : Reply × Session Remote :=
  match s.current with
  | some (.ready block ps abandonable) =>
    -- the last moment at which an operation can be cancelled without a command
    if abandonable && (callerCancelled || s.cancelled) then (.done (.error .cancelled), s.release)
    else
      match command? s.store block ps with
      | .error e => (.done (.error (.rendering e)), s.release)
      | .ok none => (.done (.ok 0), s.release)
      | .ok (some c) => (.sent c, { s with current := some (.waiting c) })
  | _ => (.done (.error .concurrent), s)

def finish (s : Session Remote) (answer : Except String Nat) :
    Except OperationError Nat × Session Remote :=
  match s.current with
  | some (.waiting _) => (answer.mapError .connection, s.release)
  | _ => (.error .concurrent, s)

def abandon (s : Session Remote) : Except OperationError Nat × Session Remote :=
  (.error .cancelled, s.release)

end Session

end Setwise
