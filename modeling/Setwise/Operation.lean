import Setwise.Planner
import Setwise.Execution.Writing
import Setwise.Relational.Binding
import Setwise.Sql.Statement

/-!
Why an operation of a session fails, and the command of a mutation.
-/

set_option autoImplicit false

namespace Setwise

inductive OperationError where
  /-- Another operation holds the store. -/
  | concurrent
  | cancelled
  | planning (error : Planning.Error)
  | binding (error : Parameters.Error)
  | rendering (error : Sql.Error)
  | execution (error : Execution.Error)
  /-- The connection has failed. -/
  | connection (message : String)

def OperationError.message : OperationError → String
  | concurrent =>
    "A second operation was started on this session before a previous operation completed."
  | cancelled => "The operation was cancelled."
  | planning e => e.message
  | binding e => e.message
  | rendering e => e.message
  | execution e => e.message
  | connection message => message

def Planner.prepare (c : Planner) (m : Client.Mutation) :
    Except OperationError (Relational.Block × Parameters) × Planner :=
  let (result, c) := c.plan m
  let prepared := do
    let (plan, ps) ← result.mapError OperationError.planning
    let block ← (plan.bind ps).mapError OperationError.binding
    return (block, ps)
  (prepared, c)

def Sql.Command.ofMutation (model : Model) (d : Sql.Dialect) (m : Client.Mutation) :
    Except OperationError Sql.Command := do
  let planner : Planner := { model, capabilities := d.capabilities, cachePlans := false }
  let (block, ps) ← (planner.prepare m).1
  (Sql.Command.ofBlock d block ps none).mapError .rendering

end Setwise
