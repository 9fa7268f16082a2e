import Setwise.Relational.Select

/-!
Statements and plans.

A plan is the block that answers a query or carries out a mutation, together with the collections that
feed it and what takes its place when one of them turns out to be empty.
-/

set_option autoImplicit false

namespace Setwise.Relational

inductive Statement where
  /-- Delete the rows that satisfy the predicate in some combination with the joined sources. -/
  | delete (table : StoredTable) (predicate : Option Scalar) (joins : List (Join Select))
  | update (table : StoredTable) (set : List Projection) (predicate : Option Scalar)
      (joins : List (Join Select))
  /-- Insert the rows of a select into the columns that its projection names. -/
  | insertInto (table : String) (schema : Option String) (select : Select)
  /-- Insert the rows of a source, or a single row. A row that meets a stored one on the conflict
  columns updates it, or is left out when there is no update. -/
  | upsert (table : StoredTable) (source : Option Select) (insert : List Projection)
      (update : Option (List Projection)) (constraint : String) (conflictColumns : List String)
  | merge (target : StoredTable) (source : Source) (on : Scalar) (matched : Option (List Projection))
      (insert : Option (List Projection)) (deleteUnmatched : Bool)
  /-- Delete every row. -/
  | truncate (table : StoredTable)
  /-- Write nothing. -/
  | noop

inductive Block where
  | select (query : Select)
  /-- A write, whose result is the number of affected rows. -/
  | affected (statement : Statement)

inductive Fallback where
  | skip
  | truncate (table : StoredTable)
  deriving DecidableEq

structure Feed where
  parameter : String
  whenEmpty : Fallback
  deriving DecidableEq

structure Plan where
  root : Block
  feeds : List Feed := []

end Setwise.Relational
