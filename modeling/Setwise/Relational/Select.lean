import Setwise.Relational.Scalar

/-!
Selects and the sources that they read.

Every source carries a label, under which expressions refer to its columns. The rows of a literal table
are either written out, or are the rows of a runtime parameter; how many those are is not known until
the parameter is bound.
-/

set_option autoImplicit false

namespace Setwise.Relational

structure StoredTable where
  name : String
  schema : Option String := none
  label : String
  deriving DecidableEq

inductive LiteralRows where
  | immediate (rows : List (List Scalar))
  /-- The rows of a parameter that is not bound yet. -/
  | pending (parameter : String)
  /-- The rows of a bound parameter, as many as `count`. -/
  | resolved (parameter : String) (count : Nat)
  deriving DecidableEq

structure LiteralTable where
  label : String
  columns : List String
  rows : LiteralRows
  deriving DecidableEq

def LiteralTable.cellName (parameter : String) (row column : Nat) : String :=
  parameter ++ "_" ++ toString row ++ "_" ++ toString column

inductive RowSource (S : Type) where
  | table (ref : StoredTable)
  | literal (rows : LiteralTable)
  | subquery (select : S) (label : String)

def RowSource.label {S : Type} : RowSource S → String
  | table ref => ref.label
  | literal rows => rows.label
  | subquery _ label => label

inductive JoinKind where
  | inner | leftOuter | cross
  deriving DecidableEq

structure Join (S : Type) where
  kind : JoinKind
  source : RowSource S
  on : Option Scalar

structure OrderItem where
  key : Scalar
  descending : Bool
  deriving DecidableEq

/-- A select. The clauses apply in the order of the fields, except that the projection comes after
ordering and paging where there is no union. -/
structure Select where
  source : RowSource Select
  joins : List (Join Select) := []
  predicate : Option Scalar := none
  groupBy : List Scalar := []
  having : Option Scalar := none
  projection : List Projection := []
  /-- The select whose rows are united with these, without repetitions. -/
  union : Option Select := none
  orderBy : List OrderItem := []
  limit : Option Scalar := none
  offset : Option Scalar := none

abbrev Source := RowSource Select

def Select.isBare (s : Select) : Bool :=
  s.joins.isEmpty && s.predicate.isNone && s.groupBy.isEmpty && s.having.isNone && s.projection.isEmpty
    && s.union.isNone && s.orderBy.isEmpty && s.limit.isNone && s.offset.isNone

def Select.isPaged (s : Select) : Bool :=
  s.limit.isSome || s.offset.isSome

end Setwise.Relational
