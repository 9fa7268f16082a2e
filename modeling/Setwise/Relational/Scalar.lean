import Setwise.Operator
import Setwise.Value.Basic

/-!
Expressions over the columns of tables, as the statements of a plan use them.
-/

set_option autoImplicit false

namespace Setwise.Relational

inductive Scalar where
  /-- A column of the source with the given label. -/
  | column (source name : String)
  | constant (value : Value)
  | parameter (name : String)
  | binary (left : Scalar) (op : Operator) (right : Scalar)
  | not (operand : Scalar)
  | isNull (operand : Scalar)
  | isNotNull (operand : Scalar)
  | case (test ifTrue ifFalse : Scalar)
  /-- What an upsert would have inserted into a column. -/
  | excluded (column : String)
  deriving DecidableEq

instance : Inhabited Scalar := ⟨.constant .null⟩

namespace Scalar

def sources : Scalar → List String
  | column source _ => [source]
  | constant _ | parameter _ | excluded _ => []
  | binary l _ r => l.sources ++ r.sources
  | not e | isNull e | isNotNull e => e.sources
  | case test a b => test.sources ++ a.sources ++ b.sources

def both : Option Scalar → Scalar → Scalar
  | some l, r => binary l .and r
  | none, r => r

end Scalar

structure Projection where
  name : String
  value : Scalar
  deriving DecidableEq

end Setwise.Relational
