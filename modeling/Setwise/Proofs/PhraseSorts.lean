import Setwise.Sql.Phrase

/-!
The two sorts of phrases.

SQL Server stores no truth values: a comparison is a condition, a column is a value, and neither may stand where the
other is expected. `Phrase.sort?` says of which sort a phrase is, if it keeps the two apart throughout. For SQL Server,
the phrase of every expression is of the sort that its position expects (`sort?_value`, `sort?_condition`).
-/

set_option autoImplicit false

namespace Setwise

open Relational (Scalar)

namespace Sql

inductive PhraseSort where
  | value | condition
  deriving DecidableEq

/-- The sort of the operands of an operator and the sort of what it makes of them. COALESCE does not stand between its
operands. -/
def operatorSorts : Operator → Option (PhraseSort × PhraseSort)
  | .add | .subtract | .multiply | .divide | .modulo => some (.value, .value)
  | .equal | .notEqual | .less | .lessEqual | .greater | .greaterEqual => some (.value, .condition)
  | .and | .or => some (.condition, .condition)
  | .coalesce => none

/-- The sort of a phrase; none if a value stands in it where a condition is expected, or a condition where a value
is. -/
def Phrase.sort? : Phrase → Option PhraseSort
  | column .. | literal _ | placeholder _ | excluded _ => some .value
  | binary l op r =>
    match operatorSorts op with
    | some (operand, result) => if l.sort? = some operand ∧ r.sort? = some operand then some result else none
    | none => none
  | coalesce l r => if l.sort? = some .value ∧ r.sort? = some .value then some .value else none
  | paren p => p.sort?
  | not p => if p.sort? = some .condition then some .condition else none
  | isNull p | isNotNull p => if p.sort? = some .value then some .condition else none
  | case test a b =>
    if test.sort? = some .condition ∧ a.sort? = some .value ∧ b.sort? = some .value then some .value else none

def sortOf (e : Scalar) : PhraseSort :=
  if isCondition e then .condition else .value

theorem operatorSorts_arithmetic {op : Operator} (arithmetic : op.isArithmetic = true) :
    operatorSorts op = some (.value, .value) := by
  cases op <;> simp_all [operatorSorts, Operator.isArithmetic]

theorem operatorSorts_comparison {op : Operator} (compares : op.isArithmetic = false) (coalesce : op ≠ .coalesce)
    (connective : ¬ (op = .and ∨ op = .or)) : operatorSorts op = some (.value, .condition) := by
  cases op <;> simp_all [operatorSorts, Operator.isArithmetic]

section

variable {e : Scalar} {p : Phrase}

theorem sort?_asValue (h : p.sort? = some (sortOf e)) : (Dialect.sqlServer.asValue e p).sort? = some .value := by
  unfold sortOf at h
  unfold Dialect.asValue
  split at h
  next condition => simp [condition, Phrase.sort?, h]
  next value => simp [value, h]

theorem sort?_asCondition (h : p.sort? = some (sortOf e)) :
    (Dialect.sqlServer.asCondition e p).sort? = some .condition := by
  unfold sortOf at h
  unfold Dialect.asCondition
  split at h
  next condition => simp [condition, h]
  next value => simp [value, Phrase.sort?, operatorSorts, h]

theorem sort?_asOperand (h : p.sort? = some (sortOf e)) : (Dialect.sqlServer.asOperand e p).sort? = some .value := by
  have value := sort?_asValue h
  unfold Dialect.asOperand
  dsimp only
  split
  · split <;> exact value
  all_goals exact value

theorem sort?_asConnectiveOperand (op : Operator) (h : p.sort? = some (sortOf e)) :
    (Dialect.sqlServer.asConnectiveOperand op e p).sort? = some .condition := by
  have condition := sort?_asCondition h
  unfold Dialect.asConnectiveOperand
  dsimp only
  split
  · split <;> exact condition
  · exact condition

end

theorem sort?_phrase (e : Scalar) : (Dialect.sqlServer.phrase e).sort? = some (sortOf e) := by
  induction e with
  | column | constant | parameter | excluded => rfl
  | binary l op r ihl ihr =>
    unfold Dialect.phrase
    split
    next coalesce =>
      subst coalesce
      simp [Phrase.sort?, sort?_asValue ihl, sort?_asValue ihr, sortOf, isCondition]
    next coalesce =>
      split
      -- connectives join conditions, all other operators values
      next connective =>
        have sorts : operatorSorts op = some (.condition, .condition) := by
          rcases connective with rfl | rfl <;> rfl
        have own : sortOf (.binary l op r) = .condition := by
          rcases connective with rfl | rfl <;> rfl
        simp [Phrase.sort?, sorts, sort?_asConnectiveOperand op ihl, sort?_asConnectiveOperand op ihr, own]
      next connective =>
        have operands := And.intro (sort?_asOperand ihl) (sort?_asOperand ihr)
        cases arithmetic : op.isArithmetic with
        | true =>
          simp [Phrase.sort?, operatorSorts_arithmetic arithmetic, operands, sortOf, isCondition, arithmetic]
        | false =>
          simp [Phrase.sort?, operatorSorts_comparison arithmetic coalesce connective, operands, sortOf, isCondition,
            arithmetic, coalesce]
  | not e ih => simp [Dialect.phrase, Phrase.sort?, sort?_asCondition ih, sortOf, isCondition]
  | isNull e ih | isNotNull e ih => simp [Dialect.phrase, Phrase.sort?, sort?_asOperand ih, sortOf, isCondition]
  | case test a b iht iha ihb =>
    simp [Dialect.phrase, Phrase.sort?, sort?_asCondition iht, sort?_asValue iha, sort?_asValue ihb, sortOf,
      isCondition]

/-- Where a value is expected, a value is written. -/
theorem sort?_value (e : Scalar) : (Dialect.sqlServer.value e).sort? = some .value :=
  sort?_asValue (sort?_phrase e)

/-- Where a condition is expected, a condition is written. -/
theorem sort?_condition (e : Scalar) : (Dialect.sqlServer.condition e).sort? = some .condition :=
  sort?_asCondition (sort?_phrase e)

/-- SQLite takes a comparison for a value as it is. -/
example : (Dialect.sqlite.value (.binary (.column "x" "Id") .equal (.constant (.int 1)))).sort? = some .condition := by
  rfl

end Sql

end Setwise
