import Setwise.Relational.Scalar
import Setwise.Sql.Dialect

/-!
The phrases of SQL that stand for expressions.

A phrase is an expression with its parentheses. `Dialect.value` gives the phrase of an expression that
stands where a value is expected, and `Dialect.condition` the phrase of one that stands where a condition
is expected; SQL Server needs a conversion where an expression is of the other sort.
-/

set_option autoImplicit false

namespace Setwise.Sql

open Relational (Scalar)

inductive Phrase where
  | column (source name : String)
  | literal (value : Value)
  | placeholder (name : String)
  | excluded (column : String)
  | binary (left : Phrase) (op : Operator) (right : Phrase)
  | coalesce (left right : Phrase)
  | paren (inner : Phrase)
  /-- A negation, whose operand always stands in parentheses. -/
  | not (operand : Phrase)
  | isNull (operand : Phrase)
  | isNotNull (operand : Phrase)
  | case (test ifTrue ifFalse : Phrase)
  deriving DecidableEq

namespace Phrase

def text (d : Dialect) : Phrase → String
  | column source name => d.quote source ++ "." ++ d.quote name
  | literal v => d.literal v
  | placeholder name => "@" ++ name
  | excluded name => d.excluded name
  | binary l op r => l.text d ++ " " ++ Dialect.operator op ++ " " ++ r.text d
  | coalesce l r => "COALESCE(" ++ l.text d ++ ", " ++ r.text d ++ ")"
  | paren p => "(" ++ p.text d ++ ")"
  | not p => "NOT (" ++ p.text d ++ ")"
  | isNull p => p.text d ++ " IS NULL"
  | isNotNull p => p.text d ++ " IS NOT NULL"
  | case test a b =>
    "CASE WHEN " ++ test.text d ++ " THEN " ++ a.text d ++ " ELSE " ++ b.text d ++ " END"

def placeholders : Phrase → List String
  | column .. | literal _ | excluded _ => []
  | placeholder name => [name]
  | binary l _ r | coalesce l r => l.placeholders ++ r.placeholders
  | paren p | not p | isNull p | isNotNull p => p.placeholders
  | case test a b => test.placeholders ++ a.placeholders ++ b.placeholders

end Phrase

def isCondition : Scalar → Bool
  | .binary _ op _ => !op.isArithmetic && op != .coalesce
  | .not _ | .isNull _ | .isNotNull _ => true
  | _ => false

namespace Dialect

def asValue (d : Dialect) (e : Scalar) (p : Phrase) : Phrase :=
  match d with
  | sqlite => p
  | sqlServer => if isCondition e then .case p (.literal (.bool true)) (.literal (.bool false)) else p

def asCondition (d : Dialect) (e : Scalar) (p : Phrase) : Phrase :=
  match d with
  | sqlite => p
  | sqlServer => if isCondition e then p else .binary p .equal (.literal (.bool true))

def asOperand (d : Dialect) (e : Scalar) (p : Phrase) : Phrase :=
  let v := d.asValue e p
  match e with
  | .binary _ op _ => if op = .coalesce then v else .paren v
  | .isNull _ | .isNotNull _ => .paren v
  | _ => v

def asConnectiveOperand (d : Dialect) (connective : Operator) (e : Scalar) (p : Phrase) : Phrase :=
  let c := d.asCondition e p
  match e with
  | .binary _ op _ => if (op = .and ∨ op = .or) ∧ op ≠ connective then .paren c else c
  | _ => c

def phrase (d : Dialect) : Scalar → Phrase
  | .column source name => .column source name
  | .constant v => .literal v
  | .parameter name => .placeholder name
  | .binary l op r =>
    if op = .coalesce then .coalesce (d.asValue l (d.phrase l)) (d.asValue r (d.phrase r))
    else if op = .and ∨ op = .or then
      .binary (d.asConnectiveOperand op l (d.phrase l)) op (d.asConnectiveOperand op r (d.phrase r))
    else .binary (d.asOperand l (d.phrase l)) op (d.asOperand r (d.phrase r))
  | .not e => .not (d.asCondition e (d.phrase e))
  | .isNull e => .isNull (d.asOperand e (d.phrase e))
  | .isNotNull e => .isNotNull (d.asOperand e (d.phrase e))
  | .case test a b =>
    .case (d.asCondition test (d.phrase test)) (d.asValue a (d.phrase a)) (d.asValue b (d.phrase b))
  | .excluded column => .excluded column

def value (d : Dialect) (e : Scalar) : Phrase :=
  d.asValue e (d.phrase e)

def condition (d : Dialect) (e : Scalar) : Phrase :=
  d.asCondition e (d.phrase e)

end Dialect

end Setwise.Sql
