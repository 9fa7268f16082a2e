/-!
The binary operators that client expressions and relational expressions share.
-/

set_option autoImplicit false

namespace Setwise

inductive Operator where
  | add | subtract | multiply | divide | modulo
  | equal | notEqual | less | lessEqual | greater | greaterEqual
  | and | or | coalesce
  deriving DecidableEq

namespace Operator

def all : List Operator :=
  [add, subtract, multiply, divide, modulo, equal, notEqual, less, lessEqual, greater, greaterEqual,
    and, or, coalesce]

def symbol : Operator → String
  | add => "+"
  | subtract => "-"
  | multiply => "*"
  | divide => "/"
  | modulo => "%"
  | equal => "=="
  | notEqual => "!="
  | less => "<"
  | lessEqual => "<="
  | greater => ">"
  | greaterEqual => ">="
  | and => "&&"
  | or => "||"
  | coalesce => "??"

def ofSymbol? (s : String) : Option Operator :=
  all.find? fun op => op.symbol == s

def isArithmetic : Operator → Bool
  | add | subtract | multiply | divide | modulo => true
  | _ => false

def isComparison : Operator → Bool
  | equal | notEqual | less | lessEqual | greater | greaterEqual => true
  | _ => false

end Operator

end Setwise
