import Setwise.Operator
import Setwise.Value.Comparison
import Setwise.Value.Remainder

/-!
Operators applied to values.

NULL makes the result of arithmetic and comparison NULL. Conjunction and disjunction know three truth
values, and the first value that is not NULL answers a coalescence. Integer arithmetic that leaves 64
bits is an error, and so is integer division by zero.
-/

set_option autoImplicit false

namespace Setwise.Value

inductive Error where
  | invalidOperands (left : Value) (op : Operator) (right : Value)
  | invalidNegation (operand : Value)
  | divisionByZero
  | overflow (left : Int) (op : Operator) (right : Int)
  deriving DecidableEq

def Error.message : Error → String
  | invalidOperands l op r =>
    "Invalid types in binary expression: " ++ l.display ++ " " ++ op.symbol ++ " " ++ r.display
  | invalidNegation v => "Invalid types in binary expression: NOT " ++ v.display ++ " "
  | divisionByZero => "Division by zero."
  | overflow i op j => "Integer overflow in " ++ toString i ++ " " ++ op.symbol ++ " " ++ toString j ++ "."

def truth? : Value → Option (Option Bool)
  | bool b => some (some b)
  | int i => some (some (i != 0))
  | null => some none
  | _ => none

def conjunction : Option Bool → Option Bool → Option Bool
  | some false, _ => some false
  | _, some false => some false
  | some true, some true => some true
  | _, _ => none

def disjunction : Option Bool → Option Bool → Option Bool
  | some true, _ => some true
  | _, some true => some true
  | some false, some false => some false
  | _, _ => none

def ofTruth : Option Bool → Value
  | some b => bool b
  | none => null

def holdsFor (op : Operator) (order : Ordering) : Bool :=
  match op with
  | .equal => order == .eq
  | .notEqual => order != .eq
  | .less => order == .lt
  | .lessEqual => order != .gt
  | .greater => order == .gt
  | _ => order != .lt

def intArithmetic (i : Int) (op : Operator) (j : Int) : Except Error Value :=
  if (op = .divide ∨ op = .modulo) ∧ j = 0 then .error .divisionByZero
  else
    let result := match op with
      | .add => some (i + j)
      | .subtract => some (i - j)
      | .multiply => some (i * j)
      | .divide => some (i.tdiv j)
      | _ => if i = minInt ∧ j = -1 then none else some (i.tmod j)
    match result.bind ofInt? with
    | some v => .ok v
    | none => .error (.overflow i op j)

def realArithmetic (x : Float) (op : Operator) (y : Float) : Value :=
  real <| match op with
    | .add => x + y
    | .subtract => x - y
    | .multiply => x * y
    | .divide => x / y
    | _ => remainder x y

def apply (l : Value) (op : Operator) (r : Value) : Except Error Value :=
  if op = .and ∨ op = .or then
    match l.truth?, r.truth? with
    | some a, some b => .ok (ofTruth (if op = .and then conjunction a b else disjunction a b))
    | _, _ => .error (.invalidOperands l op r)
  else if op = .coalesce then .ok (if l.isNull then r else l)
  else if l.isNull || r.isNull then .ok null
  else if op.isComparison then
    match compare? l r with
    | some order => .ok (bool (holdsFor op order))
    | none => .error (.invalidOperands l op r)
  else
    match l, r with
    | int i, int j => intArithmetic i op j
    | real x, real y => .ok (realArithmetic x op y)
    | int i, real y => .ok (realArithmetic (Float.ofInt i) op y)
    | real x, int j => .ok (realArithmetic x op (Float.ofInt j))
    | _, _ => .error (.invalidOperands l op r)

def negation (v : Value) : Except Error Value :=
  match v.truth? with
  | some t => .ok (ofTruth (t.map not))
  | none => .error (.invalidNegation v)

end Setwise.Value
