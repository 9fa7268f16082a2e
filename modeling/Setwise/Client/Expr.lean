import Setwise.Operator
import Setwise.Value.Basic

/-!
Client expressions, the bodies of lambdas.

An expression reads lambda parameters and their members, constants, values captured from the caller,
and runtime parameters, which stand for captured values once these have been lifted out. Objects are
built by a constructor call followed by member initialisers. Equality of expressions is decidable.
-/

set_option autoImplicit false

namespace Setwise.Client

inductive Binding (E : Type) where
  /-- The member is set to a value. -/
  | assign (member : String) (value : E)
  /-- Items are added to the collection that the member holds. -/
  | items (member : String) (values : List E)

inductive Expr where
  /-- A lambda parameter. -/
  | param (name : String)
  | member (of : Expr) (name : String)
  | constant (value : Value)
  /-- A value captured from the caller's scope. -/
  | captured (name : String) (value : Value)
  /-- A runtime parameter. -/
  | runtime (name : String)
  | binary (left : Expr) (op : Operator) (right : Expr)
  | not (operand : Expr)
  | conditional (test ifTrue ifFalse : Expr)
  /-- A new object; without a type name it is an anonymous record. -/
  | new (type : Option String) (args : List Expr) (bindings : List (Binding Expr))

instance : Inhabited Expr := ⟨.constant .null⟩

namespace Expr

def isNullConstant : Expr → Bool
  | constant v => v.isNull
  | _ => false

mutual

def decEq (a b : Expr) : Decidable (a = b) :=
  match a, b with
  | .param m, .param n =>
    if h : m = n then isTrue (by rw [h]) else isFalse (by simp [h])
  | .member a m, .member b n =>
    if h : m = n then
      match decEq a b with
      | isTrue k => isTrue (by rw [h, k])
      | isFalse k => isFalse (by simp [k])
    else isFalse (by simp [h])
  | .constant v, .constant w =>
    if h : v = w then isTrue (by rw [h]) else isFalse (by simp [h])
  | .captured m v, .captured n w =>
    if h : m = n ∧ v = w then isTrue (by rw [h.1, h.2]) else isFalse (by simpa using h)
  | .runtime m, .runtime n =>
    if h : m = n then isTrue (by rw [h]) else isFalse (by simp [h])
  | .binary a o b, .binary c p d =>
    if h : o = p then
      match decEq a c, decEq b d with
      | isTrue j, isTrue k => isTrue (by rw [h, j, k])
      | isFalse j, _ => isFalse (by simp [j])
      | _, isFalse k => isFalse (by simp [k])
    else isFalse (by simp [h])
  | .not a, .not b =>
    match decEq a b with
    | isTrue h => isTrue (by rw [h])
    | isFalse h => isFalse (by simp [h])
  | .conditional a b c, .conditional d e f =>
    match decEq a d, decEq b e, decEq c f with
    | isTrue h, isTrue j, isTrue k => isTrue (by rw [h, j, k])
    | isFalse h, _, _ => isFalse (by simp [h])
    | _, isFalse j, _ => isFalse (by simp [j])
    | _, _, isFalse k => isFalse (by simp [k])
  | .new t as bs, .new u cs ds =>
    if h : t = u then
      match decEqList as cs, decEqBindings bs ds with
      | isTrue j, isTrue k => isTrue (by rw [h, j, k])
      | isFalse j, _ => isFalse (by simp [j])
      | _, isFalse k => isFalse (by simp [k])
    else isFalse (by simp [h])
  | .param _, .member .. | .param _, .constant _ | .param _, .captured .. | .param _, .runtime _
  | .param _, .binary .. | .param _, .not _ | .param _, .conditional .. | .param _, .new ..
  | .member .., .param _ | .member .., .constant _ | .member .., .captured .. | .member .., .runtime _
  | .member .., .binary .. | .member .., .not _ | .member .., .conditional .. | .member .., .new ..
  | .constant _, .param _ | .constant _, .member .. | .constant _, .captured .. | .constant _, .runtime _
  | .constant _, .binary .. | .constant _, .not _ | .constant _, .conditional .. | .constant _, .new ..
  | .captured .., .param _ | .captured .., .member .. | .captured .., .constant _ | .captured .., .runtime _
  | .captured .., .binary .. | .captured .., .not _ | .captured .., .conditional .. | .captured .., .new ..
  | .runtime _, .param _ | .runtime _, .member .. | .runtime _, .constant _ | .runtime _, .captured ..
  | .runtime _, .binary .. | .runtime _, .not _ | .runtime _, .conditional .. | .runtime _, .new ..
  | .binary .., .param _ | .binary .., .member .. | .binary .., .constant _ | .binary .., .captured ..
  | .binary .., .runtime _ | .binary .., .not _ | .binary .., .conditional .. | .binary .., .new ..
  | .not _, .param _ | .not _, .member .. | .not _, .constant _ | .not _, .captured ..
  | .not _, .runtime _ | .not _, .binary .. | .not _, .conditional .. | .not _, .new ..
  | .conditional .., .param _ | .conditional .., .member .. | .conditional .., .constant _
  | .conditional .., .captured .. | .conditional .., .runtime _ | .conditional .., .binary ..
  | .conditional .., .not _ | .conditional .., .new ..
  | .new .., .param _ | .new .., .member .. | .new .., .constant _ | .new .., .captured ..
  | .new .., .runtime _ | .new .., .binary .. | .new .., .not _ | .new .., .conditional .. =>
    isFalse nofun

def decEqList (as bs : List Expr) : Decidable (as = bs) :=
  match as, bs with
  | [], [] => isTrue rfl
  | a :: as, b :: bs =>
    match decEq a b, decEqList as bs with
    | isTrue j, isTrue k => isTrue (by rw [j, k])
    | isFalse j, _ => isFalse (by simp [j])
    | _, isFalse k => isFalse (by simp [k])
  | [], _ :: _ | _ :: _, [] => isFalse nofun

def decEqBindings (as bs : List (Binding Expr)) : Decidable (as = bs) :=
  match as, bs with
  | [], [] => isTrue rfl
  | a :: as, b :: bs =>
    match decEqBinding a b, decEqBindings as bs with
    | isTrue j, isTrue k => isTrue (by rw [j, k])
    | isFalse j, _ => isFalse (by simp [j])
    | _, isFalse k => isFalse (by simp [k])
  | [], _ :: _ | _ :: _, [] => isFalse nofun

def decEqBinding (a b : Binding Expr) : Decidable (a = b) :=
  match a, b with
  | .assign m v, .assign n w =>
    if h : m = n then
      match decEq v w with
      | isTrue k => isTrue (by rw [h, k])
      | isFalse k => isFalse (by simp [k])
    else isFalse (by simp [h])
  | .items m vs, .items n ws =>
    if h : m = n then
      match decEqList vs ws with
      | isTrue k => isTrue (by rw [h, k])
      | isFalse k => isFalse (by simp [k])
    else isFalse (by simp [h])
  | .assign .., .items .. | .items .., .assign .. => isFalse nofun

end

instance : DecidableEq Expr := decEq

mutual

def display : Expr → String
  | param name => name
  | member e name => e.display ++ "." ++ name
  | constant v => v.display
  | captured name _ => "value(" ++ name ++ ")"
  | runtime name => "@" ++ name
  | binary l op r => "(" ++ l.display ++ " " ++ op.symbol ++ " " ++ r.display ++ ")"
  | not e => "!" ++ e.display
  | conditional test a b => "(" ++ test.display ++ " ? " ++ a.display ++ " : " ++ b.display ++ ")"
  | new type args bindings =>
    let call :=
      "new " ++ type.getD "<>f__AnonymousType" ++ "(" ++ ", ".intercalate (displayList args) ++ ")"
    if bindings.isEmpty then call
    else call ++ " \x7b " ++ ", ".intercalate (displayBindings bindings) ++ " \x7d"

def displayList : List Expr → List String
  | [] => []
  | e :: rest => e.display :: displayList rest

def displayBindings : List (Binding Expr) → List String
  | [] => []
  | b :: rest => displayBinding b :: displayBindings rest

def displayBinding : Binding Expr → String
  | .assign m value => m ++ " = " ++ value.display
  | .items m values => m ++ " = \x7b " ++ ", ".intercalate (displayList values) ++ " \x7d"

end

end Expr

end Setwise.Client
