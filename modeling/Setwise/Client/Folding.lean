import Setwise.Client.Mutation
import Setwise.Value.Evaluation

/-!
Constant folding.

Operators on two constants are evaluated, double negations disappear, and a conditional whose test is a
constant becomes the branch that it selects; the other branch is not looked at. An operator without a
result makes folding fail.
-/

set_option autoImplicit false

namespace Setwise.Client

structure FoldingError where
  cause : Value.Error
  /-- The operator application as it was before folding. -/
  within : Expr
  deriving DecidableEq

def FoldingError.message (e : FoldingError) : String :=
  e.cause.message ++ " in " ++ e.within.display

namespace Expr

def foldBinary (whole left : Expr) (op : Operator) (right : Expr) : Except FoldingError Expr :=
  match left, right with
  | constant v, constant w =>
    match v.apply op w with
    | .ok result => .ok (constant result)
    | .error cause => .error ⟨cause, whole⟩
  | l, r => .ok (binary l op r)

def foldNot : Expr → Expr
  | constant (.bool b) => constant (.bool (!b))
  | constant .null => constant .null
  -- the operand of the inner negation is taken for a truth value
  | not inner => inner
  | other => not other

mutual

def fold (e : Expr) : Except FoldingError Expr :=
  match e with
  | .binary l op r => do
    let l' ← fold l
    let r' ← fold r
    foldBinary (.binary l op r) l' op r'
  | .not operand => do
    let operand ← fold operand
    -- the operand has been folded, so it has no double negation in front itself
    return foldNot operand
  | .conditional test a b => do
    let test ← fold test
    match test with
    | .constant v => if v.isTrue then fold a else fold b
    | test => do
      let a ← fold a
      let b ← fold b
      return .conditional test a b
  | .member of name => do
    let of ← fold of
    return .member of name
  | .new type args bindings => do
    let bindings ← foldBindings bindings
    let args ← foldList args
    return .new type args bindings
  | .param name => .ok (.param name)
  | .constant v => .ok (.constant v)
  -- captured values vary between runs, so they are no constants
  | .captured name v => .ok (.captured name v)
  | .runtime name => .ok (.runtime name)

def foldList (es : List Expr) : Except FoldingError (List Expr) :=
  match es with
  | [] => .ok []
  | e :: rest => do
    let e ← fold e
    let rest ← foldList rest
    return e :: rest

def foldBindings (bs : List (Binding Expr)) : Except FoldingError (List (Binding Expr)) :=
  match bs with
  | [] => .ok []
  | b :: rest => do
    let b ← foldBinding b
    let rest ← foldBindings rest
    return b :: rest

def foldBinding (b : Binding Expr) : Except FoldingError (Binding Expr) :=
  match b with
  | .assign m value => do
    let value ← fold value
    return .assign m value
  | .items m values => do
    let values ← foldList values
    return .items m values

end

end Expr

def Lambda.fold (l : Lambda) : Except FoldingError Lambda := do
  let body ← l.body.fold
  return { l with body }

def Lambda.foldOption : Option Lambda → Except FoldingError (Option Lambda)
  | none => .ok none
  | some l => do
    let l ← l.fold
    return some l

def Query.fold : Query → Except FoldingError Query
  | .set entity => .ok (.set entity)
  | .rows collection => .ok (.rows collection)
  | .filter input predicate => do
    let input ← input.fold
    let predicate ← predicate.fold
    return .filter input predicate
  | .map input selector => do
    let input ← input.fold
    let selector ← selector.fold
    return .map input selector
  | .join outer inner outerKey innerKey result => do
    let outer ← outer.fold
    let inner ← inner.fold
    let outerKey ← outerKey.fold
    let innerKey ← innerKey.fold
    let result ← result.fold
    return .join outer inner outerKey innerKey result
  | .orderBy input key descending => do
    let input ← input.fold
    let key ← key.fold
    return .orderBy input key descending
  | .take input count => do
    let input ← input.fold
    let count ← count.fold
    return .take input count
  | .skip input count => do
    let input ← input.fold
    let count ← count.fold
    return .skip input count
  | .groupBy input key => do
    let input ← input.fold
    let key ← key.fold
    return .groupBy input key
  | .union left right => do
    let left ← left.fold
    let right ← right.fold
    return .union left right

def Query.foldOption : Option Query → Except FoldingError (Option Query)
  | none => .ok none
  | some q => do
    let q ← q.fold
    return some q

def Mutation.fold : Mutation → Except FoldingError Mutation
  | .delete query => do
    let query ← query.fold
    return .delete query
  | .update query set => do
    let query ← query.fold
    let set ← set.fold
    return .update query set
  | .updateJoin outer inner outerKey innerKey set condition => do
    let outer ← outer.fold
    let inner ← inner.fold
    let outerKey ← outerKey.fold
    let innerKey ← innerKey.fold
    let set ← set.fold
    let condition ← Lambda.foldOption condition
    return .updateJoin outer inner outerKey innerKey set condition
  | .insertInto query target => do
    let query ← query.fold
    return .insertInto query target
  | .upsert target source inserted updated => do
    let source ← Query.foldOption source
    let inserted ← inserted.fold
    let updated ← Lambda.foldOption updated
    return .upsert target source inserted updated
  | .merge target source targetKey sourceKey updated inserted deleted => do
    let source ← source.fold
    let targetKey ← targetKey.fold
    let sourceKey ← sourceKey.fold
    let updated ← Lambda.foldOption updated
    let inserted ← Lambda.foldOption inserted
    return .merge target source targetKey sourceKey updated inserted deleted

end Setwise.Client
