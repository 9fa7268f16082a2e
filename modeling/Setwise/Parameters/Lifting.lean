import Setwise.Client.Mutation
import Setwise.Parameters.Basic

/-!
Lifting client values out of a mutation.

Every captured value and every collection of the client becomes a runtime parameter with a fresh name,
so that mutations which differ only in those values have one form. The traversal is from left to right
and numbers the parameters as it meets them.
-/

set_option autoImplicit false

namespace Setwise

open Client

structure Lifting where
  values : Parameters := {}
  next : Nat := 0

namespace Lifting

def add (hint : String) (p : Parameter) : StateM Lifting String := fun s =>
  -- the number keeps names apart whose hints are equal
  let name := "__" ++ hint ++ "_" ++ toString s.next
  (name, { values := s.values.insert name p, next := s.next + 1 })

mutual

def expr : Expr → StateM Lifting Expr
  | .captured name value => do
    let p ← add name (.scalar value)
    return .runtime p
  | .param name => pure (.param name)
  | .constant v => pure (.constant v)
  | .runtime name => pure (.runtime name)
  | .member e name => do
    let e ← expr e
    return .member e name
  | .binary l op r => do
    let l ← expr l
    let r ← expr r
    return .binary l op r
  | .not e => do
    let e ← expr e
    return .not e
  | .conditional test a b => do
    let test ← expr test
    let a ← expr a
    let b ← expr b
    return .conditional test a b
  | .new type args bindings => do
    let args ← exprs args
    let bindings ← bindingList bindings
    return .new type args bindings

def exprs : List Expr → StateM Lifting (List Expr)
  | [] => pure []
  | e :: rest => do
    let e ← expr e
    let rest ← exprs rest
    return e :: rest

def bindingList : List (Binding Expr) → StateM Lifting (List (Binding Expr))
  | [] => pure []
  | b :: rest => do
    let b ← binding b
    let rest ← bindingList rest
    return b :: rest

def binding : Binding Expr → StateM Lifting (Binding Expr)
  | .assign member value => do
    let value ← expr value
    return .assign member value
  | .items member values => do
    let values ← exprs values
    return .items member values

end

def lambda (l : Lambda) : StateM Lifting Lambda := do
  let body ← expr l.body
  return { l with body }

def lambda? : Option Lambda → StateM Lifting (Option Lambda)
  | none => pure none
  | some l => do
    let l ← lambda l
    return some l

abbrev Fallible := StateT Lifting (Except Parameters.Error)

def surely {α : Type} (x : StateM Lifting α) : Fallible α := fun s => .ok (x s)

def recordValues (fields : List String) (index : Nat) (r : Record) : Except Parameters.Error Row :=
  match r.type with
  | some type => .error (.notAnonymous index type)
  | none =>
    let names := r.fields.map Prod.fst
    if names = fields then .ok (r.fields.map Prod.snd)
    else .error (.shapeMismatch index fields names)

def recordRows (fields : List String) (index : Nat) : List Record → Except Parameters.Error (List Row)
  | [] => .ok []
  | r :: rest => do
    let row ← recordValues fields index r
    let rows ← recordRows fields (index + 1) rest
    return row :: rows

def collection : LocalRows → Fallible LocalRows
  | .parameter name fields => pure (.parameter name fields)
  | .records fields elements => do
    -- a collection is one parameter, whatever its number of rows
    let rows ← recordRows fields 0 elements
    let name ← surely (add "rows" (.rows rows))
    return .parameter name fields

def query : Query → Fallible Query
  | .set entity => pure (.set entity)
  | .rows c => do
    let c ← collection c
    return .rows c
  | .filter input predicate => do
    let input ← query input
    let predicate ← surely (lambda predicate)
    return .filter input predicate
  | .map input selector => do
    let input ← query input
    let selector ← surely (lambda selector)
    return .map input selector
  | .join outer inner outerKey innerKey result => do
    let outer ← query outer
    let inner ← query inner
    let outerKey ← surely (lambda outerKey)
    let innerKey ← surely (lambda innerKey)
    let result ← surely (lambda result)
    return .join outer inner outerKey innerKey result
  | .orderBy input key descending => do
    let input ← query input
    let key ← surely (lambda key)
    return .orderBy input key descending
  | .take input count => do
    let input ← query input
    let count ← surely (expr count)
    return .take input count
  | .skip input count => do
    let input ← query input
    let count ← surely (expr count)
    return .skip input count
  | .groupBy input key => do
    let input ← query input
    let key ← surely (lambda key)
    return .groupBy input key
  | .union left right => do
    let left ← query left
    let right ← query right
    return .union left right

def query? : Option Query → Fallible (Option Query)
  | none => pure none
  | some q => do
    let q ← query q
    return some q

def mutation : Mutation → Fallible Mutation
  | .delete q => do
    let q ← query q
    return .delete q
  | .update q set => do
    let q ← query q
    let set ← surely (lambda set)
    return .update q set
  | .updateJoin outer inner outerKey innerKey set condition => do
    let outer ← query outer
    let inner ← query inner
    let outerKey ← surely (lambda outerKey)
    let innerKey ← surely (lambda innerKey)
    let set ← surely (lambda set)
    let condition ← surely (lambda? condition)
    return .updateJoin outer inner outerKey innerKey set condition
  | .insertInto q target => do
    let q ← query q
    return .insertInto q target
  | .upsert target source insert update => do
    let source ← query? source
    let insert ← surely (lambda insert)
    let update ← surely (lambda? update)
    return .upsert target source insert update
  | .merge target source targetKey sourceKey update insert delete => do
    let source ← query source
    let targetKey ← surely (lambda targetKey)
    let sourceKey ← surely (lambda sourceKey)
    let update ← surely (lambda? update)
    let insert ← surely (lambda? insert)
    return .merge target source targetKey sourceKey update insert delete

end Lifting

/-- The mutation with every client value replaced by a runtime parameter, and the values of those
parameters. -/
def Client.Mutation.lift (m : Mutation) : Except Parameters.Error (Mutation × Parameters) := do
  let (m, s) ← Lifting.mutation m {}
  return (m, s.values)

end Setwise
