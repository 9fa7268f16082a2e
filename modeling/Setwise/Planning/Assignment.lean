import Setwise.Planning.Error

/-!
Initialisers of entities as lists of assignments to columns.

An owned navigation is assigned by an initialiser of its target, whose properties are columns of the same
table; nesting is flattened, from left to right. No column is assigned twice.
-/

set_option autoImplicit false

namespace Setwise.Planning

open Client

structure Assignment where
  /-- The members that lead from the entity to the property. -/
  path : List String
  column : String
  value : Expr
  deriving DecidableEq

def Assignment.directMember? (a : Assignment) : Option String :=
  match a.path with
  | [member] => some member
  | _ => none

mutual

def assignInto (m : Model) (subject : Subject) (e : Entity) (path : List String) (body : Expr)
    (out : List Assignment) : Except Error (List Assignment) :=
  match body with
  | .new type args bindings =>
    if !args.isEmpty then fail (.constructorUnsupported (.new type args bindings)) subject
    else if type.any fun t => t != e.name then fail (.wrongType e.name (type.getD "")) subject
    else assignAll m subject e path bindings out
  | other => fail (.initializerExpected e.name other) subject

def assignAll (m : Model) (subject : Subject) (e : Entity) (path : List String)
    (bs : List (Binding Expr)) (out : List Assignment) : Except Error (List Assignment) :=
  match bs with
  | [] => .ok out
  | b :: rest => do
    let out ← assignOne m subject e path b out
    assignAll m subject e path rest out

def assignOne (m : Model) (subject : Subject) (e : Entity) (path : List String) (b : Binding Expr)
    (out : List Assignment) : Except Error (List Assignment) :=
  match b with
  | .items member values => fail (.bindingUnsupported (.items member values)) subject
  | .assign member value =>
    match e.property? member with
    | some p =>
      -- two members may be stored in one column
      if out.any fun a => a.column == p.column then fail (.assignedTwice (path ++ [member])) subject
      else .ok (out ++ [⟨path ++ [member], p.column, value⟩])
    | none =>
      match e.navigation? member with
      | some n =>
        if n.isOwned then do
          let target ← lookUp (m.entity n.target)
          assignInto m subject target (path ++ [member]) value out
        else fail (.notOwned member n.target) subject
      | none => fail (.notProperty member e.name) subject

end

def assignments (m : Model) (subject : Subject) (e : Entity) (body : Expr) :
    Except Error (List Assignment) :=
  assignInto m subject e [] body []

/-- The first key of an entity type whose properties are all among the assigned members, and none of
which the store generates. -/
def usableKey? (e : Entity) (assigned : List String) : Option Key :=
  e.keys.find? fun key => key.properties.all fun name =>
    assigned.contains name &&
      match e.property? name with
      | some p => !p.generated
      | none => false

end Setwise.Planning
