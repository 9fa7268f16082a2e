import Setwise.Model.Entity

/-!
Models: the entity types known to a session.

A model is built from a list of entity types. Owned types take the table and schema of an owner,
through any number of levels, and every key and navigation must name what it uses.
-/

set_option autoImplicit false

namespace Setwise

structure Model where
  entities : List Entity := []
  deriving DecidableEq

namespace Model

inductive Error where
  | unknownEntity (name : String)
  | duplicateEntity (name : String)
  | unknownProperty (entity member : String)
  | unknownNavigationTarget (entity navigation target : String)
  | foreignKeyMismatch (entity navigation : String)
  deriving DecidableEq

def Error.message : Error → String
  | unknownEntity name => "Entity type '" ++ name ++ "' is not part of the model."
  | duplicateEntity name => "Entity type '" ++ name ++ "' is defined more than once."
  | unknownProperty entity member =>
    "'" ++ member ++ "' is not a property of entity type '" ++ entity ++ "'."
  | unknownNavigationTarget entity navigation target =>
    "Navigation '" ++ navigation ++ "' of '" ++ entity ++ "' targets unknown entity type '" ++ target
      ++ "'."
  | foreignKeyMismatch entity navigation =>
    "Navigation '" ++ navigation ++ "' of '" ++ entity ++ "' has mismatched key lengths."

def property (e : Entity) (name : String) : Except Error Property :=
  match e.property name with
  | .ok p => .ok p
  | .error missing => .error (.unknownProperty missing.entity missing.member)

def firstDuplicate? (seen : List String) : List Entity → Option String
  | [] => none
  | e :: rest => if seen.contains e.name then some e.name else firstDuplicate? (seen ++ [e.name]) rest

def adopt (table : String) (schema : Option String) (target : String) : List Entity → List Entity
  | [] => []
  | e :: rest =>
    if e.name = target then
      -- a type that declares a table of its own keeps it
      (if e.table = "" then { e with table := table, schema := schema } else e) :: rest
    else e :: adopt table schema target rest

def adoptOwned (entities : List Entity) (owner : Entity) : List Entity :=
  -- a type without a table has none to pass on yet
  if owner.table = "" then entities
  else
    (owner.navigations.filter Navigation.isOwned).foldl
      (fun es n => adopt owner.table owner.schema n.target es) entities

def adoptionRound (entities : List Entity) : List Entity :=
  (List.range entities.length).foldl
    (fun es i => match es[i]? with
      | some owner => adoptOwned es owner
      | none => es)
    entities

def adoptAll : (fuel : Nat) → List Entity → List Entity
  | 0, entities => entities
  | fuel + 1, entities =>
    let next := adoptionRound entities
    if next = entities then entities else adoptAll fuel next

/-- Link owned types to tables. Each round but the last gives some type its table, so as many rounds
as there are types, and one more, reach the end. -/
def link (entities : List Entity) : List Entity :=
  adoptAll (entities.length + 1) entities

def entity? (m : Model) (name : String) : Option Entity :=
  m.entities.find? fun e => e.name == name

def entity (m : Model) (name : String) : Except Error Entity :=
  match m.entity? name with
  | some e => .ok e
  | none => .error (.unknownEntity name)

def checkProperties (e : Entity) (names : List String) : Except Error Unit :=
  names.forM fun name => (property e name).map fun _ => ()

def checkNavigation (m : Model) (e : Entity) (n : Navigation) : Except Error Unit :=
  match m.entity? n.target with
  | none => .error (.unknownNavigationTarget e.name n.name n.target)
  | some target =>
    match n.kind with
    | .owned => .ok ()
    | .reference foreignKey principalKey _ =>
      if foreignKey.length ≠ principalKey.length ∨ foreignKey = [] then
        .error (.foreignKeyMismatch e.name n.name)
      else do
        checkProperties e foreignKey
        checkProperties target principalKey

def checkEntity (m : Model) (e : Entity) : Except Error Unit := do
  e.keys.forM fun k => checkProperties e k.properties
  e.navigations.forM (checkNavigation m e)

def ofEntities (entities : List Entity) : Except Error Model :=
  match firstDuplicate? [] entities with
  | some name => .error (.duplicateEntity name)
  | none => do
    let m : Model := ⟨link entities⟩
    m.entities.forM (checkEntity m)
    return m

/-- The properties stored in the table of an entity type, those of owned types included; nothing if
types own each other to a depth of `fuel`. -/
def columnsWithin? (m : Model) : (fuel : Nat) → Entity → Option (List Property)
  | 0, _ => none
  | fuel + 1, e => do
    let embedded ← e.navigations.mapM fun n =>
      if n.isOwned then
        match m.entity? n.target with
        | some target => columnsWithin? m fuel target
        | none => some []
      else some []
    return e.properties ++ embedded.flatten

/-- The properties stored in the table of an entity type, those of owned types included. Ownership
deeper than the number of entity types is circular, and then there is no such list. -/
def columns? (m : Model) (e : Entity) : Option (List Property) :=
  m.columnsWithin? (m.entities.length + 1) e

def columns (m : Model) (e : Entity) : List Property :=
  (m.columns? e).getD e.properties

end Model

end Setwise
