import Setwise.Relational.Select
import Setwise.Planning.Error

/-!
Shapes: what one element of a query looks like to the lambdas applied to it.

An element is a scalar, an entity visible under a label, a record, the rows of one group, or the row
that an upsert tries to insert. `Shape.expose` lists the columns that a shape reads, and gives the shape
that reads them from a subquery; `Shape.equality` compares two keys.
-/

set_option autoImplicit false

namespace Setwise.Planning

open Relational

def freshName (taken : List String) (base : String) : String :=
  if taken.contains base then
    -- one of these names is free: there are more of them than names taken
    let numbered := (List.range (taken.length + 1)).map fun i => base ++ toString i
    (numbered.find? fun n => !taken.contains n).getD base
  else base

structure EntityView where
  entity : String
  label : String
  /-- The names under which a subquery passes columns on. -/
  renames : List (String × String) := []
  deriving DecidableEq

def EntityView.column (r : EntityView) (column : String) : Scalar :=
  .column r.label ((r.renames.lookup column).getD column)

inductive Shape where
  | scalar (e : Scalar)
  | entity (ref : EntityView)
  | record (fields : List (String × Shape))
  /-- The rows of one group, of which only the key can be read. -/
  | grouping (key : Shape)
  /-- The row that an upsert tries to insert, which has values for the given columns only. -/
  | excluded (entity : String) (columns : List String)

namespace Shape

mutual

def scalars (subject : Subject) (s : Shape) : Except Error (List Scalar) :=
  match s with
  | .scalar e => .ok [e]
  | .record fields => fieldScalars subject fields
  | .grouping key => scalars subject key
  | .entity _ | .excluded .. => fail .scalarsExpected subject

def fieldScalars (subject : Subject) (fs : List (String × Shape)) : Except Error (List Scalar) :=
  match fs with
  | [] => .ok []
  | f :: rest => do
    let here ← fieldScalar subject f
    let others ← fieldScalars subject rest
    return here ++ others

def fieldScalar (subject : Subject) (f : String × Shape) : Except Error (List Scalar) :=
  match f with
  | (_, s) => scalars subject s

end

def exposeColumns (r : EntityView) : List Property → List Projection →
    List (String × String) × List Projection
  | [], out => ([], out)
  | p :: rest, out =>
    -- the columns listed so far keep their names
    let name := freshName (out.map Projection.name) p.column
    let (renames, out) := exposeColumns r rest (out ++ [⟨name, r.column p.column⟩])
    ((p.column, name) :: renames, out)

def preferredName (hint : Option String) (e : Scalar) : String :=
  match hint, e with
  | some h, _ => h
  | none, .column _ name => name
  | none, _ => "c"

mutual

/-- Append the columns that a shape reads to the projections of a subquery with the given label. The
result is the shape that reads them from there. -/
def expose (m : Model) (subject : Subject) (label : String) (hint : Option String) (s : Shape)
    (out : List Projection) : Except Error (Shape × List Projection) :=
  match s with
  | .scalar e =>
    let name := freshName (out.map Projection.name) (preferredName hint e)
    .ok (.scalar (.column label name), out ++ [⟨name, e⟩])
  | .entity r => do
    let e ← lookUp (m.entity r.entity)
    let (renames, out) := exposeColumns r (m.columns e) out
    return (.entity { entity := r.entity, label, renames }, out)
  | .record fields => do
    let (fields, out) ← exposeFields m subject label fields out
    return (.record fields, out)
  | .grouping key => do
    let (key, out) ← expose m subject label (some "Key") key out
    return (.grouping key, out)
  | .excluded .. => fail .incomingInSubquery subject

def exposeFields (m : Model) (subject : Subject) (label : String) (fs : List (String × Shape))
    (out : List Projection) : Except Error (List (String × Shape) × List Projection) :=
  match fs with
  | [] => .ok ([], out)
  | f :: rest => do
    let (f, out) ← exposeField m subject label f out
    let (rest, out) ← exposeFields m subject label rest out
    return (f :: rest, out)

def exposeField (m : Model) (subject : Subject) (label : String) (f : String × Shape)
    (out : List Projection) : Except Error ((String × Shape) × List Projection) :=
  match f with
  | (name, s) => do
    let (s, out) ← expose m subject label (some name) s out
    return ((name, s), out)

end

def propertiesEquality (e : Entity) (a b : EntityView) :
    List String → (condition : Option Scalar) → Except Error (Option Scalar)
  | [], condition => .ok condition
  | name :: rest, condition => do
    let p ← lookUp (Model.property e name)
    propertiesEquality e a b rest
      (some (Scalar.both condition (.binary (a.column p.column) .equal (b.column p.column))))

def nonempty (subject : Subject) : Option Scalar → Except Error Scalar
  | some condition => .ok condition
  | none => fail .emptyKey subject

mutual

/-- Equality of two keys. Records are compared member by member, entities by primary key. -/
def equality (m : Model) (subject : Subject) (l r : Shape) : Except Error Scalar :=
  match l with
  | .scalar a =>
    match r with
    | .scalar b => .ok (.binary a .equal b)
    | _ => fail .incomparable subject
  | .record fields =>
    match r with
    | .record others =>
      -- members are found by name, so their order does not matter
      if fields.length = others.length then do
        let condition ← fieldsEquality m subject fields others none
        nonempty subject condition
      else fail .keyLengths subject
    | _ => fail .incomparable subject
  | .entity a =>
    match r with
    | .entity b =>
      if a.entity = b.entity then do
        let e ← lookUp (m.entity a.entity)
        match e.primary? with
        | none => fail (.noPrimaryKey a.entity) subject
        | some key => do
          let condition ← propertiesEquality e a b key.properties none
          nonempty subject condition
      else fail .incomparable subject
    | _ => fail .incomparable subject
  | .grouping _ | .excluded .. => fail .incomparable subject

def fieldsEquality (m : Model) (subject : Subject) (fs others : List (String × Shape))
    (condition : Option Scalar) : Except Error (Option Scalar) :=
  match fs with
  | [] => .ok condition
  | f :: rest => do
    let here ← fieldEquality m subject f others
    fieldsEquality m subject rest others (some (Scalar.both condition here))

def fieldEquality (m : Model) (subject : Subject) (f : String × Shape) (others : List (String × Shape)) :
    Except Error Scalar :=
  match f with
  | (name, s) =>
    match others.lookup name with
    | some other => equality m subject s other
    | none => fail (.missingKeyMember name) subject

end

end Shape

end Setwise.Planning
