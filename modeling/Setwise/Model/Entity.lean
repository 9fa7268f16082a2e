import Setwise.ColumnType

/-!
Entity types: their properties, keys and navigations, and the table that they are mapped to.

An owned type is embedded in the table of its owner. A reference leads from foreign key properties to
the key properties of another entity type. Entity types are put together from an empty one by the
functions below, whose order matters: a reference looks at the properties declared so far.
-/

set_option autoImplicit false

namespace Setwise

structure Property where
  name : String
  column : String
  type : ColumnType
  nullable : Bool := false
  /-- The store assigns the value when a row is inserted. -/
  generated : Bool := false
  deriving DecidableEq

structure Key where
  name : String
  properties : List String
  primary : Bool
  deriving DecidableEq

inductive NavigationKind where
  /-- The target is embedded in the owner's row. -/
  | owned
  /-- The foreign key properties of the owner equal the principal key properties of the target. -/
  | reference (foreignKey principalKey : List String) (required : Bool)
  deriving DecidableEq

structure Navigation where
  name : String
  target : String
  kind : NavigationKind
  deriving DecidableEq

def Navigation.isOwned (n : Navigation) : Bool :=
  n.kind == .owned

/-- An entity type. The primary key, if any, stands in front of the other keys. -/
structure Entity where
  name : String
  /-- The table; an owned type has none until it is linked to an owner. -/
  table : String
  schema : Option String := none
  owned : Bool := false
  properties : List Property := []
  keys : List Key := []
  navigations : List Navigation := []
  deriving DecidableEq

namespace Entity

structure UnknownProperty where
  entity : String
  member : String
  deriving DecidableEq

def property? (e : Entity) (name : String) : Option Property :=
  e.properties.find? fun p => p.name == name

def navigation? (e : Entity) (name : String) : Option Navigation :=
  e.navigations.find? fun n => n.name == name

def property (e : Entity) (name : String) : Except UnknownProperty Property :=
  match e.property? name with
  | some p => .ok p
  | none => .error ⟨e.name, name⟩

def primary? (e : Entity) : Option Key :=
  e.keys.find? Key.primary

def mapped (name table : String) : Entity where
  name := name
  table := table

def embedded (name : String) : Entity where
  name := name
  table := ""
  owned := true

def withSchema (e : Entity) (schema : String) : Entity :=
  { e with schema := some schema }

def withProperty (e : Entity) (p : Property) : Entity :=
  { e with properties := e.properties ++ [p] }

def withPrimaryKey (e : Entity) (properties : List String) : Entity :=
  { e with keys := ⟨"PK_" ++ e.table, properties, true⟩ :: e.keys.filter fun k => !k.primary }

def withAlternateKey (e : Entity) (properties : List String) : Entity :=
  let name := "AK_" ++ e.table ++ "_" ++ "_".intercalate properties
  { e with keys := e.keys ++ [⟨name, properties, false⟩] }

def owning (e : Entity) (name target : String) : Entity :=
  { e with navigations := e.navigations ++ [⟨name, target, .owned⟩] }

/-- Refer to the target type. The reference is required when no foreign key property declared so far
can be NULL. -/
def referencing (e : Entity) (name target : String) (foreignKey principalKey : List String) : Entity :=
  let required := foreignKey.all fun k =>
    match e.property? k with
    | some p => !p.nullable
    | none => false
  { e with
    navigations := e.navigations ++ [⟨name, target, .reference foreignKey principalKey required⟩] }

end Entity

end Setwise
