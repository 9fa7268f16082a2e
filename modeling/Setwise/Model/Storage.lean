import Setwise.Database
import Setwise.Model.Basic

/-!
The tables that store the entities of a model in memory.
-/

set_option autoImplicit false

namespace Setwise.Model

def keyColumns (e : Entity) (stored : List Property) (k : Key) : List Nat :=
  k.properties.filterMap fun name =>
    (e.property? name).bind fun p => stored.findIdx? fun c => c.column == p.column

def tableOf (m : Model) (e : Entity) : Table :=
  let stored := m.columns e
  { name := e.table
    columns := stored.map fun p => ⟨p.column, p.type, p.nullable⟩
    identity := stored.findIdx? fun p => p.generated && p.type == .integer
    keys := e.keys.map fun k => ⟨k.name, keyColumns e stored k⟩ }

def database (m : Model) : Database :=
  Database.ofTables ((m.entities.filter fun e => !e.owned).map m.tableOf)

end Setwise.Model
