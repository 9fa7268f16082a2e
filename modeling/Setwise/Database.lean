import Setwise.Table.Basic

/-!
Databases held in memory: tables under their own names.

Main statements: a table that has been added is found under its name (`Database.find?_put_self`), and
the tables of other names stay as they were (`Database.find?_put_of_ne`).
-/

set_option autoImplicit false

namespace Setwise

structure Database where
  tables : List Table := []
  ascending : tables.Pairwise (fun t u => t.name < u.name) := by exact List.Pairwise.nil
  deriving DecidableEq

namespace Database

inductive Error where
  | unknownTable (name : String)
  deriving DecidableEq

def Error.message : Error → String
  | unknownTable name => "Table name not found: " ++ name ++ "."

def insertSorted (t : Table) : List Table → List Table
  | [] => [t]
  | u :: rest =>
    if t.name < u.name then t :: u :: rest
    else if t.name = u.name then t :: rest
    else u :: insertSorted t rest

theorem mem_insertSorted {t u : Table} {ts : List Table} (h : u ∈ insertSorted t ts) :
    u = t ∨ u ∈ ts := by
  induction ts with
  | nil => simpa [insertSorted] using h
  | cons v rest ih =>
    simp only [insertSorted] at h
    split at h
    · simpa using h
    · split at h
      · rcases List.mem_cons.1 h with rfl | h
        · exact .inl rfl
        · exact .inr (List.mem_cons_of_mem _ h)
      · rcases List.mem_cons.1 h with rfl | h
        · exact .inr List.mem_cons_self
        · exact (ih h).imp_right (List.mem_cons_of_mem _)

theorem insertSorted_ascending (t : Table) {ts : List Table}
    (h : ts.Pairwise fun a b => a.name < b.name) :
    (insertSorted t ts).Pairwise fun a b => a.name < b.name := by
  induction ts with
  | nil => exact List.pairwise_singleton _ _
  | cons u rest ih =>
    have ⟨first, others⟩ := List.pairwise_cons.1 h
    simp only [insertSorted]
    split
    case isTrue before =>
      refine List.pairwise_cons.2 ⟨fun v hv => ?_, h⟩
      rcases List.mem_cons.1 hv with rfl | hv
      · exact before
      · exact String.lt_trans before (first v hv)
    case isFalse notBefore =>
      split
      case isTrue same => exact List.pairwise_cons.2 ⟨fun v hv => same ▸ first v hv, others⟩
      case isFalse different =>
        refine List.pairwise_cons.2 ⟨fun v hv => ?_, ih others⟩
        rcases mem_insertSorted hv with rfl | hv
        · exact Std.lt_of_le_of_ne (String.not_lt.1 notBefore) (Ne.symm different)
        · exact first v hv

def put (db : Database) (t : Table) : Database :=
  ⟨insertSorted t db.tables, insertSorted_ascending t db.ascending⟩

def ofTables (tables : List Table) : Database :=
  tables.foldl put {}

def find? (db : Database) (name : String) : Option Table :=
  db.tables.find? fun t => t.name == name

theorem find?_insertSorted_self (t : Table) (ts : List Table) :
    (insertSorted t ts).find? (fun u => u.name == t.name) = some t := by
  induction ts with
  | nil => simp [insertSorted]
  | cons u rest ih => grind [insertSorted]

theorem find?_insertSorted_of_ne {t : Table} {name : String} (h : t.name ≠ name) (ts : List Table) :
    (insertSorted t ts).find? (fun u => u.name == name) = ts.find? fun u => u.name == name := by
  induction ts with
  | nil => simp [insertSorted, h]
  | cons u rest ih => grind [insertSorted]

/-- A table that has been added is found under its name. -/
@[simp] theorem find?_put_self (db : Database) (t : Table) : (db.put t).find? t.name = some t :=
  find?_insertSorted_self t db.tables

/-- Adding a table leaves the tables of other names alone. -/
theorem find?_put_of_ne {t : Table} {name : String} (h : t.name ≠ name) (db : Database) :
    (db.put t).find? name = db.find? name :=
  find?_insertSorted_of_ne h db.tables

def get (db : Database) (name : String) : Except Error Table :=
  match db.find? name with
  | some t => .ok t
  | none => .error (.unknownTable name)

def modify {ε : Type} (db : Database) (name : String) (onMissing : Error → ε)
    (f : Table → Except ε Table) : Except ε Database :=
  match db.get name with
  | .error e => .error (onMissing e)
  | .ok t => (f t).map db.put

def tableNames (db : Database) : List String :=
  db.tables.map Table.name

end Database

end Setwise
