import Setwise.Table.Row

/-!
The values of runtime parameters: single values and whole collections of rows.

Main statement: a parameter that has been given a value holds it, and the others keep theirs
(`Parameters.find?_insert`).
-/

set_option autoImplicit false

namespace Setwise

inductive Parameter where
  | scalar (value : Value)
  | rows (rows : List Row)
  deriving DecidableEq

/-- Runtime parameters by name, no name twice, in the order of their first insertion. -/
structure Parameters where
  entries : List (String × Parameter) := []
  distinct : (entries.map Prod.fst).Nodup := by exact List.nodup_nil
  deriving DecidableEq

namespace Parameters

inductive Error where
  | notAnonymous (index : Nat) (type : String)
  | shapeMismatch (index : Nat) (expected actual : List String)
  | missing (name : String)
  | wrongKind (name : String)
  | rowArity (name : String) (index expected actual : Nat)
  deriving DecidableEq

def Error.message : Error → String
  | notAnonymous index type =>
    "Client-side collections must contain anonymous records: element " ++ toString index
      ++ " is an instance of '" ++ type ++ "'."
  | shapeMismatch index expected actual =>
    "Client-side collection elements must share the fields [" ++ ", ".intercalate expected
      ++ "]: element " ++ toString index ++ " has [" ++ ", ".intercalate actual ++ "]."
  | missing name => "Parameter '" ++ name ++ "' has no value."
  | wrongKind name => "Parameter '" ++ name ++ "' holds a value of the wrong kind."
  | rowArity name index expected actual =>
    "Row " ++ toString index ++ " of '" ++ name ++ "' has " ++ toString actual ++ " values; expected "
      ++ toString expected ++ "."

def setEntry (name : String) (p : Parameter) : List (String × Parameter) → List (String × Parameter)
  | [] => [(name, p)]
  | (n, q) :: rest => if n = name then (name, p) :: rest else (n, q) :: setEntry name p rest

theorem setEntry_names (name : String) (p : Parameter) (es : List (String × Parameter)) :
    (setEntry name p es).map Prod.fst =
      if name ∈ es.map Prod.fst then es.map Prod.fst else es.map Prod.fst ++ [name] := by
  induction es with
  | nil => simp [setEntry]
  | cons e rest ih =>
    by_cases same : e.1 = name
    · simp [setEntry, same]
    · by_cases found : name ∈ rest.map Prod.fst <;> simp_all [setEntry, Ne.symm same]

theorem setEntry_distinct (name : String) (p : Parameter) {es : List (String × Parameter)}
    (h : (es.map Prod.fst).Nodup) : ((setEntry name p es).map Prod.fst).Nodup := by
  rw [setEntry_names]
  split
  case isTrue => exact h
  case isFalse missing =>
    refine List.nodup_append.2 ⟨h, List.pairwise_singleton _ _, fun a ha b hb => ?_⟩
    rintro rfl
    exact missing (List.mem_singleton.1 hb ▸ ha)

def insert (ps : Parameters) (name : String) (p : Parameter) : Parameters :=
  ⟨setEntry name p ps.entries, setEntry_distinct name p ps.distinct⟩

def find? (ps : Parameters) (name : String) : Option Parameter :=
  ps.entries.lookup name

theorem lookup_setEntry (name other : String) (p : Parameter) (es : List (String × Parameter)) :
    (setEntry name p es).lookup other = if other = name then some p else es.lookup other := by
  induction es with
  | nil => grind [setEntry]
  | cons e rest ih => grind [setEntry]

/-- A parameter that has been given a value holds it, and the others keep theirs. -/
theorem find?_insert (ps : Parameters) (name other : String) (p : Parameter) :
    (ps.insert name p).find? other = if other = name then some p else ps.find? other :=
  lookup_setEntry name other p ps.entries

def size (ps : Parameters) : Nat :=
  ps.entries.length

def scalar (ps : Parameters) (name : String) : Except Error Value :=
  match ps.find? name with
  | some (.scalar v) => .ok v
  | some (.rows _) => .error (.wrongKind name)
  | none => .error (.missing name)

def rows (ps : Parameters) (name : String) : Except Error (List Row) :=
  match ps.find? name with
  | some (.rows rs) => .ok rs
  | some (.scalar _) => .error (.wrongKind name)
  | none => .error (.missing name)

theorem scalar_eq_ok {ps : Parameters} {name : String} {v : Value} :
    ps.scalar name = .ok v ↔ ps.find? name = some (.scalar v) := by
  unfold scalar
  split <;> simp_all

theorem rows_eq_ok {ps : Parameters} {name : String} {rs : List Row} :
    ps.rows name = .ok rs ↔ ps.find? name = some (.rows rs) := by
  unfold rows
  split <;> simp_all

end Parameters

end Setwise
