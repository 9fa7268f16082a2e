import Setwise.Parameters.Basic
import Setwise.Relational.LiteralTables

/-!
Binding a plan to the parameters of one execution.

A collection without rows replaces the whole statement by what the plan keeps for that case. Otherwise
every pending literal table learns how many rows it has.
-/

set_option autoImplicit false

namespace Setwise.Relational

def Fallback.statement : Fallback → Statement
  | skip => .noop
  | truncate table => .truncate table

def emptyStatement? (ps : Parameters) : List Feed → Except Parameters.Error (Option Statement)
  | [] => .ok none
  | feed :: rest => do
    let rows ← ps.rows feed.parameter
    if rows.isEmpty then return some feed.whenEmpty.statement
    else emptyStatement? ps rest

def misfit? (width : Nat) (rows : List Row) : Option (Nat × Nat) :=
  (rows.zipIdx.find? fun (r, _) => r.length != width).map fun (r, i) => (i, r.length)

theorem misfit?_eq_none {width : Nat} {rows : List Row} :
    misfit? width rows = none ↔ ∀ r ∈ rows, r.length = width := by
  rw [misfit?, Option.map_eq_none_iff, List.find?_eq_none]
  constructor
  · intro fits r member
    obtain ⟨i, bound, rfl⟩ := List.mem_iff_getElem.1 member
    simpa using fits (rows[i], i) (List.mk_mem_zipIdx_iff_getElem?.2 (by simp [bound]))
  · intro fits p member
    simp [fits p.1 (List.fst_mem_of_mem_zipIdx member)]

theorem misfit?_eq_some {width index actual : Nat} {rows : List Row} (h : misfit? width rows = some (index, actual)) :
    ∃ r, rows[index]? = some r ∧ r.length = actual ∧ actual ≠ width := by
  obtain ⟨⟨r, i⟩, found, same⟩ := Option.map_eq_some_iff.1 h
  obtain ⟨rfl, rfl⟩ := Prod.mk.inj same
  exact ⟨r, List.mk_mem_zipIdx_iff_getElem?.1 (List.mem_of_find?_eq_some found), rfl, by simpa using List.find?_some found⟩

def LiteralTable.resolve (ps : Parameters) (v : LiteralTable) : Except Parameters.Error LiteralTable :=
  match v.rows with
  | .pending parameter => do
    let rows ← ps.rows parameter
    match misfit? v.columns.length rows with
    | some (index, actual) => .error (.rowArity parameter index v.columns.length actual)
    | none => return { v with rows := .resolved parameter rows.length }
  | _ => .ok v

def Plan.bind (plan : Plan) (ps : Parameters) : Except Parameters.Error Block := do
  match ← emptyStatement? ps plan.feeds with
  | some statement => return .affected statement
  | none => plan.root.mapLiteralTables (LiteralTable.resolve ps)

end Setwise.Relational
