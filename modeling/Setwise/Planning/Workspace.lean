import Setwise.Planning.Shape
import Setwise.Relational.Select
import Setwise.Text.LowerCase

/-!
The state of planning.

Planning hands out labels, no label twice, and remembers which source a navigation was joined as, so
that reading it again joins nothing. Navigations met in a lambda become joins of the select that the
lambda is planned against. The state outlives an error.
-/

set_option autoImplicit false

namespace Setwise.Planning

open Client Relational

/-- The labels in use, the joined navigations, and the joins of the select at hand. -/
structure Workspace where
  labels : List String := []
  /-- The label of the target, by the label of the owner and the name of the navigation. -/
  navigations : List ((String × String) × String) := []
  joins : List (Join Select) := []

abbrev Step := ExceptT Error (StateM Workspace)

def ofResult {α : Type} : Except Error α → Step α
  | .ok a => pure a
  | .error e => throw e

def initial (base : String) : String :=
  match base.toList with
  | [] => "t"
  | c :: _ => String.ofList (Text.lowerChar c)

/-- A label that is not in use: the first letter of a name in lower case, followed by a number where that
letter is taken. -/
def newLabel (base : String) : Step String := do
  let w ← get
  let label := freshName w.labels (initial base)
  set { w with labels := w.labels ++ [label] }
  return label

def newTable (e : Entity) : Step StoredTable := do
  let label ← newLabel e.table
  return { name := e.table, schema := e.schema, label }

abbrev Scope := List (String × Shape)

def scopeOf (l : Lambda) (args : List Shape) : Step Scope :=
  if l.params.length = args.length then pure (l.params.zip args)
  else fail (.parameterCount args.length) (.lambda l)

/-- Plan against a select, which receives the joins that come up. -/
def against {α : Type} (s : Select) (x : Step α) : Step (α × Select) := do
  modify fun w => { w with joins := s.joins }
  let a ← x
  let w ← get
  return (a, { s with joins := w.joins })

/-- A select with a shape for its elements, and the operators that bulk writes cannot follow. -/
structure Planned where
  select : Select
  shape : Shape
  operators : List String := []

end Setwise.Planning
