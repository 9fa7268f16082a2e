import Setwise.Client.Printed
import Setwise.Parameters.Lifting
import Setwise.Relational.Pruning
import Setwise.Planning.Mutation

/-!
The planning of mutations, and the plans that are kept.

Client values are lifted out first, so that mutations which differ only in those values have one form and
share one plan. The form is then folded, planned and pruned. A plan is kept under the text of its form, in which all its
names and constants are written out.
-/

set_option autoImplicit false

namespace Setwise

open Client Relational

def planOf (m : Model) (capabilities : Capabilities) (form : Mutation) : Except Planning.Error Plan :=
  match form.fold with
  | .error e => .error (.inexpressible (.constantWithoutValue e) (.mutation form))
  | .ok folded => do
    let plan ← Planning.plan m capabilities folded
    return { plan with root := plan.root.prune }

structure Planner where
  model : Model
  capabilities : Capabilities
  cachePlans : Bool := true
  /-- The characters that keys write by number. -/
  byNumber : Char → Bool := fun _ => false
  plans : List (String × Plan) := []

namespace Planner

def key (c : Planner) (form : Mutation) : String :=
  form.printed.text c.byNumber

def find? (c : Planner) (form : Mutation) : Option Plan :=
  if c.cachePlans then c.plans.lookup (c.key form) else none

def setPlan (key : String) (plan : Plan) : List (String × Plan) → List (String × Plan)
  | [] => [(key, plan)]
  | (k, p) :: rest => if k = key then (key, plan) :: rest else (k, p) :: setPlan key plan rest

def keep (c : Planner) (form : Mutation) (plan : Plan) : Planner :=
  if c.cachePlans then { c with plans := setPlan (c.key form) plan c.plans } else c

def plan (c : Planner) (m : Mutation) : Except Planning.Error (Plan × Parameters) × Planner :=
  match m.lift with
  | .error e => (.error (.lifting e), c)
  | .ok (form, ps) =>
    -- the key is made of the form, so mutations that differ in client values share a plan
    match c.find? form with
    | some plan => (.ok (plan, ps), c)
    | none =>
      match planOf c.model c.capabilities form with
      | .error e => (.error e, c)
      | .ok plan => (.ok (plan, ps), c.keep form plan)

end Planner

end Setwise
