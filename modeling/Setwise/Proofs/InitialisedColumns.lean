import Setwise.Proofs.FlatInitialisers
import Setwise.Proofs.GatheredJoins
import Setwise.Proofs.Initialisers

/-!
Initialisers as lambdas that return columns.

A write plans the leaves of an initialiser one by one, each with its column. Together they are planned like one lambda that
returns a record of the columns (`Lambda.byColumn`), so that what holds of lambdas holds of the values that are written.
-/

set_option autoImplicit false

namespace Setwise

open Client Relational Execution Planning

namespace Client

section

variable (m : Model)

/-- The leaves of an initialiser that names the type of its entity. -/
def Lambda.leaves (l : Lambda) : List Assignment :=
  match l.body with
  | .new (some type) _ _ => (m.entity? type).elim [] fun e => Planning.leaves m e l.body
  | _ => []

def Lambda.columns (l : Lambda) : List String :=
  (l.leaves m).map Assignment.column

def columnBindings (list : List Assignment) : List (Binding Expr) :=
  list.map fun a => .assign a.column a.value

/-- The lambda that returns a record of what an initialiser assigns to columns. -/
def Lambda.byColumn (l : Lambda) : Lambda :=
  ⟨l.params, .new none [] (columnBindings (l.leaves m))⟩

/-- The values that an initialiser assigns to its columns for these arguments. -/
def Lambda.writes (db : Database) (ps : Parameters) (l : Lambda) (nulls : List Nulls) (args : List Element) : Option Row :=
  ((l.byColumn m).gives m db ps nulls args).bind Element.row?

/-- Projected in the frame, the fields have the values that the initialiser assigns for these elements. -/
structure Lambda.Assigns (db : Database) (env : Environment) (f : Frame) (l : Lambda) (nulls : List Nulls)
    (args : List Element) (fields : List Projection) : Prop where
  columns : assignedColumns fields = l.columns m
  values : (project env f fields).toOption = l.writes m db env.parameters nulls args

end

end Client

namespace Planning

/-- The record of the values that are assigned. -/
def fieldsShape (fields : List Projection) : Shape :=
  .record (fields.map fun p => (p.name, .scalar p.value))

section

variable {m : Model} {db : Database} {mutation : Mutation} {e : Entity} {what : String} {l : Lambda}
  {list : List Assignment} {fields : List Projection} {scope : Scope} {v w : Workspace}

theorem leaves_of_assigned (h : assigned m mutation e what l = .ok list) (known : m.entity? e.name = some e) :
    l.leaves m = list := by
  obtain ⟨⟨args, bindings, body⟩, assigns, -⟩ := assigned_eq_ok h
  obtain ⟨-, flat⟩ := initialises_of_assignInto l.body assigns
  rw [Assignment.behind_nil, List.map_id, List.nil_append] at flat
  simp only [Lambda.leaves, body, known, Option.elim_some]
  rw [flat, body]

theorem fieldsShape_scalars (subject : Subject) :
    (fieldsShape fields).scalars subject = .ok (fields.map Projection.value) := by
  unfold fieldsShape Shape.scalars
  induction fields with
  | nil => rfl
  | cons p rest ih => exact bind_eq_ok.2 ⟨_, rfl, bind_eq_ok.2 ⟨_, ih, rfl⟩⟩

theorem fieldsShape_row (env : Environment) (f : Frame) :
    ((fieldsShape fields).element m env f).row? = (project env f fields).toOption :=
  (scalars_row (fieldsShape_scalars (.query (.set ""))) f).symm

theorem assignedFields_record {whole : Expr} (run : Step.Yields (assignedFields m scope list) v fields w) :
    Step.Yields (fieldList m scope whole (columnBindings list)) v (fields.map fun p => (p.name, .scalar p.value)) w := by
  induction list generalizing v fields with
  | nil =>
    obtain ⟨rfl, rfl⟩ := Step.yields_pure.1 run
    exact noFields_yields.2 ⟨rfl, rfl⟩
  | cons a rest ih =>
    simp only [assignedFields, Step.yields_bind, scalar_yields, Step.yields_pure] at run
    obtain ⟨value, u, first, others, _, second, rfl, rfl⟩ := run
    exact assign_yields.2 ⟨_, u, _, first, ih second, rfl⟩

theorem byColumn_against {args : List Shape} {s select : Select} (leaves : l.leaves m = list)
    (run : Step.Yields (against s (assignedFields m (l.params.zip args) list)) v (fields, select) w) :
    Step.Yields (against s (expr m ((l.byColumn m).params.zip args) (l.byColumn m).body)) v (fieldsShape fields, select) w := by
  subst leaves
  obtain ⟨planned, rfl⟩ := against_yields.1 run
  exact against_yields.2 ⟨new_yields.2 ⟨rfl, _, assignedFields_record planned, rfl⟩, rfl⟩

/-! ## Where nothing can be joined -/

section

variable (leads : LeadsOn m db) {labels : List String} (unread : ∀ entry ∈ v.navigations, entry.1.1 ∉ labels)
include leads unread

theorem standaloneFields_record (visible : scope.Reads labels)
    (run : Step.Yields (standaloneFields m mutation scope list) v fields w) (whole : Expr) :
    Step.Yields (fieldList m scope whole (columnBindings list)) { v with joins := [] }
      (fields.map fun p => (p.name, .scalar p.value)) { v with joins := [] } ∧ w = { v with joins := w.joins } := by
  induction list generalizing v fields with
  | nil =>
    obtain ⟨rfl, rfl⟩ := Step.yields_pure.1 run
    exact ⟨noFields_yields.2 ⟨rfl, rfl⟩, rfl⟩
  | cons a rest ih =>
    simp only [standaloneFields, Step.yields_bind, Step.yields_pure] at run
    obtain ⟨value, u, first, others, _, second, rfl, rfl⟩ := run
    obtain ⟨planned, still⟩ := standalone_yields (standaloneScalar_yields first)
    obtain ⟨rfl, -⟩ := expr_standalone (w := { v with joins := [] }) a.value leads unread visible planned still
    obtain ⟨later, same⟩ := ih (v := { v with joins := [] }) unread second
    exact ⟨assign_yields.2 ⟨_, _, _, planned, later, rfl⟩, same⟩

theorem standaloneFields_writes {args : List Shape} (leaves : l.leaves m = list)
    (visible : ∀ a ∈ args, ∀ k ∈ a.labels, k ∈ labels)
    (run : Step.Yields (standaloneFields m mutation (l.params.zip args) list) v fields w) (env : Environment) (f : Frame) :
    (project env f fields).toOption =
      l.writes m db env.parameters (args.map Shape.isNullAt) (args.map (Shape.element m env f)) := by
  subst leaves
  obtain ⟨record, -⟩ := standaloneFields_record leads unread (reads_zip visible) run (l.byColumn m).body
  have planned := new_yields.2 ⟨rfl, _, record, rfl⟩
  obtain ⟨-, -, value⟩ := expr_standalone (w := { v with joins := [] }) (l.byColumn m).body leads unread (reads_zip visible)
    planned rfl
  have value := value env f
  rw [plannedAsNull_zip, fieldElements_zip] at value
  rw [← fieldsShape_row (m := m), Lambda.writes, Lambda.gives]
  exact (congrArg (Option.bind · Element.row?) value).symm

theorem ClauseYields.writes {args : List Shape} {clause : Option Lambda} {set : Option (List Projection)}
    (known : m.entity? e.name = some e) (visible : ∀ a ∈ args, ∀ k ∈ a.labels, k ∈ labels)
    (run : ClauseYields m mutation e what args clause v set w) :
    Option.Rel (fun l fields => ∀ env f, l.Assigns m db env f (args.map Shape.isNullAt) (args.map (Shape.element m env f)) fields)
        clause set ∧
      w.navigations = v.navigations := by
  obtain ⟨rfl, rfl, rfl⟩ | ⟨l, list, fields, rfl, rfl, assigns, run⟩ := run
  · exact ⟨.none, rfl⟩
  · have leaves := leaves_of_assigned assigns known
    obtain ⟨-, same⟩ := standaloneFields_record leads unread (reads_zip visible) run l.body
    refine ⟨.some fun env f => ⟨?_, standaloneFields_writes leads unread leaves visible run env f⟩, by rw [same]⟩
    rw [assignedColumns, standaloneFields_names run, Lambda.columns, leaves]

end

end

end Planning

end Setwise
