import Setwise.Proofs.Feeding
import Setwise.Proofs.VisibleQueries

/-!
Planned statements are well scoped.

The assignments of a mutation are to columns of the entity type that it writes to (`assigned_spec`), and their
values are planned where everything that they read is visible. So the statement that a mutation is planned as is
well scoped, and so are those that empty collections leave (`mutation_wellScoped`).
-/

set_option autoImplicit false

namespace Setwise.Planning

open Client Relational Execution

/-! ## Assignments -/

section

variable {m : Model} {subject : Subject}

mutual

theorem assignInto_spec (finite : Finite m) {type : String} {e : Entity} (entity : m.entity? type = some e)
    {path : List String} {out list : List Assignment} (body : Expr)
    (h : assignInto m subject e path body out = .ok list) :
    ∀ a ∈ list, a ∈ out ∨ a.column ∈ m.columnsOf type ∧ a.value.parts ⊆ body.parts := by
  match body with
  | .new name args bindings =>
    obtain ⟨-, -, all⟩ := assignInto_eq_ok h
    have inner : bindingsParts bindings ⊆ (Expr.new name args bindings).parts := by
      rw [Expr.parts]
      exact List.subset_cons_self _ _
    intro a member
    refine (assignAll_spec finite entity bindings all a member).imp_right fun ⟨column, parts⟩ => ?_
    exact ⟨column, List.Subset.trans parts inner⟩
  | .param _ | .member .. | .constant _ | .captured .. | .runtime _ | .binary .. | .not _ | .conditional .. =>
    exact absurd h (not_fail_eq_ok _ _)

theorem assignAll_spec (finite : Finite m) {type : String} {e : Entity} (entity : m.entity? type = some e)
    {path : List String} {out list : List Assignment} (bs : List (Binding Expr))
    (h : assignAll m subject e path bs out = .ok list) :
    ∀ a ∈ list, a ∈ out ∨ a.column ∈ m.columnsOf type ∧ a.value.parts ⊆ bindingsParts bs := by
  match bs with
  | [] =>
    obtain rfl := Except.ok.inj h
    exact fun a member => .inl member
  | b :: rest =>
    unfold assignAll at h
    obtain ⟨middle, first, second⟩ := bind_eq_ok.1 h
    have here := assignOne_spec finite entity b first
    have later := assignAll_spec finite entity rest second
    unfold bindingsParts
    intro a member
    rcases later a member with before | ⟨column, parts⟩
    · refine (here a before).imp_right fun ⟨column, parts⟩ => ⟨column, ?_⟩
      exact List.subset_append_of_subset_left _ parts
    · exact .inr ⟨column, List.subset_append_of_subset_right _ parts⟩

theorem assignOne_spec (finite : Finite m) {type : String} {e : Entity} (entity : m.entity? type = some e)
    {path : List String} {out list : List Assignment} (b : Binding Expr)
    (h : assignOne m subject e path b out = .ok list) :
    ∀ a ∈ list, a ∈ out ∨ a.column ∈ m.columnsOf type ∧ a.value.parts ⊆ bindingParts b := by
  match b with
  | .items .. => exact absurd h (not_fail_eq_ok _ _)
  | .assign member value =>
    rcases assignOne_eq_ok h with ⟨p, property, -, rfl⟩ | ⟨n, target, -, navigation, owned, known, inner⟩ <;>
      intro a inside
    · refine (List.mem_append.1 inside).imp_right fun new => ?_
      obtain rfl := List.mem_singleton.1 new
      exact ⟨mem_columnsOf entity property, List.Subset.refl _⟩
    · have own := columnsOf_owned entity (List.mem_of_find?_eq_some navigation) owned (finite _ e entity)
      refine (assignInto_spec finite known value inner a inside).imp_right fun ⟨column, parts⟩ => ?_
      exact ⟨own column, parts⟩

end

/-- A lambda that makes an instance assigns something, and all that it assigns are values in it, for columns of the
entity type. -/
theorem assigned_spec (finite : Finite m) {mutation : Mutation} {e : Entity} (entity : m.entity? e.name = some e)
    {what : String} {l : Lambda} {list : List Assignment} (h : assigned m mutation e what l = .ok list) :
    list ≠ [] ∧ ∀ a ∈ list, a.column ∈ m.columnsOf e.name ∧ a.value.parts ⊆ l.body.parts := by
  obtain ⟨-, here, some⟩ := assigned_eq_ok h
  exact ⟨some, fun a member => (assignInto_spec finite entity l.body here a member).resolve_left List.not_mem_nil⟩

theorem keyColumns_subset {type : String} {e : Entity} (entity : m.entity? type = some e) {names columns : List String}
    (h : keyColumns e names = .ok columns) : columns ⊆ m.columnsOf type := by
  induction names generalizing columns with
  | nil =>
    obtain rfl := Except.ok.inj h
    exact List.nil_subset _
  | cons name rest ih =>
    obtain ⟨p, found, h⟩ := bind_eq_ok.1 h
    obtain ⟨others, later, h⟩ := bind_eq_ok.1 h
    obtain rfl := pure_eq_ok.1 h
    exact List.cons_subset.2 ⟨mem_columnsOf entity (property_eq_ok.1 found), ih later⟩

end

/-! ## Values of assignments -/

section

variable {I : Interface} {m : Model} {incoming : List String} {v w : Workspace} {s t : Select}
  {shapes : List Shape} {scope : Scope} {list : List Assignment} {fields : List Projection}

/-- Fields hold values for the columns of some assignments, which can be read in a view. -/
structure FieldsOf (V : Outlook) (list : List Assignment) (fields : List Projection) : Prop where
  names : fields.map Projection.name = list.map Assignment.column
  visible : ∀ p ∈ fields, p.value.Visible V

theorem FieldsOf.assigns {V : Outlook} (of : FieldsOf V list fields) {columns : List String}
    (among : ∀ a ∈ list, a.column ∈ columns) : Assigns V columns fields := by
  intro p member
  have named : p.name ∈ list.map Assignment.column := of.names ▸ List.mem_map_of_mem member
  obtain ⟨a, inside, same⟩ := List.mem_map.1 named
  exact ⟨same ▸ among a inside, of.visible p member⟩

theorem FieldsOf.nonempty {V : Outlook} (of : FieldsOf V list fields) (some : list ≠ []) : fields ≠ [] := by
  rintro rfl
  exact some (List.map_eq_nil_iff.1 of.names.symm)

theorem WellPlanned.assignments (tabled : Tabled m I) (planned : WellPlanned I m v s shapes)
    (bound : ∀ a ∈ list, Bound I a.value) (inside : ∀ p ∈ scope, p.2 ∈ shapes)
    (h : Step.Yields (Planning.against s (assignedFields m scope list)) v (fields, t) w) :
    WellPlanned I m w t shapes ∧ FieldsOf (I.view (t.context I) []) list fields := by
  induction list generalizing v s shapes fields with
  | nil =>
    obtain ⟨run, rfl⟩ := against_yields.1 h
    obtain ⟨rfl, rfl⟩ := Step.yields_pure.1 run
    refine ⟨?_, rfl, fun _ h => absurd h List.not_mem_nil⟩
    cases s
    exact planned.aside _
  | cons a rest ih =>
    obtain ⟨run, rfl⟩ := against_yields.1 h
    simp only [assignedFields, Step.yields_bind, Step.yields_pure] at run
    obtain ⟨value, u, first, others, _, second, rfl, rfl⟩ := run
    obtain ⟨here, later⟩ := List.forall_mem_cons.1 bound
    have planned' := planned.scalar tabled here inside (against_yields.2 ⟨first, rfl⟩)
    -- the value stays in view among the elements at hand
    have inside' : ∀ p ∈ scope, p.2 ∈ Shape.scalar value :: shapes := fun p member =>
      List.mem_cons_of_mem _ (inside p member)
    obtain ⟨planned'', names, visible⟩ := ih planned' later inside' (against_yields.2 ⟨second, rfl⟩)
    refine ⟨planned''.subset (List.subset_cons_self _ _), congrArg (a.column :: ·) names, ?_⟩
    exact List.forall_mem_cons.2 ⟨planned''.visible _ List.mem_cons_self, visible⟩

theorem Stands.assignments (tabled : Tabled m I) (stands : Stands I m incoming v s shapes)
    (bound : ∀ a ∈ list, Bound I a.value) (inside : ∀ p ∈ scope, p.2 ∈ shapes) {mutation : Mutation}
    (h : Step.Yields (standaloneFields m mutation scope list) v fields w) :
    FieldsOf (I.view (s.context I) incoming) list fields ∧ ∃ js, w = { v with joins := js } := by
  induction list generalizing v fields with
  | nil =>
    obtain ⟨rfl, rfl⟩ := Step.yields_pure.1 h
    exact ⟨⟨rfl, fun _ h => absurd h List.not_mem_nil⟩, v.joins, rfl⟩
  | cons a rest ih =>
    simp only [standaloneFields, Step.yields_bind, Step.yields_pure] at h
    obtain ⟨value, _, first, others, _, second, rfl, rfl⟩ := h
    obtain ⟨here, later⟩ := List.forall_mem_cons.1 bound
    obtain ⟨stands', rfl⟩ := stands.standalone tabled here inside (standaloneScalar_yields first)
    obtain ⟨⟨names, visible⟩, js, rfl⟩ := ih (stands.aside []) later second
    refine ⟨⟨congrArg (a.column :: ·) names, ?_⟩, js, rfl⟩
    exact List.forall_mem_cons.2 ⟨stands'.visible _ List.mem_cons_self, visible⟩

theorem standaloneFields_closed {mutation : Mutation}
    (h : Step.Yields (standaloneFields m mutation [] list) v fields w) : ∀ p ∈ fields, p.value.sources = [] := by
  induction list generalizing v fields with
  | nil =>
    obtain ⟨rfl, rfl⟩ := Step.yields_pure.1 h
    exact fun _ h => absurd h List.not_mem_nil
  | cons a rest ih =>
    simp only [standaloneFields, Step.yields_bind, Step.yields_pure] at h
    obtain ⟨value, _, first, others, _, second, rfl, rfl⟩ := h
    have closed : value.sources = [] := closed_sources (standalone_yields (standaloneScalar_yields first)).1
    exact List.forall_mem_cons.2 ⟨closed, ih second⟩

end

/-! ## Statements -/

section

variable {I : Interface} {m : Model} {w w' : Workspace} {plan : Plan}

theorem wellScoped_writePlan {statement : Statement} {slots : List Feed}
    (write : Statement.WellScoped I statement) (feeds : ∀ feed ∈ slots, Feed.WellScoped I feed) :
    Plan.WellScoped I (writePlan statement slots) :=
  ⟨.affected write, feeds⟩

theorem mem_of_feeding {q : Query} {parameter : String} (h : feedingCollection? q = some parameter) :
    ∃ fields, LocalRows.parameter parameter fields ∈ q.collections := by
  induction q with
  | set | union => cases h
  | rows c =>
    cases c with
    | records => cases h
    | parameter name fields =>
      obtain rfl := Option.some.inj h
      exact ⟨fields, List.mem_singleton_self _⟩
  | filter _ _ ih | map _ _ ih | orderBy _ _ _ ih | take _ _ ih | skip _ _ ih | groupBy _ _ ih => exact ih h
  | join outer inner _ _ _ iho ihi =>
    rcases Option.or_eq_some_iff.1 h with first | ⟨-, second⟩
    · exact (iho first).imp fun _ => List.mem_append_left _
    · exact (ihi second).imp fun _ => List.mem_append_right _

theorem feeds_wellScoped {q : Query} {whenEmpty : Fallback}
    (literals : ∀ c ∈ q.collections, ∀ label, I.literals ⟨label, c.fields, cells c⟩)
    (h : Statement.WellScoped I whenEmpty.statement) : ∀ feed ∈ feeds q whenEmpty, Feed.WellScoped I feed := by
  intro feed member
  obtain ⟨feeding, rfl⟩ := mem_feeds member
  obtain ⟨fields, inside⟩ := mem_of_feeding feeding
  exact ⟨⟨_, literals _ inside "", rfl⟩, h⟩

theorem skip_wellScoped : Statement.WellScoped I Fallback.skip.statement :=
  .noop

/-- A bulk write goes to a stored table that has the columns of its entity type. -/
structure Targets (I : Interface) (m : Model) (table : StoredTable) (e : Entity) (columns : List String) : Prop where
  entity : m.entity? e.name = some e
  stored : I.tables table.name = some columns
  own : m.columnsOf e.name ⊆ columns

theorem Targets.entry {table : StoredTable} {e : Entity} {columns : List String} (target : Targets I m table e columns) :
    Source.entry I (.table table) = (table.label, columns) := by
  simp only [Source.entry, target.stored, Option.getD_some]

theorem targets_of_rootTable (tabled : Tabled m I) {mutation : Mutation} {s : Planned} {table : StoredTable}
    {e : Entity} (h : rootTable m mutation s = .ok (table, e)) :
    s.select.source = .table table ∧ ∃ columns, Targets I m table e columns := by
  obtain ⟨source, -, entity, named⟩ := rootTable_eq_ok h
  obtain ⟨columns, stored, own⟩ := tabled.tables e.name e entity
  exact ⟨source, columns, entity, named ▸ stored, own⟩

theorem targets_of_newTable (tabled : Tabled m I) {mutation : Mutation} {name : String} {table : StoredTable}
    {e : Entity} (h : targetEntity m mutation name = .ok e) (new : Step.Yields (newTable e) w table w') :
    ∃ columns, Targets I m table e columns := by
  obtain ⟨entity, -⟩ := targetEntity_eq_ok h
  obtain rfl := name_of_entity? entity
  obtain ⟨columns, stored, own⟩ := tabled.tables e.name e entity
  obtain ⟨-, named, -⟩ := newTable_yields new
  exact ⟨columns, entity, by rw [named]; exact stored, own⟩

theorem WellPlanned.target {table : StoredTable} {e : Entity} {columns : List String}
    (target : Targets I m table e columns) (sound : w.Sound) (new : Step.Yields (newTable e) w table w') :
    WellPlanned I m w' { source := .table table } [.entity { entity := e.name, label := table.label }] := by
  obtain ⟨fresh, -, rfl⟩ := newTable_yields new
  have unused : RowSource.label (.table table : Source) ∉ w.labels := fresh
  refine .single sound (.table target.stored) unused (fun l member => List.mem_singleton.1 member) ?_
  rw [target.entry]
  exact fun c member => Context.shows_single (target.own member)

theorem WellPlanned.joins {s : Select} {shapes : List Shape} (planned : WellPlanned I m w s shapes)
    {table : StoredTable} (source : s.source = .table table) {e : Entity} {columns : List String}
    (target : Targets I m table e columns) :
    s.context I = (table.label, columns) :: Join.entries I s.joins ∧
      Join.WellScoped I [(table.label, columns)] s.joins := by
  have joined := planned.grounded.joins
  simp only [Select.context, source, target.entry] at joined ⊢
  exact ⟨trivial, joined⟩

theorem WellPlanned.predicate {s : Select} {shapes : List Shape} (planned : WellPlanned I m w s shapes) :
    ∀ e ∈ s.predicate, e.Visible (I.view (s.context I) []) :=
  fun e found => planned.clauses e (mem_clauses.2 (.inl found))

theorem bound_of_parts {list : List Assignment} {body : Expr} {columns : List String}
    (spec : ∀ a ∈ list, a.column ∈ columns ∧ a.value.parts ⊆ body.parts) (bound : Bound I body) :
    ∀ a ∈ list, Bound I a.value :=
  fun a member name inside => bound name ((spec a member).2 inside)

variable {capabilities : Capabilities}

theorem delete_wellScoped (tabled : Tabled m I) {q : Query} (sound : w.Sound)
    (bound : ∀ e ∈ q.expressions, Bound I e)
    (literals : ∀ c ∈ q.collections, ∀ label, I.literals ⟨label, c.fields, cells c⟩)
    (h : Step.Yields (mutationPlan m capabilities (.delete q)) w plan w') : Plan.WellScoped I plan := by
  obtain ⟨s, table, e, first, root, rfl⟩ := delete_yields h
  obtain ⟨source, columns, target⟩ := targets_of_rootTable tabled root
  have planned := query_wellPlanned tabled sound bound literals first
  obtain ⟨context, joined⟩ := planned.joins source target
  refine wellScoped_writePlan (.delete target.stored joined ?_) fun _ h => absurd h List.not_mem_nil
  rw [← context]
  exact planned.predicate

theorem update_wellScoped (tabled : Tabled m I) {q : Query} {set : Lambda} (sound : w.Sound)
    (bound : ∀ e ∈ (Mutation.update q set).expressions, Bound I e)
    (literals : ∀ c ∈ q.collections, ∀ label, I.literals ⟨label, c.fields, cells c⟩)
    (h : Step.Yields (mutationPlan m capabilities (.update q set)) w plan w') : Plan.WellScoped I plan := by
  obtain ⟨s, v, table, e, list, fields, select, first, root, assigns, run, rfl⟩ := update_yields h
  obtain ⟨source, columns, target⟩ := targets_of_rootTable tabled root
  obtain ⟨bound, last⟩ := List.forall_mem_append.1 bound
  have planned := query_wellPlanned tabled sound bound literals first
  obtain ⟨-, spec⟩ := assigned_spec tabled.finite target.entity assigns
  obtain ⟨planned', values⟩ := planned.assignments tabled
    (bound_of_parts spec (last _ (List.mem_singleton_self _))) (zip_inside (List.Subset.refl _)) run
  obtain ⟨-, rfl⟩ := against_yields.1 run
  obtain ⟨context, joined⟩ := planned'.joins source target
  have assigned := values.assigns fun a member => target.own (spec a member).1
  have predicate := planned'.predicate
  rw [context] at predicate assigned
  exact wellScoped_writePlan (.update target.stored joined predicate assigned) fun _ h => absurd h List.not_mem_nil

theorem insertInto_wellScoped (tabled : Tabled m I) {q : Query} {name : String} (sound : w.Sound)
    (bound : ∀ e ∈ q.expressions, Bound I e)
    (literals : ∀ c ∈ q.collections, ∀ label, I.literals ⟨label, c.fields, cells c⟩)
    (h : Step.Yields (mutationPlan m capabilities (.insertInto q name)) w plan w') : Plan.WellScoped I plan := by
  obtain ⟨input, selector, e, list, s, v, fields, select, rfl, known, assigns, first, run, rfl⟩ :=
    insertInto_yields h
  obtain ⟨entity, -⟩ := targetEntity_eq_ok known
  obtain rfl := name_of_entity? entity
  obtain ⟨columns, stored, own⟩ := tabled.tables e.name e entity
  obtain ⟨bound, last⟩ := List.forall_mem_append.1 bound
  have planned := query_wellPlanned tabled sound bound literals first
  obtain ⟨some, spec⟩ := assigned_spec tabled.finite entity assigns
  obtain ⟨planned', values⟩ := planned.assignments tabled
    (bound_of_parts spec (last _ (List.mem_singleton_self _))) (zip_inside (List.Subset.refl _)) run
  have named : ∀ p ∈ fields, p.name ∈ columns := fun p member =>
    (values.assigns (fun a inside => own (spec a inside).1) p member).1
  exact wellScoped_writePlan (.insertInto e.schema stored (planned'.select values.visible)
    (values.nonempty some) named) (feeds_wellScoped literals skip_wellScoped)

theorem FieldsOf.mono {V W : Outlook} {list : List Assignment} {fields : List Projection} (of : FieldsOf V list fields)
    (within : V.Within W) : FieldsOf W list fields :=
  ⟨of.names, fun p member => (of.visible p member).mono within⟩

theorem updateJoin_wellScoped (tabled : Tabled m I) {mutation : Mutation} {outer inner : Query}
    {outerKey innerKey set : Lambda} {condition : Option Lambda} (sound : w.Sound)
    (bound : ∀ e ∈ (Mutation.updateJoin outer inner outerKey innerKey set condition).expressions, Bound I e)
    (literals : ∀ c ∈ outer.collections ++ inner.collections, ∀ label, I.literals ⟨label, c.fields, cells c⟩)
    (h : Step.Yields (updateJoin m mutation outer inner outerKey innerKey set condition) w plan w') :
    Plan.WellScoped I plan := by
  obtain ⟨s, v, table, e, i, u, source, shape, x, l, select, y, r, z, on, list, fields, select', z', first, root,
    second, sourced, run, alone, equal, assigns, run', last⟩ := updateJoin_yields h
  obtain ⟨bound, conditionBound⟩ := List.forall_mem_append.1 bound
  obtain ⟨bound, keysBound⟩ := List.forall_mem_append.1 bound
  obtain ⟨bound, bound'⟩ := List.forall_mem_append.1 bound
  obtain ⟨literals, literals'⟩ := List.forall_mem_append.1 literals
  simp only [List.forall_mem_cons] at keysBound
  obtain ⟨outerBound, innerBound, setBound, -⟩ := keysBound
  obtain ⟨stored, columns, target⟩ := targets_of_rootTable tabled root
  have slots := feeds_wellScoped literals' (skip_wellScoped (I := I))
  have outer := query_planned sound first
  have inner := (query_planned outer.inScope.sound second).asSource sourced
  have left := query_wellPlanned tabled sound bound literals first
  have right := (query_wellPlanned tabled outer.inScope.sound bound' literals' second).asSource sourced
  have joined := left.joinOn tabled right outer inner outerBound innerBound run alone equal
  obtain ⟨-, spec⟩ := assigned_spec tabled.finite target.entity assigns
  have among : ∀ a ∈ list, a.column ∈ columns := fun a member => target.own (spec a member).1
  obtain ⟨joined', values⟩ := joined.assignments tabled (bound_of_parts spec setBound) (zip_inside (by simp)) run'
  -- joins that come up on the way leave the target in front
  have front : select'.source = .table table := by rw [(against_yields.1 run').2, (against_yields.1 run).2, stored]
  rcases last with ⟨-, -, rfl⟩ | ⟨c, p, select'', rfl, run'', rfl⟩
  · obtain ⟨context, sources⟩ := joined'.joins front target
    have assigned := values.assigns among
    have predicate := joined'.predicate
    rw [context] at predicate assigned
    exact wellScoped_writePlan (.update target.stored sources predicate assigned) slots
  · have conditionBound := conditionBound c.body (by simp)
    obtain ⟨-, more⟩ := joined'.toStands.scalar tabled conditionBound (zip_inside (by simp)) run''
    have joined'' := joined'.scalar tabled conditionBound (zip_inside (by simp)) run''
    have front' : select''.source = .table table := by rw [(against_yields.1 run'').2, front]
    obtain ⟨context, sources⟩ := joined''.joins front' target
    have assigned := (values.mono (Outlook.within_of_prefix more [])).assigns among
    have predicate := Scalar.Visible.both joined''.predicate (joined''.visible _ List.mem_cons_self)
    rw [context] at predicate assigned
    exact wellScoped_writePlan (.update target.stored sources (by simpa using predicate) assigned) slots

theorem fields_progress {scope : Scope} {source : Source} {w w' : Workspace} {list : List Assignment}
    {fs : List Projection} (inScope : Scoped w (w.select source))
    (visible : scope.Reads (w.select source).labels)
    (run : Step.Yields (assignedFields m scope list) w fs w') : Progress source w w' := by
  induction list generalizing w fs with
  | nil =>
    obtain ⟨-, rfl⟩ := Step.yields_pure.1 run
    exact .refl inScope
  | cons a rest ih =>
    simp only [assignedFields, Step.yields_bind, scalar_yields, Step.yields_pure] at run
    obtain ⟨value, v, first, others, _, second, -, rfl⟩ := run
    obtain ⟨progress, -⟩ := expr_progress a.value inScope visible first
    exact progress.trans (ih progress.inScope (visible.later progress) second)

theorem fields_grow {s t : Select} {scope : Scope} {list : List Assignment} {fields : List Projection}
    (inScope : Scoped w s) (reads : scope.Reads s.labels)
    (h : Step.Yields (against s (assignedFields m scope list)) w (fields, t) w') : w.Grows s.labels w' := by
  obtain ⟨run, -⟩ := against_yields.1 h
  let start : Workspace := { w with joins := s.joins }
  have startScope : Scoped start (start.select s.source) :=
    (inScope.of_labels rfl rfl : Scoped start s).of_sources rfl rfl
  have progress := fields_progress startScope reads run
  exact ⟨progress.grows.labels, progress.grows.navigations⟩

/-- A clause that may be missing assigns columns of the target, and reads what can be read behind the select that it
is planned beside. -/
theorem Stands.clause (tabled : Tabled m I) {incoming : List String} {s : Select} {shapes args : List Shape}
    (stands : Stands I m incoming w s shapes) {table : StoredTable} {e : Entity} {columns : List String}
    (target : Targets I m table e columns) {mutation : Mutation} {what : String} {clause : Option Lambda}
    {fields : Option (List Projection)} (bound : ∀ l ∈ clause, Bound I l.body) (inside : args ⊆ shapes)
    (h : clause = none ∧ fields = none ∧ w = w' ∨
      ∃ l list fs, clause = some l ∧ fields = some fs ∧ assigned m mutation e what l = .ok list ∧
        Step.Yields (standaloneFields m mutation (l.params.zip args) list) w fs w') :
    (∀ set ∈ fields, Assigns (I.view (s.context I) incoming) columns set) ∧ ∃ js, w' = { w with joins := js } := by
  rcases h with ⟨-, rfl, rfl⟩ | ⟨l, list, fs, rfl, rfl, assigns, run⟩
  · exact ⟨by simp, w.joins, rfl⟩
  · obtain ⟨-, spec⟩ := assigned_spec tabled.finite target.entity assigns
    obtain ⟨values, moved⟩ :=
      stands.assignments tabled (bound_of_parts spec (bound l rfl)) (zip_inside inside) run
    refine ⟨fun set found => ?_, moved⟩
    obtain rfl := Option.some.inj found
    exact values.assigns fun a member => target.own (spec a member).1

theorem mem_of_effective {update : Option Lambda} {l : Lambda} (h : l ∈ effectiveUpdate? update) : l ∈ update :=
  Option.eq_some_of_filter_eq_some h

theorem upsertSource_wellScoped (tabled : Tabled m I) {mutation : Mutation} {list : List Assignment}
    {insert : Lambda} {source : Option Query} {select : Option Select} {fields : List Projection}
    {table : Select} {shapes : List Shape} (stands : Stands I m [] w table shapes)
    (bound : ∀ e ∈ source.elim [] Query.expressions, Bound I e)
    (literals : ∀ c ∈ source.elim [] Query.collections, ∀ label, I.literals ⟨label, c.fields, cells c⟩)
    (values : ∀ a ∈ list, Bound I a.value)
    (h : Step.Yields (upsertSource m mutation list insert source) w (select, fields) w') :
    Stands I m [] w' table shapes ∧ (∀ s ∈ select, Select.WellScoped I s) ∧
      FieldsOf (I.view (select.elim [] (Select.context I)) []) list fields := by
  rcases upsertSource_yields h with ⟨q, s, v, t, rfl, rfl, first, run⟩ | ⟨rfl, rfl, run⟩
  · have planned := query_planned stands.inScope.sound first
    have well := query_wellPlanned tabled stands.inScope.sound bound literals first
    obtain ⟨well', fields'⟩ := well.assignments tabled values (zip_inside (List.Subset.refl _)) run
    have reads : Scope.Reads (insert.params.zip [s.shape]) s.select.labels := reads_single planned.shape _
    have grows := fields_grow planned.inScope reads run
    -- the table that is written keeps its label while the source is planned
    have between := stands.meanwhile planned.grows planned.inScope.sound fun _ _ h => absurd h List.not_mem_nil
    refine ⟨between.meanwhile grows well'.inScope.sound fun l member inside => ?_, fun u same => ?_, fields'⟩
    · exact planned.fresh l inside (stands.inScope.known l member)
    · obtain rfl := Option.some.inj same
      have nothing : ∀ c ∈ t.projection, c.value.Visible (I.view (t.context I) []) := by simp [well'.projection]
      have whole := well'.select nothing
      cases t
      exact whole
  · have none : ∀ p ∈ insert.params.zip ([] : List Shape), p.2 ∈ shapes := by simp
    obtain ⟨fields', js, rfl⟩ := stands.assignments tabled values none run
    rw [List.zip_nil_right] at run
    have closed := standaloneFields_closed run
    refine ⟨stands.aside js, by simp, fields'.names, fun p member => ?_⟩
    exact visible_of_closed (closed p member) (fields'.visible p member)

theorem upsert_wellScoped (tabled : Tabled m I) {mutation : Mutation} {name : String} {source : Option Query}
    {insert : Lambda} {update : Option Lambda} (sound : w.Sound)
    (bound : ∀ e ∈ (Mutation.upsert name source insert update).expressions, Bound I e)
    (literals : ∀ c ∈ source.elim [] Query.collections, ∀ label, I.literals ⟨label, c.fields, cells c⟩)
    (h : Step.Yields (upsert m mutation name source insert update) w plan w') : Plan.WellScoped I plan := by
  obtain ⟨e, table, v, list, key, select, fields, x, updated, conflictColumns, known, new, assigns, -, inserted,
    conflict, keys, rfl⟩ := upsert_yields h
  obtain ⟨bound, updateBound⟩ := List.forall_mem_append.1 bound
  obtain ⟨bound, insertBound⟩ := List.forall_mem_append.1 bound
  obtain ⟨columns, target⟩ := targets_of_newTable tabled known new
  obtain ⟨-, spec⟩ := assigned_spec tabled.finite target.entity assigns
  have among : ∀ a ∈ list, a.column ∈ columns := fun a member => target.own (spec a member).1
  have values := bound_of_parts spec (insertBound _ (List.mem_singleton_self _))
  obtain ⟨stands, rows, inserts⟩ := upsertSource_wellScoped tabled (WellPlanned.target target sound new).toStands
    bound literals values inserted
  -- the conflict clause sees the stored row and, beside it, the row that was to be inserted
  have existing := stands.with_incoming e.name (fields.map Projection.name)
  have view : ({ source := .table table } : Select).context I = [(table.label, columns)] :=
    congrArg ([·]) target.entry
  have updateBound : ∀ l ∈ effectiveUpdate? update, Bound I l.body := fun l effective =>
    updateBound l.body (List.mem_map_of_mem (Option.mem_toList.2 (mem_of_effective effective)))
  obtain ⟨updates, -⟩ := existing.clause tabled target updateBound (by simp) (conflictFields_yields conflict)
  rw [view] at updates
  refine wellScoped_writePlan (.upsert key.name target.stored rows (inserts.assigns among) updates ?_) ?_
  · exact List.Subset.trans (keyColumns_subset target.entity keys) target.own
  · cases source with
    | none => exact fun _ h => absurd h List.not_mem_nil
    | some q => exact feeds_wellScoped literals skip_wellScoped

theorem merge_wellScoped (tabled : Tabled m I) {mutation : Mutation} {name : String} {source : Query}
    {targetKey sourceKey : Lambda} {update insert : Option Lambda} {delete : Bool} (sound : w.Sound)
    (bound : ∀ e ∈ (Mutation.merge name source targetKey sourceKey update insert delete).expressions, Bound I e)
    (literals : ∀ c ∈ source.collections, ∀ label, I.literals ⟨label, c.fields, cells c⟩)
    (h : Step.Yields
      (merge m capabilities mutation name source targetKey sourceKey update insert delete) w plan w') :
    Plan.WellScoped I plan := by
  obtain ⟨e, table, v, s, u, rows, shape, x, l, y, r, z, on, matched, z', inserted, known, new, first, sourced,
    here, there, equal, updated, last, rfl⟩ := merge_yields h
  obtain ⟨bound, insertBound⟩ := List.forall_mem_append.1 bound
  obtain ⟨bound, updateBound⟩ := List.forall_mem_append.1 bound
  obtain ⟨bound, keysBound⟩ := List.forall_mem_append.1 bound
  simp only [List.forall_mem_cons] at keysBound
  obtain ⟨targetBound, sourceBound, -⟩ := keysBound
  obtain ⟨columns, target⟩ := targets_of_newTable tabled known new
  have table' := (WellPlanned.target target sound new).toStands
  have planned := (query_planned table'.inScope.sound first).asSource sourced
  have left := table'.meanwhile planned.grows planned.inScope.sound fun _ _ h => absurd h List.not_mem_nil
  have right := ((query_wellPlanned tabled table'.inScope.sound bound literals first).asSource sourced).toStands
  have apart : rows.label ∉ ({ source := .table table } : Select).labels := fun member =>
    planned.fresh _ (List.mem_singleton_self _) (table'.inScope.known _ member)
  obtain ⟨left', rfl⟩ := left.standalone tabled targetBound (zip_inside (by simp)) here
  obtain ⟨right', rfl⟩ := (right.aside []).standalone tabled sourceBound (zip_inside (List.Subset.refl _)) there
  have view : ({ source := .table table } : Select).context I ++ [Source.entry I rows] =
      [(table.label, columns), Source.entry I rows] := by
    rw [← target.entry]
    rfl
  have beside := (left'.aside []).beside right' apart
  have equated : on.Visible (I.view (({ source := .table table } : Select).context I ++ [Source.entry I rows]) []) :=
    (ofOperands_visible m _).equality (beside l (by simp)) (beside r (by simp)) equal
  -- the clauses of a merge are planned as if the source had joined the target
  have both := (left'.aside []).joined right' apart .inner (some on) (by simpa using equated)
  have updateBound : ∀ l ∈ effectiveUpdate? update, Bound I l.body := fun l effective =>
    updateBound l.body (List.mem_map_of_mem (Option.mem_toList.2 (mem_of_effective effective)))
  have insertBound : ∀ l ∈ insert, Bound I l.body := fun l given =>
    insertBound l.body (List.mem_map_of_mem (Option.mem_toList.2 given))
  obtain ⟨updates, js, rfl⟩ :=
    (both.aside []).clause tabled target updateBound (by simp) (clauseFields_yields updated)
  obtain ⟨inserts, -⟩ := (right.aside js).clause tabled target insertBound (List.Subset.refl _)
    (clauseFields_yields last)
  have sources : Source.WellScoped I rows := right.grounded.source
  rw [context_joined] at updates
  rw [view] at equated
  have updates : ∀ set ∈ matched, Assigns (I.view [(table.label, columns), Source.entry I rows] []) columns set := by
    rw [← view]
    exact updates
  refine wellScoped_writePlan (.merge delete target.stored sources equated updates inserts) (feeds_wellScoped literals ?_)
  cases delete with
  | true => exact .truncate target.stored
  | false => exact .noop

/-- Planning a mutation gives well-scoped statements, when its runtime parameters hold single values and its
collections rows. -/
theorem mutation_wellScoped (tabled : Tabled m I) {mutation : Mutation} (sound : w.Sound)
    (bound : ∀ e ∈ mutation.expressions, Bound I e)
    (literals : ∀ c ∈ mutation.collections, ∀ label, I.literals ⟨label, c.fields, cells c⟩)
    (h : Step.Yields (mutationPlan m capabilities mutation) w plan w') : Plan.WellScoped I plan := by
  cases mutation with
  | delete q => exact delete_wellScoped tabled sound bound literals h
  | update q set => exact update_wellScoped tabled sound bound literals h
  | updateJoin => exact updateJoin_wellScoped tabled sound bound literals h
  | insertInto q target => exact insertInto_wellScoped tabled sound bound literals h
  | upsert => exact upsert_wellScoped tabled sound bound literals h
  | merge => exact merge_wellScoped tabled sound bound literals h

end

end Setwise.Planning
