import Setwise.Proofs.Exposure
import Setwise.Proofs.Fallbacks
import Setwise.Proofs.Parts
import Setwise.Proofs.PlannedMutations

/-!
The names in a plan are distinct.

Labels that are handed out one after the other differ (`HandsOut.nodup`). Planning keeps up that the sources that it has
made so far have labels of their own, all of them in use, beside any other sources of which the same is true (`InUse`),
so that a plan does not label two sources alike, whatever their depth, and no subquery has two columns of one name
(`generated_names_distinct`).
-/

set_option autoImplicit false

namespace Setwise.Relational

/-! ## The sources of a plan -/

mutual

/-- The sources of a select and of the selects below it. -/
def Select.sources (s : Select) : List Source :=
  match s with
  | { source, joins, union, .. } =>
    Source.sources source ++ Join.sourcesAll joins ++ Select.sourcesOption union

def Source.sources (s : Source) : List Source :=
  match s with
  | .table ref => [.table ref]
  | .literal v => [.literal v]
  | .subquery select label => .subquery select label :: select.sources

def Join.sourcesAll (js : List (Join Select)) : List Source :=
  match js with
  | [] => []
  | j :: rest => Join.sources j ++ Join.sourcesAll rest

def Join.sources (j : Join Select) : List Source :=
  match j with
  | { source, .. } => Source.sources source

def Select.sourcesOption (s : Option Select) : List Source :=
  match s with
  | none => []
  | some select => select.sources

end

/-- The sources of a statement, its target among them where that has a label. -/
def Statement.sources : Statement → List Source
  | .delete table _ joins | .update table _ _ joins => .table table :: Join.sourcesAll joins
  | .insertInto _ _ select => select.sources
  | .upsert table source .. => .table table :: Select.sourcesOption source
  | .merge table source .. => .table table :: Source.sources source
  | .truncate table => [.table table]
  | .noop => []

def Block.sources : Block → List Source
  | .select s => s.sources
  | .affected s => s.sources

/-- The columns of the select, and those of the select united with it, have names of their own. -/
structure Select.DistinctColumns (s : Select) : Prop where
  own : (s.projection.map Projection.name).Nodup
  united : ∀ u ∈ s.union, (u.projection.map Projection.name).Nodup

/-- The sources have labels of their own, and the columns of each subquery have names of their own. -/
structure Distinguished (sources : List Source) : Prop where
  labels : (sources.map RowSource.label).Nodup
  columns : ∀ s l, .subquery s l ∈ sources → s.DistinctColumns

theorem sources_eq (s : Select) :
    s.sources = Source.sources s.source ++ Join.sourcesAll s.joins ++ Select.sourcesOption s.union := by
  cases s
  rfl

theorem sources_bare (source : Source) : ({ source } : Select).sources = Source.sources source := by
  rw [sources_eq, Join.sourcesAll, Select.sourcesOption, List.append_nil, List.append_nil]

theorem join_sources_eq (j : Join Select) : Join.sources j = Source.sources j.source := by
  cases j
  rfl

theorem sourcesAll_append (js ks : List (Join Select)) :
    Join.sourcesAll (js ++ ks) = Join.sourcesAll js ++ Join.sourcesAll ks := by
  induction js with
  | nil => rfl
  | cons j rest ih => rw [List.cons_append, Join.sourcesAll, Join.sourcesAll, ih, List.append_assoc]

theorem sourcesAll_singleton (j : Join Select) : Join.sourcesAll [j] = Source.sources j.source := by
  rw [Join.sourcesAll, Join.sourcesAll, List.append_nil, join_sources_eq]

theorem sources_perm (s : Select) (rest : List Source) :
    (s.sources ++ rest).Perm
      (Join.sourcesAll s.joins ++ (Source.sources s.source ++ (Select.sourcesOption s.union ++ rest))) := by
  rw [sources_eq, List.append_assoc, List.append_assoc]
  exact List.perm_append_comm_assoc _ _ _

theorem sources_join_perm (s : Select) (j : Join Select) (rest : List Source) :
    (Source.sources j.source ++ (s.sources ++ rest)).Perm
      (({ s with joins := s.joins ++ [j] } : Select).sources ++ rest) := by
  refine ((sources_perm s rest).append_left _).trans (.trans ?_ (sources_perm _ rest).symm)
  rw [sourcesAll_append, sourcesAll_singleton, List.append_assoc]
  exact List.perm_append_comm_assoc _ _ _

/-! ### Pruning -/

theorem label_prune (s : Source) : (Source.prune s).label = s.label := by
  cases s <;> rfl

mutual

theorem Select.sources_prune (s : Select) : s.prune.sources = s.sources.map Source.prune := by
  obtain ⟨source, joins, _, _, _, _, union, _, _, _⟩ := s
  rw [Select.prune, Select.sources, Select.sources, List.map_append, List.map_append, Source.sources_prune source,
    Join.sourcesAll_pruneAll joins, Select.sourcesOption_prune union]

theorem Source.sources_prune (s : Source) :
    Source.sources (Source.prune s) = (Source.sources s).map Source.prune := by
  match s with
  | .table ref => rfl
  | .literal v => rfl
  | .subquery select label =>
    rw [Source.prune, Source.sources, Source.sources, List.map_cons, Select.sources_prune select]
    rfl

theorem Join.sourcesAll_pruneAll (js : List (Join Select)) :
    Join.sourcesAll (Join.pruneAll js) = (Join.sourcesAll js).map Source.prune := by
  match js with
  | [] => rfl
  | j :: rest =>
    rw [Join.pruneAll, Join.sourcesAll, Join.sourcesAll, List.map_append, Join.sources_prune j,
      Join.sourcesAll_pruneAll rest]

theorem Join.sources_prune (j : Join Select) : Join.sources (Join.prune j) = (Join.sources j).map Source.prune := by
  obtain ⟨kind, source, on⟩ := j
  rw [Join.prune, Join.sources, Join.sources, Source.sources_prune source]

theorem Select.sourcesOption_prune (s : Option Select) :
    Select.sourcesOption (Select.pruneOption s) = (Select.sourcesOption s).map Source.prune := by
  match s with
  | none => rfl
  | some select => rw [Select.pruneOption, Select.sourcesOption, Select.sourcesOption, Select.sources_prune select]

end

theorem Block.sources_prune (b : Block) : b.prune.sources = b.sources.map Source.prune := by
  cases b with
  | select s => exact s.sources_prune
  | affected s =>
    cases s with
    | delete table _ joins | update table _ _ joins =>
      exact congrArg (RowSource.table table :: ·) (Join.sourcesAll_pruneAll joins)
    | insertInto _ _ select => exact select.sources_prune
    | upsert table source => exact congrArg (RowSource.table table :: ·) (Select.sourcesOption_prune source)
    | merge table source => exact congrArg (RowSource.table table :: ·) (Source.sources_prune source)
    | truncate table => rfl
    | noop => rfl

theorem Select.DistinctColumns.prune {s : Select} (h : s.DistinctColumns) : s.prune.DistinctColumns where
  own := by
    rw [prune_projection]
    exact h.own
  united := fun u found => by
    rw [prune_union, pruneOption_eq_map] at found
    obtain ⟨v, united, rfl⟩ := Option.mem_map.1 found
    rw [prune_projection]
    exact h.united v united

theorem Distinguished.prune {sources : List Source} (h : Distinguished sources) :
    Distinguished (sources.map Source.prune) where
  labels := by
    have same : RowSource.label ∘ Source.prune = RowSource.label := funext label_prune
    rw [List.map_map, same]
    exact h.labels
  columns := fun s l member => by
    obtain ⟨source, inside, same⟩ := List.mem_map.1 member
    cases source with
    | table | literal => cases same
    | subquery t k =>
      cases same
      exact (h.columns t l inside).prune

end Setwise.Relational

namespace Setwise.Planning

open Client Relational

/-! ## Labels in use -/

structure InUse (used : List String) (sources : List Source) : Prop extends Distinguished sources where
  known : ∀ s ∈ sources, s.label ∈ used

section

variable {used : List String} {before after rest : List Source} {s t : Select}

theorem InUse.nil (used : List String) : InUse used [] where
  labels := List.nodup_nil
  columns := fun _ _ member => absurd member List.not_mem_nil
  known := fun _ member => absurd member List.not_mem_nil

theorem InUse.perm (h : InUse used before) (same : before.Perm after) : InUse used after where
  labels := (same.map _).nodup h.labels
  columns := fun s l member => h.columns s l (same.mem_iff.2 member)
  known := fun s member => h.known s (same.mem_iff.2 member)

theorem InUse.swap (h : InUse used (before ++ (after ++ rest))) : InUse used (after ++ (before ++ rest)) :=
  h.perm (List.perm_append_comm_assoc _ _ _)

theorem InUse.add (h : InUse used rest) (source : Source) (fresh : source.label ∉ used)
    (columns : ∀ s l, source = .subquery s l → s.DistinctColumns) :
    InUse (used ++ [source.label]) (source :: rest) where
  labels := by
    refine List.nodup_cons.2 ⟨fun again => ?_, h.labels⟩
    obtain ⟨other, member, same⟩ := List.mem_map.1 again
    exact fresh (same ▸ h.known other member)
  columns := fun s l member => (List.mem_cons.1 member).elim (fun same => columns s l same.symm) (h.columns s l)
  known := List.forall_mem_cons.2
    ⟨List.mem_append_right _ (List.mem_singleton_self _), fun s member => List.mem_append_left _ (h.known s member)⟩

theorem InUse.same (h : InUse used (s.sources ++ rest)) (source : t.source = s.source) (joins : t.joins = s.joins)
    (union : t.union = s.union) : InUse used (t.sources ++ rest) := by
  rw [sources_eq, source, joins, union, ← sources_eq]
  exact h

theorem InUse.only (source : Source) (h : InUse used (Source.sources source ++ rest)) (only : s = { source }) :
    InUse used (s.sources ++ rest) := by
  rw [only, sources_bare]
  exact h

theorem InUse.subquery (h : InUse used (s.sources ++ rest)) {label : String} (fresh : label ∉ used)
    (columns : s.DistinctColumns) :
    InUse (used ++ [label]) (({ source := .subquery s label } : Select).sources ++ rest) := by
  rw [sources_bare]
  refine h.add (.subquery s label) fresh fun t l same => ?_
  obtain ⟨rfl, -⟩ := RowSource.subquery.inj same
  exact columns

/-- A source that is told apart from a select joins it. -/
theorem InUse.join {j : Join Select} (h : InUse used (Source.sources j.source ++ (s.sources ++ rest))) :
    InUse used (({ s with joins := s.joins ++ [j] } : Select).sources ++ rest) :=
  h.perm (sources_join_perm s j rest)

end

/-! ## Expressions -/

def KeepsApart (w w' : Workspace) : Prop :=
  ∀ rest, InUse w.labels (Join.sourcesAll w.joins ++ rest) → InUse w'.labels (Join.sourcesAll w'.joins ++ rest)

section

variable {m : Model} {w w' : Workspace} {scope : Scope}

theorem KeepsApart.follow {owner : Entity} {r : EntityView} {n : Navigation} {foreignKey principalKey : List String}
    {required : Bool} {t : Shape} (h : Step.Yields (follow m owner r n foreignKey principalKey required) w t w') :
    KeepsApart w w' := by
  intro rest before
  obtain ⟨label, -, ⟨-, rfl⟩ | ⟨fresh, target, on, -, -, rfl⟩⟩ := follow_yields h
  · exact before
  · -- the new label is told apart from the joins there are, though the table comes behind them
    have more := before.add (.table ⟨target.table, target.schema, label⟩) fresh nofun
    refine more.perm ?_
    rw [sourcesAll_append, sourcesAll_singleton, List.append_assoc]
    exact List.perm_middle.symm

theorem KeepsApart.onward (m : Model) : Onward m KeepsApart where
  refl := fun _ _ before => before
  trans := fun first second rest before => second rest (first rest before)
  follow := .follow

theorem KeepsApart.expr {e : Expr} {s : Shape} (h : Step.Yields (expr m scope e) w s w') : KeepsApart w w' :=
  (KeepsApart.onward m).expr h

theorem KeepsApart.scalar {e : Expr} {c : Scalar} (h : Step.Yields (scalar m scope e) w c w') : KeepsApart w w' :=
  .expr (scalar_yields.1 h)

theorem KeepsApart.assignedFields {list : List Assignment} {fields : List Projection}
    (h : Step.Yields (assignedFields m scope list) w fields w') : KeepsApart w w' := by
  induction list generalizing w fields with
  | nil =>
    obtain ⟨-, rfl⟩ := Step.yields_pure.1 h
    exact fun _ before => before
  | cons a rest ih =>
    unfold Planning.assignedFields at h
    simp only [Step.yields_bind, Step.yields_pure] at h
    obtain ⟨value, v, first, others, _, later, -, rfl⟩ := h
    exact fun more before => ih later more (KeepsApart.scalar first more before)

variable {rest : List Source}

/-- What is planned against a select leaves the sources of the select told apart. -/
theorem InUse.against {α : Type} {s t : Select} {x : Step α} {a : α} (before : InUse w.labels (s.sources ++ rest))
    (h : Step.Yields (against s x) w (a, t) w')
    (keeps : ∀ {v}, Step.Yields x v a w' → KeepsApart v w') : InUse w'.labels (t.sources ++ rest) := by
  obtain ⟨run, rfl⟩ := against_yields.1 h
  exact (keeps run _ (before.perm (sources_perm s rest))).perm (sources_perm { s with joins := w'.joins } rest).symm

theorem InUse.standalone {subject : Subject} {e : Expr} {s : Shape} (before : InUse w.labels rest)
    (h : Step.Yields (standalone m scope subject e) w s w') : InUse w'.labels rest := by
  obtain ⟨run, joins⟩ := standalone_yields h
  have after := KeepsApart.expr run rest before
  rw [joins] at after
  exact after

theorem InUse.standaloneFields {mutation : Mutation} {list : List Assignment} {fields : List Projection}
    (before : InUse w.labels rest) (h : Step.Yields (standaloneFields m mutation scope list) w fields w') :
    InUse w'.labels rest := by
  induction list generalizing w fields with
  | nil =>
    obtain ⟨-, rfl⟩ := Step.yields_pure.1 h
    exact before
  | cons a list ih =>
    unfold Planning.standaloneFields at h
    simp only [Step.yields_bind, Step.yields_pure] at h
    obtain ⟨value, v, first, others, _, later, -, rfl⟩ := h
    exact ih (before.standalone (standaloneScalar_yields first)) later

theorem InUse.clause {mutation : Mutation} {e : Entity} {what : String} {args : List Shape} {clause : Option Lambda}
    {fields : Option (List Projection)} (before : InUse w.labels rest)
    (h : ClauseYields m mutation e what args clause w fields w') : InUse w'.labels rest := by
  obtain ⟨-, -, rfl⟩ | ⟨_, _, _, -, -, -, run⟩ := h
  · exact before
  · exact before.standaloneFields run

end

/-! ## Queries -/

section

variable {m : Model} {w w' : Workspace} {rest : List Source} {subject : Subject} {p : Planned}

theorem expose_distinct {label : String} {hint : Option String} {s t : Shape} {columns : List Projection}
    (h : s.expose m subject label hint [] = .ok (t, columns)) : (columns.map Projection.name).Nodup :=
  (exposed_of_expose h).distinct List.nodup_nil

theorem InUse.newTable {e : Entity} {t : StoredTable} (before : InUse w.labels rest)
    (h : Step.Yields (newTable e) w t w') : InUse w'.labels (.table t :: rest) := by
  obtain ⟨fresh, -, rfl⟩ := newTable_yields h
  exact before.add (.table t) fresh nofun

theorem InUse.wrap {s : Planned} (single : s.select.union = none) (before : InUse w.labels (s.select.sources ++ rest))
    (h : Step.Yields (wrap m subject s) w p w') : InUse w'.labels (p.select.sources ++ rest) := by
  obtain ⟨label, shape, columns, fresh, rfl, exposed, rfl⟩ := wrap_yields h
  have inside := before.same (t := { s.select with projection := columns }) rfl rfl rfl
  exact inside.subquery fresh ⟨expose_distinct exposed, by simp [single]⟩

theorem InUse.wrapIf {needed : Bool} {s : Planned} (single : s.select.union = none)
    (before : InUse w.labels (s.select.sources ++ rest)) (h : Step.Yields (wrapIf m subject needed s) w p w') :
    InUse w'.labels (p.select.sources ++ rest) := by
  obtain ⟨-, wrapped⟩ | ⟨-, rfl, rfl⟩ := wrapIf_yields h
  · exact before.wrap single wrapped
  · exact before

theorem InUse.asSource {s : Planned} {source : Source} {shape : Shape} (single : s.select.union = none)
    (before : InUse w.labels (s.select.sources ++ rest))
    (h : Step.Yields (asSource m subject s) w (source, shape) w') :
    InUse w'.labels (Source.sources source ++ rest) := by
  obtain ⟨p, wrapped, only, -⟩ := asSource_yields h
  have after := before.wrapIf single wrapped
  rw [only, sources_bare] at after
  exact after

theorem InUse.unite {l r : Planned} (single : l.select.union = none)
    (before : InUse w.labels (l.select.sources ++ (r.select.sources ++ rest)))
    (h : Step.Yields (unite m subject l r) w p w') : InUse w'.labels (p.select.sources ++ rest) := by
  obtain ⟨label, shape, columns, others, fresh, rfl, exposed, ⟨t, exposed'⟩, -, rfl⟩ := unite_yields h
  let right := { r.select with projection := others }
  let left := { l.select with projection := columns, union := some right }
  have both : left.sources = l.select.sources ++ r.select.sources := by
    rw [sources_eq, sources_eq l.select, single, Select.sourcesOption, Select.sourcesOption, List.append_nil,
      sources_eq right, ← sources_eq r.select]
  have inside : InUse w.labels (left.sources ++ rest) := by
    rw [both, List.append_assoc]
    exact before
  refine inside.subquery fresh ⟨expose_distinct exposed, fun u united => ?_⟩
  obtain rfl := Option.some.inj united
  exact expose_distinct exposed'

theorem query_inUse {q : Query} (before : InUse w.labels rest) (h : Step.Yields (query m q) w p w') :
    InUse w'.labels (p.select.sources ++ rest) := by
  induction q generalizing w w' p rest with
  | set name =>
    obtain ⟨e, t, -, -, new, rfl⟩ := set_yields h
    exact (before.newTable new).only (.table t) rfl
  | rows rows =>
    obtain ⟨label, new, rfl⟩ := rows_yields h
    obtain ⟨fresh, rfl⟩ := newLabel_yields new
    let source : Source := .literal ⟨label, rows.fields, cells rows⟩
    exact (before.add source fresh nofun).only source rfl
  | filter input predicate ih =>
    obtain ⟨s, v, t, v', condition, select, first, wrapped, run, rfl⟩ := filter_yields h
    have filtered := ((ih before first).wrapIf (query_union first) wrapped).against run .scalar
    dsimp only [addFilter]
    split <;> exact filtered.same rfl rfl rfl
  | map input selector ih =>
    obtain ⟨s, v, shape, select, first, run, rfl⟩ := map_yields h
    exact (ih before first).against run .expr
  | join outer inner outerKey innerKey result ihOuter ihInner =>
    obtain ⟨s, v, t, x, i, y, source, shape, z, l, select, z', r, z'', on, element, select', first, wrapped,
      second, sourced, run, alone, -, run', rfl⟩ := join_yields h
    have front := (ihOuter before first).wrapIf (query_union first) wrapped
    -- the inner side is planned beside the outer one, which the keys are read from
    have behind := (ihInner front second).asSource (query_union second) sourced
    have keyed := (behind.swap.against run .expr).standalone alone
    exact (InUse.join (j := ⟨.inner, source, some on⟩) keyed.swap).against run' .expr
  | orderBy input key descending ih =>
    obtain ⟨s, v, t, v', k, select, keys, first, wrapped, run, -, rfl⟩ := orderBy_yields h
    have read := ((ih before first).wrapIf (query_union first) wrapped).against run .expr
    exact read.same rfl rfl rfl
  | take input count ih =>
    obtain ⟨s, v, t, v', limit, select, first, wrapped, run, rfl⟩ := take_yields h
    have read := ((ih before first).wrapIf (query_union first) wrapped).against run .scalar
    exact read.same rfl rfl rfl
  | skip input count ih =>
    obtain ⟨s, v, t, v', offset, select, first, wrapped, run, rfl⟩ := skip_yields h
    have read := ((ih before first).wrapIf (query_union first) wrapped).against run .scalar
    exact read.same rfl rfl rfl
  | groupBy input key ih =>
    obtain ⟨s, v, t, v', k, select, keys, first, wrapped, run, -, rfl⟩ := groupBy_yields h
    have read := ((ih before first).wrapIf (query_union first) wrapped).against run .expr
    exact read.same rfl rfl rfl
  | union left right ihLeft ihRight =>
    obtain ⟨l, v, r, x, l', y, r', z, first, second, wrapped, wrapped', united⟩ := union_yields h
    -- each side may be wrapped while the other one stands beside it
    have both := ihRight (ihLeft before first) second
    have lefts := both.swap.wrapIf (query_union first) wrapped
    have rights := lefts.swap.wrapIf (query_union second) wrapped'
    exact rights.swap.unite (wrapIf_union (query_union first) wrapped) united

end

/-! ## Mutations -/

section

variable {m : Model} {capabilities : Capabilities} {w w' : Workspace} {plan : Plan}

theorem against_keeps {α : Type} {s t : Select} {x : Step α} {a : α} (h : Step.Yields (against s x) w (a, t) w') :
    t.source = s.source ∧ t.union = s.union := by
  obtain ⟨-, rfl⟩ := against_yields.1 h
  exact ⟨rfl, rfl⟩

/-- A write to the table that a select reads has this table and the joins of the select. -/
theorem InUse.write {used : List String} {s : Select} {table : StoredTable} (h : InUse used (s.sources ++ []))
    (target : s.source = .table table) (single : s.union = none) :
    InUse used (.table table :: Join.sourcesAll s.joins) := by
  rw [List.append_nil, sources_eq, target, single, Select.sourcesOption, List.append_nil, Source.sources] at h
  exact h

theorem updateJoin_inUse {mutation : Mutation} {outer inner : Query} {outerKey innerKey set : Lambda}
    {condition : Option Lambda} (nothing : InUse w.labels [])
    (h : Step.Yields (updateJoin m mutation outer inner outerKey innerKey set condition) w plan w') :
    InUse w'.labels plan.root.sources := by
  obtain ⟨s, v, table, e, i, u, source, shape, x, l, select, y, r, z, on, list, fields, select', z', first, root,
    second, sourced, run, alone, -, -, run', last⟩ := updateJoin_yields h
  have front := query_inUse nothing first
  have behind := (query_inUse front second).asSource (query_union second) sourced
  have keyed := (behind.swap.against run .expr).standalone alone
  have whole := (InUse.join (j := ⟨.inner, source, some on⟩) keyed.swap).against run' .assignedFields
  obtain ⟨same, union⟩ := against_keeps run
  obtain ⟨same', union'⟩ := against_keeps run'
  have target : select'.source = .table table := (same'.trans same).trans (rootTable_eq_ok root).1
  have single : select'.union = none := (union'.trans union).trans (query_union first)
  obtain ⟨-, rfl, rfl⟩ | ⟨c, p, select'', -, run'', rfl⟩ := last
  · exact whole.write target single
  · obtain ⟨same'', union''⟩ := against_keeps run''
    exact (whole.against run'' .scalar).write (same''.trans target) (union''.trans single)

theorem upsertSource_inUse {mutation : Mutation} {list : List Assignment} {insert : Lambda} {source : Option Query}
    {select : Option Select} {fields : List Projection} {rest : List Source} (before : InUse w.labels rest)
    (h : Step.Yields (upsertSource m mutation list insert source) w (select, fields) w') :
    InUse w'.labels (Select.sourcesOption select ++ rest) := by
  obtain ⟨q, s, v, t, -, rfl, first, run⟩ | ⟨-, rfl, run⟩ := upsertSource_yields h
  · exact (query_inUse before first).against run .assignedFields
  · exact before.standaloneFields run

theorem mutationPlan_inUse {mutation : Mutation} (nothing : InUse w.labels [])
    (h : Step.Yields (mutationPlan m capabilities mutation) w plan w') : InUse w'.labels plan.root.sources := by
  cases mutation with
  | delete q =>
    obtain ⟨s, table, e, first, root, rfl⟩ := delete_yields h
    exact (query_inUse nothing first).write (rootTable_eq_ok root).1 (query_union first)
  | update q set =>
    obtain ⟨s, v, table, e, list, fields, select, first, root, -, run, rfl⟩ := update_yields h
    obtain ⟨same, union⟩ := against_keeps run
    have whole := (query_inUse nothing first).against run .assignedFields
    exact whole.write (same.trans (rootTable_eq_ok root).1) (union.trans (query_union first))
  | updateJoin outer inner outerKey innerKey set condition => exact updateJoin_inUse nothing h
  | insertInto q target =>
    obtain ⟨input, selector, e, list, s, v, fields, select, rfl, -, -, first, run, rfl⟩ := insertInto_yields h
    have read := (query_inUse nothing first).against run .assignedFields
    have written := read.same (t := { select with projection := fields }) rfl rfl rfl
    rw [List.append_nil] at written
    exact written
  | upsert target source insert update =>
    obtain ⟨e, table, v, list, key, select, fields, x, updated, columns, -, new, -, -, inserted, conflict, -, rfl⟩ :=
      upsert_yields h
    have planned := upsertSource_inUse (nothing.newTable new) inserted
    exact (planned.clause (conflictFields_yields conflict)).perm List.perm_append_comm
  | merge target source targetKey sourceKey update insert delete =>
    obtain ⟨e, table, v, s, u, rows, shape, x, l, y, r, z, on, matched, z', inserted, -, new, first, sourced, here,
      there, -, updated, last, rfl⟩ := merge_yields h
    have planned := (query_inUse (nothing.newTable new) first).asSource (query_union first) sourced
    have keyed := (planned.standalone here).standalone there
    have whole := (keyed.clause (clauseFields_yields updated)).clause (clauseFields_yields last)
    exact whole.perm List.perm_append_comm

theorem plan_eq_ok {mutation : Mutation} (h : Planning.plan m capabilities mutation = .ok plan) :
    ∃ w, Step.Yields (mutationPlan m capabilities mutation) {} plan w :=
  ⟨_, Prod.ext h rfl⟩

end

/-! ## No name twice -/

/-- Planning gives no name twice. The searches for labels end, and labels that are handed out one after the other differ,
whatever the names that their searches start from. So the sources of every query and of every plan have labels of their
own, on both sides of unions and at every depth. The search for the name of a column ends as well, and in a subquery that
a query is wrapped in, or that unites two queries, the columns have names of their own, whatever the shapes. -/
theorem generated_names_distinct (m : Model) (capabilities : Capabilities) :
    (∀ taken bases, (∃ names, HandsOut taken bases names) ∧
      ∀ names, HandsOut taken bases names → names.Nodup ∧ ∀ name ∈ names, name ∉ taken) ∧
    (∀ (bases : List String) (w : Workspace), ∃ labels,
      Step.Yields (bases.mapM newLabel) w labels { w with labels := w.labels ++ labels } ∧
        HandsOut w.labels (bases.map initial) labels) ∧
    (∀ q w p w', Step.Yields (query m q) w p w' → Distinguished p.select.sources) ∧
    (∀ mutation made, plan m capabilities mutation = .ok made ∨ planOf m capabilities mutation = .ok made →
      Distinguished made.root.sources) ∧
    (∀ taken base, Picks taken base (freshName taken base)) ∧
    (∀ subject s w p w', Step.Yields (wrap m subject s) w p w' →
      ∃ columns label, p.select.source = .subquery { s.select with projection := columns } label ∧
        (columns.map Projection.name).Nodup) ∧
    (∀ subject l r w p w', Step.Yields (unite m subject l r) w p w' →
      ∃ columns others label,
        p.select.source = .subquery { l.select with
          projection := columns, union := some { r.select with projection := others } } label ∧
        (columns.map Projection.name).Nodup ∧ (others.map Projection.name).Nodup) := by
  have ofMutation {mutation : Mutation} {made : Plan} {w : Workspace}
      (run : Step.Yields (mutationPlan m capabilities mutation) {} made w) : Distinguished made.root.sources :=
    (mutationPlan_inUse (.nil _) run).toDistinguished
  refine ⟨fun taken bases => ⟨exists_handsOut taken bases, fun _ h => ⟨h.nodup, h.not_mem⟩⟩, newLabels_yield, ?query,
    ?plan, picks_freshName, ?wrap, ?unite⟩
  case query =>
    intro q w p w' run
    have whole := query_inUse (.nil w.labels) run
    rw [List.append_nil] at whole
    exact whole.toDistinguished
  case plan =>
    rintro mutation made (planned | planned)
    · obtain ⟨w, run⟩ := plan_eq_ok planned
      exact ofMutation run
    · obtain ⟨folded, unpruned, w, -, run, rfl⟩ := planOf_eq_ok planned
      dsimp only
      -- pruning leaves the sources, so the plan that is kept has the labels of the plan that was made
      rw [Block.sources_prune]
      exact (ofMutation run).prune
  case wrap =>
    intro subject s w p w' run
    obtain ⟨label, shape, columns, -, -, exposed, rfl⟩ := wrap_yields run
    exact ⟨columns, label, rfl, expose_distinct exposed⟩
  case unite =>
    intro subject l r w p w' run
    obtain ⟨label, shape, columns, others, -, -, exposed, ⟨t, exposed'⟩, -, rfl⟩ := unite_yields run
    exact ⟨columns, others, label, rfl, expose_distinct exposed, expose_distinct exposed'⟩

def firstAndAll : Query :=
  .union (.take (.set "Item") (.constant (.int 1))) (.set "Item")

def insertUnited : Mutation :=
  .insertInto (.map firstAndAll ⟨["i"], .new (some "Item") [] [.assign "Id" (.member (.param "i") "Id")]⟩) "Item"

/-- Each item beside itself, so that all its columns are read twice. -/
def itemTwice : Planned where
  select := { source := .table { name := "Items", label := "i" } }
  shape := .record
    [("First", .entity { entity := "Item", label := "i" }), ("Second", .entity { entity := "Item", label := "i" })]

/-- Two searches from one letter differ by the number behind it, and so do the sources of two united queries, which are
four, and the columns of an item that is read twice, wrapped or united with itself. -/
theorem united_items_told_apart :
    (∃ names, HandsOut ["i"] ["i", "t", "i"] names ∧ names.Nodup ∧ ∀ name ∈ names, name ∉ ["i"]) ∧
    (∃ p w, Step.Yields (query Execution.itemModel firstAndAll) {} p w ∧ Distinguished p.select.sources) ∧
    (∃ made, planOf Execution.itemModel .inMemory insertUnited = .ok made ∧
      made.root.sources.map RowSource.label = ["t0", "t", "i", "i0"] ∧ Distinguished made.root.sources) ∧
    (∃ p w columns label, Step.Yields (wrap Execution.itemModel (.query firstAndAll) itemTwice) {} p w ∧
      p.select.source = .subquery { itemTwice.select with projection := columns } label ∧
      columns.map Projection.name = ["Id", "Value", "Id0", "Value0"] ∧ (columns.map Projection.name).Nodup) ∧
    ∃ p w columns others label,
      Step.Yields (unite Execution.itemModel (.query firstAndAll) itemTwice itemTwice) {} p w ∧
        p.select.source = .subquery { itemTwice.select with
          projection := columns, union := some { itemTwice.select with projection := others } } label ∧
        (columns.map Projection.name).Nodup ∧ (others.map Projection.name).Nodup := by
  obtain ⟨ofSearches, -, ofQuery, ofPlan, -, ofWrap, ofUnite⟩ :=
    generated_names_distinct Execution.itemModel .inMemory
  obtain ⟨⟨names, searched⟩, distinct⟩ := ofSearches ["i"] ["i", "t", "i"]
  obtain ⟨p, w, run⟩ : ∃ p w, Step.Yields (query Execution.itemModel firstAndAll) {} p w := ⟨_, _, rfl⟩
  obtain ⟨made, planned, labels⟩ : ∃ made, planOf Execution.itemModel .inMemory insertUnited = .ok made ∧
      made.root.sources.map RowSource.label = ["t0", "t", "i", "i0"] := ⟨_, rfl, by decide +kernel⟩
  obtain ⟨inner, after, columns, label, wrapped, source, four⟩ : ∃ p w columns label,
      Step.Yields (wrap Execution.itemModel (.query firstAndAll) itemTwice) {} p w ∧
        p.select.source = .subquery { itemTwice.select with projection := columns } label ∧
        columns.map Projection.name = ["Id", "Value", "Id0", "Value0"] := ⟨_, _, _, _, rfl, rfl, by decide +kernel⟩
  obtain ⟨both, last, united⟩ : ∃ p w,
      Step.Yields (unite Execution.itemModel (.query firstAndAll) itemTwice itemTwice) {} p w := ⟨_, _, rfl⟩
  obtain ⟨exposed, _, same, own⟩ := ofWrap _ _ _ _ _ wrapped
  obtain rfl : columns = exposed :=
    congrArg Select.projection (RowSource.subquery.inj (source.symm.trans same)).1
  obtain ⟨lefts, rights, label', source', own', others⟩ := ofUnite _ _ _ _ _ _ united
  exact ⟨⟨names, searched, distinct names searched⟩, ⟨p, w, run, ofQuery _ _ _ _ run⟩,
    ⟨made, planned, labels, ofPlan _ made (.inr planned)⟩, ⟨inner, after, columns, label, wrapped, source, four, own⟩,
    both, last, lefts, rights, label', united, source', own', others⟩

end Setwise.Planning
