import Setwise.Proofs.GatheredWrites

/-!
Updates from the rows of another query.

Such an update works row by row on the table of its outer query. Over one row, the frames behind the join show what the
outer query makes of the row beside its partners (`row_paired`). The lambdas that are planned behind the join lose the
pairs for which they follow a required reference to nowhere (`Arguments.apply`), and of the others the first one for which
the condition holds is what the row is changed for (`updateJoin_reaches`).
-/

set_option autoImplicit false

namespace Setwise.Planning

open Client Relational Execution

section

variable {m : Model} {db : Database} {env : Environment} {ps : Parameters} {u v w x y z : Workspace} {s t : Planned}
  {source : Source} {shape l r result : Shape} {on : Scalar} {select : Select} {args : List Shape} {all later : List Frame}

/-! ## Lambdas behind a join -/

/-- In the frames of a planned select, lambdas can be applied to the elements that some shapes stand for. -/
structure Arguments (m : Model) (db : Database) (env : Environment) (u v : Workspace) (t : Planned) (args : List Shape)
    (all : List Frame) : Prop where
  planned : FreshlyPlanned u v t
  visible : ∀ a ∈ args, ∀ k ∈ a.labels, k ∈ t.select.labels
  met : ∀ f ∈ all, ∀ a ∈ args, (a.element m env f).Within (Met m db)
  joined : joinedFrames db env t.select = .ok all

theorem Arguments.keeps (h : Arguments m db env u v t args all) {f g : Frame} (member : f ∈ all) (more : f <+: g) {a : Shape}
    (argument : a ∈ args) : a.element m env g = a.element m env f := by
  obtain ⟨rest, rfl⟩ := more
  exact Shape.element_append (fun k inside => labels_of_joinedFrames h.joined member ▸ h.visible a argument k inside) rest

theorem Arguments.apply (h : Arguments m db env u v t args all) (leads : LeadsOn m db) {lambda : Lambda}
    (own : lambda.ReadsOwn m args t.select v)
    (run : Step.Yields (against t.select (expr m (lambda.params.zip args) lambda.body)) v (result, select) w)
    (joined : joinedFrames db env select = .ok later) :
    Arguments m db env u w { t with select } args later ∧ (∀ k ∈ result.labels, k ∈ select.labels) ∧
      Returns (all.filter (passes env t.select.predicate)) (later.filter (passes env t.select.predicate))
        (result.element m env)
        fun f => lambda.gives m db env.parameters (args.map Shape.isNullAt) (args.map (Shape.element m env f)) := by
  obtain ⟨given, -⟩ := lambda_gives leads h.planned.inScope h.visible own run h.met h.joined joined
  obtain ⟨read, reads⟩ := h.planned.against (reads_zip h.visible) run
  refine ⟨⟨read.planned, fun a argument k inside => read.kept k (h.visible a argument k inside), ?_, joined⟩, reads, ?_⟩
  · intro g member a argument
    obtain ⟨f, inside, more, -⟩ := Grow.origin given g member
    rw [h.keeps inside more argument]
    exact h.met f inside a argument
  · exact given.filter fun f member g more =>
      passes_prefix h.planned h.joined (fun _ found => mem_clauses.2 (.inl found)) member more

/-! ## Assignments behind a join -/

/-- What is planned behind the assignments of an update that joins other rows: its condition, if it has one. -/
def ConditionYields (m : Model) (args : List Shape) (condition : Option Lambda) (select : Select) (v : Workspace) (last : Select)
    (predicate : Option Scalar) : Prop :=
  condition = none ∧ last = select ∧ predicate = select.predicate ∨
    ∃ c p w, condition = some c ∧ Step.Yields (against select (scalar m (c.params.zip args) c.body)) v (p, last) w ∧
      predicate = some (Scalar.both last.predicate p)

theorem written_elements (leads : LeadsOn m db) {a b : Shape} {set : Lambda} {condition : Option Lambda}
    {fields : List Projection} {last : Select} {predicate : Option Scalar} {pairs frames : List Frame}
    (h : Arguments m db env u v t [a, b] pairs) (own : (set.byColumn m).ReadsOwn m [a, b] t.select v)
    (run : Step.Yields (against t.select (expr m ((set.byColumn m).params.zip [a, b]) (set.byColumn m).body)) v
      (fieldsShape fields, select) w)
    (conditionOwn : ∀ c ∈ condition, c.ReadsOwn m [a, b] select w)
    (rest : ConditionYields m [a, b] condition select w last predicate)
    (joined : joinedFrames db env last = .ok frames) :
    (frames.filter (passes env predicate)).map ((fieldsShape fields).element m env) =
      (pairs.filter (passes env t.select.predicate)).filterMap fun f =>
        ((set.byColumn m).gives m db env.parameters [a.isNullAt, b.isNullAt] [a.element m env f, b.element m env f]).bind
          fun z => match condition with
            | none => some z
            | some c =>
              (c.gives m db env.parameters [a.isNullAt, b.isNullAt] [a.element m env f, b.element m env f]).bind fun b =>
                if b.holds then some z else none := by
  have predicates : select.predicate = t.select.predicate := by rw [(against_yields.1 run).2]
  rcases rest with ⟨rfl, rfl, rfl⟩ | ⟨c, p, x, rfl, tested, rfl⟩
  · obtain ⟨-, -, given⟩ := h.apply leads own run joined
    have written := given.filterMap (b := fun _ => ()) (fun _ _ _ _ => rfl) fun _ z => some z
    rw [List.filterMap_eq_map'] at written
    rw [predicates]
    exact written
  · have tested := against_scalar tested
    obtain ⟨middle, before⟩ := joined_earlier tested joined
    obtain ⟨behind, reads, given⟩ := h.apply leads own run before
    obtain ⟨-, -, given'⟩ := behind.apply leads (conditionOwn c rfl) tested joined
    have predicates' : last.predicate = t.select.predicate := by
      rw [(against_yields.1 tested).2]
      exact predicates
    dsimp only at given'
    rw [predicates] at given'
    -- the pairs for which the condition holds, of those for which the assignments can be read
    have held := given'.filterMap (b := (fieldsShape fields).element m env)
      (fun f member g more => by
        obtain ⟨rest, rfl⟩ := more
        exact Shape.element_append
          (fun k inside => labels_of_joinedFrames before (List.mem_filter.1 member).1 ▸ reads k inside) rest)
      fun z b => if b.holds then some z else none
    have written := given.filterMap (b := fun g => (a.element m env g, b.element m env g))
      (fun f member g more => Prod.ext (h.keeps (List.mem_filter.1 member).1 more (by simp))
        (h.keeps (List.mem_filter.1 member).1 more (by simp)))
      fun xy z => (c.gives m db env.parameters [a.isNullAt, b.isNullAt] [xy.1, xy.2]).bind fun b =>
        if b.holds then some z else none
    have both (g : Frame) : passes env (some (Scalar.both t.select.predicate p)) g =
        (passes env t.select.predicate g && ((Shape.scalar p).element m env g).holds) := by
      rw [passes_both, passes_some p]
      rfl
    refine Eq.trans ?_ (held.trans written)
    rw [predicates', ← List.filterMap_eq_map, List.filterMap_filter, List.filterMap_filter]
    refine List.filterMap_congr fun g _ => ?_
    rw [both]
    cases passes env t.select.predicate g <;> rfl

theorem ConditionYields.onRow {condition : Option Lambda} {last : Select} {predicate : Option Scalar}
    (h : ConditionYields m args condition select v last predicate) (columns : List String) (row : Row) :
    ConditionYields m args condition (select.onRow columns row) v (last.onRow columns row) predicate :=
  h.imp (fun ⟨missing, same, predicates⟩ => ⟨missing, same ▸ rfl, predicates⟩)
    fun ⟨c, p, w, given, run, predicates⟩ => ⟨c, p, w, given, against_onRow run columns row, predicates⟩

theorem ConditionYields.earlier {condition : Option Lambda} {last : Select} {predicate : Option Scalar}
    (h : ConditionYields m args condition select v last predicate) (joined : joinedFrames db env last = .ok all) :
    ∃ before, joinedFrames db env select = .ok before := by
  rcases h with ⟨-, rfl, -⟩ | ⟨c, p, w, -, run, -⟩
  · exact ⟨all, joined⟩
  · exact joined_earlier (against_scalar run) joined

theorem ConditionYields.same {condition : Option Lambda} {last : Select} {predicate : Option Scalar}
    (h : ConditionYields m args condition select v last predicate) : last = { select with joins := last.joins } := by
  rcases h with ⟨-, rfl, -⟩ | ⟨c, p, w, -, run, -⟩
  · cases last
    rfl
  · rw [(against_yields.1 run).2]

theorem ConditionYields.bound {condition : Option Lambda} {last b : Select} {predicate : Option Scalar}
    (h : ConditionYields m args condition select v last predicate) (bound : last.Resolves ps b) :
    ∃ a, select.Resolves ps a ∧ ConditionYields m args condition a v b predicate := by
  rcases h with ⟨missing, rfl, rfl⟩ | ⟨c, p, w, given, run, rfl⟩
  · exact ⟨b, bound, .inl ⟨missing, rfl, by rw [bound.same]⟩⟩
  · obtain ⟨a, earlier, again⟩ := against_bound (against_scalar run) bound
    refine ⟨a, earlier, .inr ⟨c, p, { w with joins := b.joins }, given, ?_, by rw [bound.same]⟩⟩
    obtain ⟨planned, same⟩ := against_yields.1 again
    exact against_yields.2 ⟨scalar_yields.2 planned, same⟩

theorem pairs_of_joined {e : Expr} {scope : Scope} {select' last : Select} {condition : Option Lambda}
    {predicate : Option Scalar} (planned : Step.Yields (against select (expr m scope e)) v (result, select') w)
    (rest : ConditionYields m args condition select' w last predicate) {columns : List String} {row : Row}
    (joined : joinedFrames db env (last.onRow columns row) = .ok all) :
    ∃ pairs, joinedFrames db env (select.onRow columns row) = .ok pairs := by
  obtain ⟨before, earlier⟩ := (rest.onRow columns row).earlier joined
  exact joined_earlier (against_onRow planned columns row) earlier

/-! ## Partners of one row -/

section

variable (leads : LeadsOn m db) {outer : Query} {outerKey innerKey : Lambda} {name : String}
  (root : outer.rootSet? = some name) (plain : ∀ r ∈ outer.chain, r.rearranges = false) (own : outer.ReadsOwn m {})
  (first : Step.Yields (query m outer) {} s v) {operators : List String}
  (behind : FreshlyPlanned v x ⟨{ source }, shape, operators⟩) (keyOwn : outerKey.ReadsOwn m [s.shape] s.select x)
  (run : Step.Yields (against s.select (expr m (outerKey.params.zip [s.shape]) outerKey.body)) x (l, select) y)
  {subject : Subject} (alone : Step.Yields (standalone m (innerKey.params.zip [shape]) subject innerKey.body) y r z)
  (equality : Shape.equality m subject l r = .ok on) {rs : RowSet} (rows : sourceRows db env source = .ok rs)
  (met : ∀ row ∈ rs.rows, (shape.element m env [rs.visible row]).Within (Met m db)) {columns : List String} {row : Row}
  (metRow : (Element.ofRow m name columns row).Within (Met m db))
include leads root plain own first behind keyOwn run alone equality rows met metRow

theorem row_paired {pairs : List Frame}
    (joined : joinedFrames db env
      (Select.onRow { select with joins := select.joins ++ [⟨.inner, source, some on⟩] } columns row) = .ok pairs) :
    Arguments m db env {} z
        { s with select := Select.onRow { select with joins := select.joins ++ [⟨.inner, source, some on⟩] } columns row }
        [s.shape, shape] pairs ∧
      Partnered m db env outerKey innerKey (rs.rows.map fun row => shape.element m env [rs.visible row]) s.select.orderBy
        s.shape shape pairs (pairs.filter (passes env s.select.predicate))
        { Gathered.of (outer.through? m db env.parameters (.ofRow m name columns row)).toList with
          nulls := outer.rootNulls } ∧
      outer.rootNulls = s.shape.isNullAt := by
  have sound : ({} : Workspace).Sound := fun _ member => absurd member List.not_mem_nil
  have filters := (chain_filters plain first).1
  have planned := (query_planned sound first).onRow columns row
  have again := against_onRow run columns row
  have inScope := join_scope (t := { s with select := s.select.onRow columns row }) on planned behind again alone
  obtain ⟨all, base, keeps, beside⟩ := pairs_beside leads inScope filters.groupBy filters.having keyOwn again alone equality
    rows met joined
  have represents := root_represents leads root plain sound own first metRow keeps
  have partnered := beside _ represents
  exact ⟨⟨inScope.aside, inScope.visible, partnered.met, joined⟩, partnered, represents.nulls⟩

theorem row_written {set : Lambda} {condition : Option Lambda} {fields : List Projection} {select' last : Select}
    {z' : Workspace} {predicate : Option Scalar}
    (setOwn : (set.byColumn m).ReadsOwn m [s.shape, shape]
      { select with joins := select.joins ++ [⟨.inner, source, some on⟩] } z)
    (planned : Step.Yields (against { select with joins := select.joins ++ [⟨.inner, source, some on⟩] }
      (expr m ((set.byColumn m).params.zip [s.shape, shape]) (set.byColumn m).body)) z (fieldsShape fields, select') z')
    (conditionOwn : ∀ c ∈ condition, c.ReadsOwn m [s.shape, shape] select' z')
    (rest : ConditionYields m [s.shape, shape] condition select' z' last predicate) {frames : List Frame}
    (joined : joinedFrames db env (last.onRow columns row) = .ok frames) :
    (frames.find? (passes env predicate)).map ((fieldsShape fields).element m env) =
      (outer.through? m db env.parameters (.ofRow m name columns row)).bind fun x =>
        (pairedElements m db env.parameters outerKey innerKey set condition outer.rootNulls shape.isNullAt
          (rs.rows.map fun row => shape.element m env [rs.visible row]) x).head? := by
  obtain ⟨pairs, joinedPairs⟩ := pairs_of_joined planned rest joined
  obtain ⟨arguments, partnered, nulls⟩ := row_paired leads root plain own first behind keyOwn run alone equality rows met
    metRow joinedPairs
  have written := written_elements leads arguments setOwn (against_onRow planned columns row) conditionOwn
    (rest.onRow columns row) joined
  have predicates : select.predicate = s.select.predicate := by rw [(against_yields.1 run).2]
  -- the pairs of the row that pass the condition show what is assigned, in the order of the partners
  have collected := partnered.collect fun _ x y =>
    ((set.byColumn m).gives m db env.parameters [s.shape.isNullAt, shape.isNullAt] [x, y]).bind fun z =>
      match condition with
      | none => some z
      | some c => (c.gives m db env.parameters [s.shape.isNullAt, shape.isNullAt] [x, y]).bind fun b =>
          if b.holds then some z else none
  -- the first pair that passes is the one that decides
  rw [← List.head?_filter, ← List.head?_map, written]
  simp only [Select.onRow] at collected ⊢
  rw [predicates, collected, nulls]
  cases outer.through? m db env.parameters (.ofRow m name columns row) with
  | none => rfl
  | some x => exact congrArg List.head? (List.flatMap_singleton ..)

end

/-- The lambdas of such an update read their own references wherever they are planned. -/
theorem updateJoin_readsOwn {subject : Subject} {outer inner : Query} {outerKey innerKey set : Lambda}
    {condition : Option Lambda} {i : Planned} {z' : Workspace} {fields : List Projection} {select' : Select}
    (own : (Mutation.updateJoin outer inner outerKey innerKey set condition).ReadsOwn m) (filters : s.select.OnlyFilters)
    (first : Step.Yields (query m outer) {} s v) (second : Step.Yields (query m inner) v i u)
    (sourced : Step.Yields (asSource m subject i) u (source, shape) x)
    (run : Step.Yields (against s.select (expr m (outerKey.params.zip [s.shape]) outerKey.body)) x (l, select) y)
    (alone : Step.Yields (standalone m (innerKey.params.zip [shape]) subject innerKey.body) y r z)
    (equality : Shape.equality m subject l r = .ok on)
    (assigned : Step.Yields (against { select with joins := select.joins ++ [⟨.inner, source, some on⟩] }
      (assignedFields m (set.params.zip [s.shape, shape]) (set.leaves m))) z (fields, select') z') :
    outer.ReadsOwn m {} ∧ inner.ReadsOwn m v ∧ outerKey.ReadsOwn m [s.shape] s.select x ∧
      (set.byColumn m).ReadsOwn m [s.shape, shape]
        { select with joins := select.joins ++ [⟨.inner, source, some on⟩] } z ∧
      ∀ c ∈ condition, c.ReadsOwn m [s.shape, shape] select' z' := by
  obtain ⟨⟨outerOwn, behindOuter⟩, conditionOwn⟩ := own
  -- the rows of the table are neither paged nor grouped, so the select is joined as it is
  have unwrapped : Step.Yields (wrapIf m subject (isClosed s.select || !s.select.groupBy.isEmpty) s) v s v := by
    rw [filters.opened, filters.groupBy]
    rfl
  obtain ⟨innerOwn, behindInner⟩ := behindOuter _ _ _ _ _ first unwrapped
  obtain ⟨keyOwn, setOwn⟩ := behindInner _ _ _ _ _ second sourced
  exact ⟨outerOwn, innerOwn, keyOwn, setOwn _ _ _ _ _ _ run alone equality, fun c given =>
    conditionOwn _ _ _ _ _ _ _ _ _ _ _ _ _ _ _ _ _ c given first second sourced run alone equality assigned⟩

theorem updateJoin_reaches (leads : LeadsOn m db) {mutation : Mutation} {outer inner : Query} {outerKey innerKey set : Lambda}
    {condition : Option Lambda} {plan : Plan} {b : Block}
    (own : (Mutation.updateJoin outer inner outerKey innerKey set condition).ReadsOwn m)
    (h : Step.Yields (updateJoin m mutation outer inner outerKey innerKey set condition) {} plan w)
    (bound : plan.root.prune.Replaced (LiteralTable.Resolves ps) b) :
    ∃ s, b = .affected s ∧
      (Mutation.updateJoin outer inner outerKey innerKey set condition).Reaches m db ps s := by
  obtain ⟨s, v, table, e, i, u, source, shape, x, l, select, y, r, z, on, list, fields, select', z', first, rooted, second,
    sourced, run, alone, equality, assigns, assigned, last⟩ := updateJoin_yields h
  obtain ⟨final, predicate, rest, rfl⟩ : ∃ final predicate,
      ConditionYields m [s.shape, shape] condition select' z' final predicate ∧
        plan = writePlan (.update table fields predicate final.joins) (feeds inner .skip) := by
    rcases last with ⟨none, -, rfl⟩ | ⟨c, p, final, given, tested, rfl⟩
    · exact ⟨select', _, .inl ⟨none, rfl, rfl⟩, rfl⟩
    · exact ⟨final, _, .inr ⟨c, p, w, given, tested, rfl⟩, rfl⟩
  obtain ⟨plain, name, root, met⟩ := root_met db first rooted
  obtain ⟨stored, -, known, -⟩ := rootTable_eq_ok rooted
  obtain ⟨filters, tables⟩ := chain_filters plain first
  have leaves := leaves_of_assigned assigns known
  have names := assignedFields_names (against_yields.1 assigned).1
  have planned := byColumn_against leaves assigned
  have sound : ({} : Workspace).Sound := fun _ member => absurd member List.not_mem_nil
  have outerPlanned := query_planned sound first
  obtain ⟨outerOwn, innerOwn, keyOwn, setOwn, conditionOwn⟩ :=
    updateJoin_readsOwn own filters first second sourced run alone equality (leaves.symm ▸ assigned)
  have same : final = { s.select with joins := final.joins } := by
    rw [rest.same, (against_yields.1 planned).2, (against_yields.1 run).2]
  have stored' : final.source = .table table := by
    rw [same]
    exact stored
  cases bound with
  | affected write =>
    cases write with
    | @update _ _ _ _ joins replaced =>
      refine ⟨_, rfl, by rw [assignedColumns, names, Lambda.columns, leaves], fun found changes here changed => ?_⟩
      have bound : final.Resolves ps { final with joins } := by
        refine .intro ?_ (Join.resolves_of_pruneAll replaced) ?_ rfl
        · rw [stored']
          exact .table table
        · rw [same, query_union first]
          exact .none
      obtain ⟨a', settled, rest'⟩ := rest.bound bound
      obtain ⟨b', resolved, again⟩ := against_bound planned settled
      obtain ⟨a, source', outerBound, given, rfl⟩ := resolved.join
      obtain rfl : a = select := by
        refine Select.Resolves.of_tables (t := table) outerBound ?_ (joins_tables run tables) ?_ <;> rw [(against_yields.1 run).2]
        · exact stored
        · exact query_union first
      have single : ({ source } : Select).Resolves ps { source := source' } := .intro given .nil .none rfl
      have behind := ((query_planned outerPlanned.inScope.sound second).asSource sourced).bound single
      obtain ⟨t, held, joined, rfl⟩ := satisfyingRows_eq_ok (s := { final with joins }) stored' here
      obtain ⟨-, rfl⟩ := changesOf_located.1 changed
      by_cases some : ∃ rs, sourceRows db { parameters := ps } source' = .ok rs
      · obtain ⟨rs, rows⟩ := some
        obtain ⟨d, gathers, delivered, passed, metRows⟩ := asSource_elements { parameters := ps }
          (query_gathered leads outerPlanned.inScope.sound innerOwn second) (query_union second) sourced given rows
        refine ⟨name, t, shape.isNullAt, _, root, held, fun _ => ⟨d, gathers, delivered, passed⟩,
          located_congr fun row member => ?_⟩
        obtain ⟨frames, joined⟩ := joined row member
        have written := row_written leads root plain outerOwn first behind keyOwn run alone equality rows metRows
          (met t held row member) (setOwn.behind resolved.joins.stands) again
          (fun c given => (conditionOwn c given).behind settled.joins.stands) rest' joined
        rw [assignedValues, assigned_row (m := m), framesOn, joined]
        exact (congrArg (Option.bind · Element.row?) written).trans (Option.bind_assoc ..)
      · -- without rows of the other query, no row of the table has been looked at
        have none : ∀ row ∈ t.rows, False := fun row member => by
          obtain ⟨frames, joined⟩ := joined row member
          obtain ⟨pairs, joinedPairs⟩ := pairs_of_joined again rest' joined
          obtain ⟨-, rs, -, rows, -⟩ := joinedFrames_inner (s := a.onRow t.columnNames row) joinedPairs
          exact some ⟨rs, rows⟩
        refine ⟨name, t, Nulls.none, [], root, held, fun nonempty => ?_, located_congr fun row member => (none row member).elim⟩
        obtain ⟨row, member⟩ := List.exists_mem_of_ne_nil _ nonempty
        exact (none row member).elim

end

end Setwise.Planning
