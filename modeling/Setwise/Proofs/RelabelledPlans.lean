import Setwise.Proofs.RelabelledExpressions

/-!
Queries planned from different workspaces.

Planning hands out labels that are not in use, so that the plan of a query depends on the workspace that it starts from.
It does so by its labels alone: what is planned from two workspaces is the same, one label replaced by another
(`query_relabel`).
-/

set_option autoImplicit false

namespace Setwise.Planning

open Client Relational Execution

/-! ## Operators under other labels -/

structure RenamedPlanned (ρ : String → String) (base base' own : List String) (v v' : Workspace) (p p' : Planned)
    (later : List String) : Prop where
  more : own <+: later
  workspaces : Renamed ρ base base' later v v'
  plan : p' = p.relabel ρ
  known : ∀ l ∈ p.shape.labels, l ∈ later

section

variable {ρ : String → String} {m : Model} {base base' last last' own : List String} {v v' w w' : Workspace}

theorem RenamedPlanned.trans {later latest : List String} {u u' : Workspace} {s s' p p' : Planned}
    (first : RenamedPlanned ρ base base' own u u' s s' later)
    (second : RenamedPlanned ρ base base' later v v' p p' latest) :
    RenamedPlanned ρ base base' own v v' p p' latest :=
  { second with more := first.more.trans second.more }

theorem isClosed_relabel {s : Select} : isClosed (s.relabel ρ) = isClosed s := by
  have union (u : Option Select) : (Select.relabelOption ρ u).isSome = u.isSome := by
    cases u <;> rfl
  unfold isClosed
  rw [Select.isPaged_relabel, Select.relabel_eq, union]

theorem relabelFields_zip (params : List String) (shapes : List Shape) :
    Shape.relabelFields ρ (params.zip shapes) = params.zip (shapes.map (Shape.relabel ρ)) := by
  rw [Shape.relabelFields_eq_map, List.zip_map_right]
  rfl

theorem expose_renamed {subject subject' : Subject} {label : String} {s t t' : Shape} {ps ps' : List Projection}
    (h : s.expose m subject label none [] = .ok (t, ps))
    (h' : (s.relabel ρ).expose m subject' (ρ label) none [] = .ok (t', ps')) :
    t' = t.relabel ρ ∧ ps' = ps.map (Projection.relabel ρ) := by
  have same : _ = (s.expose m subject label none []).toOption.map (Shape.relabelExposed ρ) :=
    Shape.expose_relabel subject subject' label s none []
  rw [List.map_nil, h, h'] at same
  exact Prod.mk.inj (Option.some.inj same)

theorem wrapIf_relabel (renames : Renames ρ base base' last last') (start : Renamed ρ base base' own w w')
    {subject subject' : Subject} {needed : Bool} {s p p' : Planned} (known : ∀ l ∈ s.shape.labels, l ∈ own)
    (run : Step.Yields (wrapIf m subject needed s) w p v)
    (run' : Step.Yields (wrapIf m subject' needed (s.relabel ρ)) w' p' v') (early : v.labels <+: last)
    (early' : v'.labels <+: last') : ∃ later, RenamedPlanned ρ base base' own v v' p p' later := by
  cases needed with
  | false =>
    obtain ⟨rfl, rfl⟩ := Step.yields_pure.1 run
    obtain ⟨rfl, rfl⟩ := Step.yields_pure.1 run'
    exact ⟨own, List.prefix_refl _, start, rfl, known⟩
  | true =>
    unfold wrapIf at run run'
    simp only [if_true, wrap, Step.yields_bind, Step.yields_ofResult, Step.yields_pure] at run run'
    obtain ⟨label, _, new, ⟨shape, columns⟩, _, ⟨exposed, rfl⟩, rfl, rfl⟩ := run
    obtain ⟨label', _, new', ⟨shape', columns'⟩, _, ⟨exposed', rfl⟩, rfl, rfl⟩ := run'
    obtain ⟨rfl, after⟩ := start.newLabel renames new new' early early'
    obtain ⟨rfl, rfl⟩ := expose_renamed exposed exposed'
    refine ⟨_, List.prefix_append _ _, after, ?_, fun l member => ?_⟩
    · obtain ⟨select, _, _⟩ := s
      cases select
      rfl
    · obtain rfl := (exposed_of_expose exposed).labels l member
      exact List.mem_append_right _ (List.mem_singleton_self _)

theorem asSource_relabel (renames : Renames ρ base base' last last') (start : Renamed ρ base base' own w w')
    {subject subject' : Subject} {s : Planned} (known : ∀ l ∈ s.shape.labels, l ∈ own) {source source' : Source}
    {shape shape' : Shape} (run : Step.Yields (asSource m subject s) w (source, shape) v)
    (run' : Step.Yields (asSource m subject' (s.relabel ρ)) w' (source', shape') v') (early : v.labels <+: last)
    (early' : v'.labels <+: last') :
    ∃ later, RenamedPlanned ρ base base' own v v' ⟨{ source }, shape, []⟩ ⟨{ source := source' }, shape', []⟩ later := by
  obtain ⟨p, wrapped, bare, rfl⟩ := asSource_yields run
  obtain ⟨p', wrapped', bare', rfl⟩ := asSource_yields run'
  rw [show (s.relabel ρ).select.isBare = s.select.isBare from Select.isBare_relabel ρ _] at wrapped'
  obtain ⟨later, planned⟩ := wrapIf_relabel renames start known wrapped wrapped' early early'
  obtain rfl := planned.plan
  have sources : (p.select.relabel ρ).source = source' := congrArg Select.source bare'
  rw [bare] at sources
  obtain rfl : Source.relabel ρ source = source' := sources
  exact ⟨later, planned.more, planned.workspaces, rfl, planned.known⟩

theorem against_relabel (renames : Renames ρ base base' last last') (start : Renamed ρ base base' own w w')
    {s select select' : Select} {e : Expr} {scope : Scope} {t t' : Shape} (operators : List String)
    (known : scope.Reads own)
    (run : Step.Yields (against s (expr m scope e)) w (t, select) v)
    (run' : Step.Yields (against (s.relabel ρ) (expr m (Shape.relabelFields ρ scope) e)) w' (t', select') v')
    (early : v.labels <+: last) (early' : v'.labels <+: last') :
    ∃ later, RenamedPlanned ρ base base' own v v' ⟨select, t, operators⟩ ⟨select', t', operators⟩ later := by
  obtain ⟨inside, rfl⟩ := against_yields.1 run
  obtain ⟨inside', rfl⟩ := against_yields.1 run'
  obtain ⟨later, planned⟩ := expr_relabel renames (start.withJoins s.joins (s.relabel ρ).joins)
    (by rw [Select.relabel_eq]) known inside inside' early early'
  refine ⟨later, planned.more, planned.workspaces, ?_, planned.known⟩
  rw [planned.joins, planned.shape]
  cases s
  rfl

theorem against_scalar_relabel (renames : Renames ρ base base' last last') (start : Renamed ρ base base' own w w')
    {s select select' : Select} {e : Expr} {scope : Scope} {c c' : Scalar} (known : scope.Reads own)
    (run : Step.Yields (against s (scalar m scope e)) w (c, select) v)
    (run' : Step.Yields (against (s.relabel ρ) (scalar m (Shape.relabelFields ρ scope) e)) w' (c', select') v')
    (early : v.labels <+: last) (early' : v'.labels <+: last') :
    ∃ later, own <+: later ∧ Renamed ρ base base' later v v' ∧ select' = select.relabel ρ ∧ c' = c.relabel ρ := by
  obtain ⟨inside, rfl⟩ := against_yields.1 run
  obtain ⟨inside', rfl⟩ := against_yields.1 run'
  obtain ⟨later, more, workspaces, plan, -⟩ := against_relabel renames start [] known
    (against_yields.2 ⟨scalar_yields.1 inside, rfl⟩) (against_yields.2 ⟨scalar_yields.1 inside', rfl⟩) early early'
  obtain ⟨selects, shapes, -⟩ := Planned.mk.inj plan
  exact ⟨later, more, workspaces, selects, Shape.scalar.inj shapes⟩

theorem standalone_relabel (renames : Renames ρ base base' last last') (start : Renamed ρ base base' own w w')
    {subject subject' : Subject} {e : Expr} {scope : Scope} {t t' : Shape} (known : scope.Reads own)
    (run : Step.Yields (standalone m scope subject e) w t v)
    (run' : Step.Yields (standalone m (Shape.relabelFields ρ scope) subject' e) w' t' v')
    (early : v.labels <+: last) (early' : v'.labels <+: last') :
    ∃ later, own <+: later ∧ Renamed ρ base base' later v v' ∧ t' = t.relabel ρ ∧ ∀ l ∈ t.labels, l ∈ later := by
  obtain ⟨inside, -⟩ := standalone_yields run
  obtain ⟨inside', -⟩ := standalone_yields run'
  obtain ⟨later, planned⟩ := expr_relabel renames (start.withJoins [] []) rfl known inside inside' early early'
  exact ⟨later, planned.more, planned.workspaces, planned.shape, planned.known⟩

theorem addFilter_relabel (s : Select) (c : Scalar) :
    addFilter (s.relabel ρ) (c.relabel ρ) = (addFilter s c).relabel ρ := by
  cases s
  simp only [addFilter, Select.relabel, List.isEmpty_map]
  split <;> simp [Select.relabel, Shape.both_relabel]

section

variable {k : List String} {u u' : Workspace} {s s' t t' : Planned}

theorem RenamedPlanned.later {later : List String} (planned : RenamedPlanned ρ base base' own u u' s s' k)
    (more : k <+: later)
    (workspaces : Renamed ρ base base' later v v') : RenamedPlanned ρ base base' own v v' s s' later :=
  ⟨planned.more.trans more, workspaces, planned.plan, fun l member => more.subset (planned.known l member)⟩

theorem RenamedPlanned.isClosedOrGrouped (planned : RenamedPlanned ρ base base' own u u' s s' k) :
    (isClosed s'.select || !s'.select.groupBy.isEmpty) = (isClosed s.select || !s.select.groupBy.isEmpty) := by
  rw [planned.plan, show isClosed (s.relabel ρ).select = isClosed s.select from isClosed_relabel, Planned.relabel,
    Select.relabel_eq, List.isEmpty_map]

theorem RenamedPlanned.isPagedOrOrdered (planned : RenamedPlanned ρ base base' own u u' s s' k) :
    (s'.select.isPaged || !s'.select.orderBy.isEmpty) = (s.select.isPaged || !s.select.orderBy.isEmpty) := by
  rw [planned.plan, Planned.relabel, Select.isPaged_relabel, Select.relabel_eq, List.isEmpty_map]

theorem RenamedPlanned.wrapIf (renames : Renames ρ base base' last last')
    (planned : RenamedPlanned ρ base base' own u u' s s' k) {subject subject' : Subject} {needed needed' : Bool}
    (same : needed' = needed) (run : Step.Yields (wrapIf m subject needed s) u t v)
    (run' : Step.Yields (Planning.wrapIf m subject' needed' s') u' t' v') (early : v.labels <+: last)
    (early' : v'.labels <+: last') : ∃ later, RenamedPlanned ρ base base' own v v' t t' later ∧ k <+: later := by
  subst same
  obtain rfl := planned.plan
  obtain ⟨later, wrapped⟩ := wrapIf_relabel renames planned.workspaces planned.known run run' early early'
  exact ⟨later, planned.trans wrapped, wrapped.more⟩

/-- A lambda that is planned against a query, behind its plan. -/
theorem RenamedPlanned.against (renames : Renames ρ base base' last last')
    (planned : RenamedPlanned ρ base base' own u u' s s' k) {params : List String} {e : Expr} {shape shape' : Shape}
    {select select' : Select} (operators : List String)
    (run : Step.Yields (against s.select (expr m (params.zip [s.shape]) e)) u (shape, select) v)
    (run' : Step.Yields (Planning.against s'.select (expr m (params.zip [s'.shape]) e)) u' (shape', select') v')
    (early : v.labels <+: last) (early' : v'.labels <+: last') :
    ∃ later, RenamedPlanned ρ base base' own v v' ⟨select, shape, operators⟩ ⟨select', shape', operators⟩ later ∧
      k <+: later := by
  obtain rfl := planned.plan
  rw [show [(s.relabel ρ).shape] = [s.shape].map (Shape.relabel ρ) from rfl, ← relabelFields_zip] at run'
  obtain ⟨later, after⟩ := against_relabel renames planned.workspaces operators (reads_single planned.known _)
    run run' early early'
  exact ⟨later, { after with more := planned.more.trans after.more }, after.more⟩

theorem RenamedPlanned.scalar (renames : Renames ρ base base' last last')
    (planned : RenamedPlanned ρ base base' own u u' s s' k) (scope : Shape → Scope)
    (scopes : scope (s.shape.relabel ρ) = Shape.relabelFields ρ (scope s.shape)) (known : (scope s.shape).Reads k)
    {e : Expr} {c c' : Scalar} {select select' : Select}
    (run : Step.Yields (Planning.against s.select (scalar m (scope s.shape) e)) u (c, select) v)
    (run' : Step.Yields (Planning.against s'.select (Planning.scalar m (scope s'.shape) e)) u' (c', select') v')
    (early : v.labels <+: last) (early' : v'.labels <+: last') :
    ∃ later, own <+: later ∧ Renamed ρ base base' later v v' ∧ select' = select.relabel ρ ∧ c' = c.relabel ρ ∧
      s'.shape = s.shape.relabel ρ ∧ s'.operators = s.operators ∧ ∀ l ∈ s.shape.labels, l ∈ later := by
  obtain rfl := planned.plan
  rw [show (s.relabel ρ).shape = s.shape.relabel ρ from rfl, scopes] at run'
  obtain ⟨later, more, workspaces, selects, scalars⟩ :=
    against_scalar_relabel renames planned.workspaces known run run' early early'
  exact ⟨later, planned.more.trans more, workspaces, selects, scalars, rfl, rfl,
    fun l member => more.subset (planned.known l member)⟩

end

theorem joined_relabel (s : Select) (kind : JoinKind) (source : Source) (on : Scalar) :
    ({ s with joins := s.joins ++ [⟨kind, source, some on⟩] } : Select).relabel ρ =
      { s.relabel ρ with joins := (s.relabel ρ).joins ++ [⟨kind, Source.relabel ρ source, some (on.relabel ρ)⟩] } := by
  cases s
  simp only [Select.relabel, Join.relabelAll_append]
  rfl

theorem equality_renamed {subject subject' : Subject} {l r : Shape} {c c' : Scalar}
    (h : Shape.equality m subject l r = .ok c)
    (h' : Shape.equality m subject' (l.relabel ρ) (r.relabel ρ) = .ok c') : c' = c.relabel ρ := by
  have same : _ = (Shape.equality m subject l r).toOption.map (Scalar.relabel ρ) :=
    Shape.equality_relabel subject subject' l r
  rw [h, h'] at same
  exact Option.some.inj same

theorem scalars_renamed {subject subject' : Subject} {s : Shape} {es es' : List Scalar}
    (h : Shape.scalars subject s = .ok es) (h' : Shape.scalars subject' (s.relabel ρ) = .ok es') :
    es' = es.map (Scalar.relabel ρ) := by
  have same : _ = (Shape.scalars subject s).toOption.map (List.map (Scalar.relabel ρ)) :=
    Shape.scalars_relabel subject subject' s
  rw [h, h'] at same
  exact Option.some.inj same

theorem RenamedPlanned.joinOn {k k' : List String} {u u' x x' : Workspace} {t t' : Planned} {source source' : Source}
    {shape shape' l l' r r' : Shape} {select select' : Select} {on on' : Scalar} {outerKey innerKey : Lambda}
    {subject subject' : Subject} (renames : Renames ρ base base' last last')
    (outer : RenamedPlanned ρ base base' own u u' t t' k)
    (inner : RenamedPlanned ρ base base' k w w' ⟨{ source }, shape, []⟩ ⟨{ source := source' }, shape', []⟩ k')
    (run : Step.Yields (Planning.against t.select (expr m (outerKey.params.zip [t.shape]) outerKey.body)) w (l, select) x)
    (run' : Step.Yields (Planning.against t'.select (expr m (outerKey.params.zip [t'.shape]) outerKey.body)) w'
      (l', select') x')
    (alone : Step.Yields (standalone m (innerKey.params.zip [shape]) subject innerKey.body) x r v)
    (alone' : Step.Yields (standalone m (innerKey.params.zip [shape']) subject' innerKey.body) x' r' v')
    (equality : Shape.equality m subject l r = .ok on) (equality' : Shape.equality m subject' l' r' = .ok on')
    (early : v.labels <+: last) (early' : v'.labels <+: last') :
    ∃ later, own <+: later ∧ Renamed ρ base base' later v v' ∧ t' = t.relabel ρ ∧ shape' = shape.relabel ρ ∧
      ({ select' with joins := select'.joins ++ [⟨.inner, source', some on'⟩] } : Select) =
        ({ select with joins := select.joins ++ [⟨.inner, source, some on⟩] } : Select).relabel ρ ∧
      ∀ s ∈ [t.shape, shape], ∀ l ∈ s.labels, l ∈ later := by
  obtain ⟨selects, rfl, -⟩ := Planned.mk.inj inner.plan
  obtain rfl : source' = Source.relabel ρ source := congrArg Select.source selects
  have waiting := outer.later inner.more inner.workspaces
  obtain ⟨k, keys, more⟩ := waiting.against renames [] run run' ((standalone_extends alone).more.trans early)
    ((standalone_extends alone').more.trans early')
  obtain ⟨rfl, rfl, -⟩ := Planned.mk.inj keys.plan
  -- the key of the source is planned on its own
  have known : ∀ l ∈ shape.labels, l ∈ k := fun l member => more.subset (inner.known l member)
  rw [show [shape.relabel ρ] = [shape].map (Shape.relabel ρ) from rfl, ← relabelFields_zip] at alone'
  obtain ⟨later, more', workspaces, rfl, -⟩ :=
    standalone_relabel renames keys.workspaces (reads_single known _) alone alone' early early'
  obtain rfl := equality_renamed equality equality'
  refine ⟨later, keys.more.trans more', workspaces, outer.plan, rfl, (joined_relabel _ _ _ _).symm, ?_⟩
  refine List.forall_mem_cons.2 ⟨fun l member => ?_, List.forall_mem_singleton.2 fun l member => ?_⟩
  · exact more'.subset (more.subset (waiting.known l member))
  · exact more'.subset (known l member)

theorem unite_relabel (renames : Renames ρ base base' last last') (start : Renamed ρ base base' own w w')
    {subject subject' : Subject} {l r p p' : Planned} (run : Step.Yields (unite m subject l r) w p v)
    (run' : Step.Yields (unite m subject' (l.relabel ρ) (r.relabel ρ)) w' p' v') (early : v.labels <+: last)
    (early' : v'.labels <+: last') : ∃ later, RenamedPlanned ρ base base' own v v' p p' later := by
  simp only [unite, Step.yields_bind, Step.yields_ofResult] at run run'
  obtain ⟨label, _, new, ⟨shape, columns⟩, _, ⟨exposed, rfl⟩, ⟨t, others⟩, _, ⟨behind, rfl⟩, run⟩ := run
  obtain ⟨label', _, new', ⟨shape', columns'⟩, _, ⟨exposed', rfl⟩, ⟨t', others'⟩, _, ⟨behind', rfl⟩, run'⟩ := run'
  split at run
  next =>
    obtain ⟨_, _, failed, -⟩ := Step.yields_bind.1 run
    exact absurd failed (Step.yields_fail _ _)
  next =>
    split at run'
    next =>
      obtain ⟨_, _, failed, -⟩ := Step.yields_bind.1 run'
      exact absurd failed (Step.yields_fail _ _)
    next =>
      obtain ⟨rfl, rfl⟩ := Step.yields_pure.1 run
      obtain ⟨rfl, rfl⟩ := Step.yields_pure.1 run'
      -- both sides list the same columns, whatever the labels that they are read from
      obtain ⟨rfl, after⟩ := start.newLabel renames new new' early early'
      obtain ⟨rfl, rfl⟩ := expose_renamed exposed exposed'
      obtain ⟨-, rfl⟩ := expose_renamed behind behind'
      refine ⟨_, List.prefix_append _ _, after, ?_, fun l member => ?_⟩
      · obtain ⟨left, _, _⟩ := l
        obtain ⟨right, _, _⟩ := r
        cases left
        cases right
        rfl
      · obtain rfl := (exposed_of_expose exposed).labels l member
        exact List.mem_append_right _ (List.mem_singleton_self _)

/-! ## Queries under other labels -/

/-- A query is planned as the same, under other labels. -/
theorem query_relabel (renames : Renames ρ base base' last last') {q : Query} {p p' : Planned}
    (start : Renamed ρ base base' own w w') (h : Step.Yields (query m q) w p v)
    (h' : Step.Yields (query m q) w' p' v') (early : v.labels <+: last) (early' : v'.labels <+: last') :
    ∃ later, RenamedPlanned ρ base base' own v v' p p' later := by
  induction q generalizing own w w' p p' v v' with
  | set name =>
    obtain ⟨e, t, known, -, table, rfl⟩ := set_yields h
    obtain ⟨e', t', known', -, table', rfl⟩ := set_yields h'
    obtain rfl := Option.some.inj (known.symm.trans known')
    obtain ⟨rfl, after⟩ := start.newTable renames table table' early early'
    refine ⟨_, List.prefix_append _ _, after, rfl, fun l member => ?_⟩
    obtain rfl := List.mem_singleton.1 member
    exact List.mem_append_right _ (List.mem_singleton_self _)
  | rows rows =>
    obtain ⟨label, added, rfl⟩ := rows_yields h
    obtain ⟨label', added', rfl⟩ := rows_yields h'
    obtain ⟨rfl, after⟩ := start.newLabel renames added added' early early'
    refine ⟨_, List.prefix_append _ _, after, ?_, fun l member => ?_⟩
    · unfold Planned.relabel Shape.relabel
      rw [Shape.relabelFields_eq_map, List.map_map]
      rfl
    · obtain ⟨f, field, inside⟩ := Shape.mem_fieldsLabels.1 member
      obtain ⟨c, -, rfl⟩ := List.mem_map.1 field
      obtain rfl := List.mem_singleton.1 inside
      exact List.mem_append_right _ (List.mem_singleton_self _)
  | filter input predicate ih =>
    obtain ⟨s, x, t, y, c, select, first, wrapped, run, rfl⟩ := filter_yields h
    obtain ⟨s', x', t', y', c', select', first', wrapped', run', rfl⟩ := filter_yields h'
    have last := (against_scalar_extends run).more.trans early
    have last' := (against_scalar_extends run').more.trans early'
    obtain ⟨k, inputs⟩ := ih start first first' ((wrapIf_extends wrapped).more.trans last)
      ((wrapIf_extends wrapped').more.trans last')
    obtain ⟨k, operands, -⟩ := inputs.wrapIf renames (inputs.plan ▸ isClosed_relabel) wrapped wrapped' last last'
    obtain ⟨k, more, workspaces, rfl, rfl, shapes, operators, known⟩ := operands.scalar renames
      (fun s => predicate.params.zip [s]) (relabelFields_zip _ [_]).symm
      (reads_single operands.known _) run run' early early'
    refine ⟨k, more, workspaces, ?_, known⟩
    unfold Planned.relabel
    rw [addFilter_relabel, shapes, operators]
  | map input selector ih =>
    obtain ⟨s, x, shape, select, first, run, rfl⟩ := map_yields h
    obtain ⟨s', x', shape', select', first', run', rfl⟩ := map_yields h'
    obtain ⟨k, inputs⟩ := ih start first first' ((against_extends run).more.trans early)
      ((against_extends run').more.trans early')
    obtain ⟨k, planned, -⟩ := inputs.against renames s.operators run run' early early'
    obtain rfl := inputs.plan
    exact ⟨k, planned⟩
  | join outer inner outerKey innerKey result iho ihi =>
    obtain ⟨s, x, t, y, i, z, source, shape, a, l, select, b, r, c, on, element, last₁, first, wrapped, second, sourced,
      run, alone, equality, both, rfl⟩ := join_yields h
    obtain ⟨s', x', t', y', i', z', source', shape', a', l', select', b', r', c', on', element', last₁', first', wrapped',
      second', sourced', run', alone', equality', both', rfl⟩ := join_yields h'
    -- the labels that are in use at each step, from the last step back
    have atResult := (against_extends both).more.trans early
    have atInnerKey := (standalone_extends alone).more.trans atResult
    have atOuterKey := (against_extends run).more.trans atInnerKey
    have atSource := (asSource_extends sourced).more.trans atOuterKey
    have atInner := (query_extends second).more.trans atSource
    have atOuter := (wrapIf_extends wrapped).more.trans atInner
    have atResult' := (against_extends both').more.trans early'
    have atInnerKey' := (standalone_extends alone').more.trans atResult'
    have atOuterKey' := (against_extends run').more.trans atInnerKey'
    have atSource' := (asSource_extends sourced').more.trans atOuterKey'
    have atInner' := (query_extends second').more.trans atSource'
    have atOuter' := (wrapIf_extends wrapped').more.trans atInner'
    obtain ⟨k, inputs⟩ := iho start first first' atOuter atOuter'
    obtain ⟨k, operands, -⟩ := inputs.wrapIf renames inputs.isClosedOrGrouped wrapped wrapped' atInner atInner'
    obtain ⟨k, inners⟩ := ihi operands.workspaces second second' atSource atSource'
    -- the inner query is planned as the source that joins
    obtain rfl := inners.plan
    obtain ⟨k, sources⟩ := asSource_relabel renames inners.workspaces inners.known sourced sourced' atOuterKey atOuterKey'
    obtain ⟨k, more, workspaces, rfl, rfl, joined, known⟩ := operands.joinOn renames
      { sources with more := inners.more.trans sources.more } run run' alone alone' equality equality' atResult atResult'
    -- the result is planned in the scope of both
    rw [joined, show [(t.relabel ρ).shape, shape.relabel ρ] = [t.shape, shape].map (Shape.relabel ρ) from rfl,
      ← relabelFields_zip] at both'
    obtain ⟨latest, results⟩ := against_relabel renames workspaces (t.operators ++ ["Join"]) (reads_zip known) both both'
      early early'
    exact ⟨latest, more.trans results.more, results.workspaces, results.plan, results.known⟩
  | orderBy input key descending ih =>
    obtain ⟨s, x, t, y, shape, select, keys, first, wrapped, run, found, rfl⟩ := orderBy_yields h
    obtain ⟨s', x', t', y', shape', select', keys', first', wrapped', run', found', rfl⟩ := orderBy_yields h'
    have last := (against_extends run).more.trans early
    have last' := (against_extends run').more.trans early'
    obtain ⟨k, inputs⟩ := ih start first first' ((wrapIf_extends wrapped).more.trans last)
      ((wrapIf_extends wrapped').more.trans last')
    obtain ⟨k, operands, -⟩ := inputs.wrapIf renames (inputs.plan ▸ isClosed_relabel) wrapped wrapped' last last'
    obtain ⟨k', planned, more⟩ := operands.against renames t.operators run run' early early'
    obtain rfl := operands.plan
    obtain ⟨rfl, rfl, -⟩ := Planned.mk.inj planned.plan
    obtain rfl := scalars_renamed found found'
    refine ⟨k', planned.more, planned.workspaces, ?_, fun l member => more.subset (operands.known l member)⟩
    cases select
    simp [Planned.relabel, Select.relabel, OrderItem.relabel, Function.comp_def]
  | take input count ih =>
    obtain ⟨s, x, t, y, c, select, first, wrapped, run, rfl⟩ := take_yields h
    obtain ⟨s', x', t', y', c', select', first', wrapped', run', rfl⟩ := take_yields h'
    have last := (against_scalar_extends run).more.trans early
    have last' := (against_scalar_extends run').more.trans early'
    obtain ⟨k, inputs⟩ := ih start first first' ((wrapIf_extends wrapped).more.trans last)
      ((wrapIf_extends wrapped').more.trans last')
    have needed : (s'.select.limit.isSome || s'.select.union.isSome) = (s.select.limit.isSome || s.select.union.isSome) := by
      rw [query_union first, query_union first', inputs.plan, Planned.relabel, Select.relabel_eq, Option.isSome_map]
    obtain ⟨k, operands, -⟩ := inputs.wrapIf renames needed wrapped wrapped' last last'
    obtain ⟨k, more, workspaces, rfl, rfl, shapes, operators, known⟩ := operands.scalar renames (fun _ => [])
      rfl (fun _ none => absurd none List.not_mem_nil) run run' early early'
    refine ⟨k, more, workspaces, ?_, known⟩
    rw [shapes, operators]
    cases select
    rfl
  | skip input count ih =>
    obtain ⟨s, x, t, y, c, select, first, wrapped, run, rfl⟩ := skip_yields h
    obtain ⟨s', x', t', y', c', select', first', wrapped', run', rfl⟩ := skip_yields h'
    have last := (against_scalar_extends run).more.trans early
    have last' := (against_scalar_extends run').more.trans early'
    obtain ⟨k, inputs⟩ := ih start first first' ((wrapIf_extends wrapped).more.trans last)
      ((wrapIf_extends wrapped').more.trans last')
    obtain ⟨k, operands, -⟩ := inputs.wrapIf renames (inputs.plan ▸ isClosed_relabel) wrapped wrapped' last last'
    obtain ⟨k, more, workspaces, rfl, rfl, shapes, operators, known⟩ := operands.scalar renames (fun _ => [])
      rfl (fun _ none => absurd none List.not_mem_nil) run run' early early'
    refine ⟨k, more, workspaces, ?_, known⟩
    rw [shapes, operators]
    cases select
    rfl
  | groupBy input key ih =>
    obtain ⟨s, x, t, y, shape, select, keys, first, wrapped, run, found, rfl⟩ := groupBy_yields h
    obtain ⟨s', x', t', y', shape', select', keys', first', wrapped', run', found', rfl⟩ := groupBy_yields h'
    have last := (against_extends run).more.trans early
    have last' := (against_extends run').more.trans early'
    obtain ⟨k, inputs⟩ := ih start first first' ((wrapIf_extends wrapped).more.trans last)
      ((wrapIf_extends wrapped').more.trans last')
    obtain ⟨k, operands, -⟩ := inputs.wrapIf renames inputs.isClosedOrGrouped wrapped wrapped' last last'
    obtain ⟨k', planned, more⟩ := operands.against renames t.operators run run' early early'
    obtain rfl := operands.plan
    obtain ⟨rfl, rfl, -⟩ := Planned.mk.inj planned.plan
    obtain rfl := scalars_renamed found found'
    refine ⟨k', planned.more, planned.workspaces, ?_, planned.known⟩
    cases select
    simp [Planned.relabel, Select.relabel, Shape.relabel]
  | union left right ihl ihr =>
    obtain ⟨l, x, r, y, t, z, u, a, first, second, wrapped, wrappedRight, united⟩ := union_yields h
    obtain ⟨l', x', r', y', t', z', u', a', first', second', wrapped', wrappedRight', united'⟩ := union_yields h'
    have last := (unite_extends united).more.trans early
    have atRight := (wrapIf_extends wrappedRight).more.trans last
    have atWrapping := (wrapIf_extends wrapped).more.trans atRight
    have last' := (unite_extends united').more.trans early'
    have atRight' := (wrapIf_extends wrappedRight').more.trans last'
    have atWrapping' := (wrapIf_extends wrapped').more.trans atRight'
    obtain ⟨k₁, lefts⟩ := ihl start first first' ((query_extends second).more.trans atWrapping)
      ((query_extends second').more.trans atWrapping')
    obtain ⟨k₂, rights⟩ := ihr lefts.workspaces second second' atWrapping atWrapping'
    -- the left side is wrapped only after the right side has been planned, and the other way around
    have lefts := lefts.later rights.more rights.workspaces
    obtain ⟨k₃, lefts, more⟩ := lefts.wrapIf renames lefts.isPagedOrOrdered wrapped wrapped' atRight atRight'
    have rights := rights.later more lefts.workspaces
    obtain ⟨k₄, rights, more'⟩ := rights.wrapIf renames rights.isPagedOrOrdered wrappedRight wrappedRight' last last'
    obtain rfl := lefts.plan
    obtain rfl := rights.plan
    obtain ⟨k₅, results⟩ := unite_relabel renames rights.workspaces united united' early early'
    exact ⟨k₅, { results with more := (lefts.more.trans more').trans results.more }⟩

theorem sourceElements_same {db : Database} {env : Environment} {q : Query} {subject subject' : Subject}
    {u u' v v' w w' : Workspace} {s s' : Planned} {source source' : Source} {shape shape' : Shape} (sound : w.Sound)
    (sound' : w'.Sound) (distinct : w.labels.Nodup) (distinct' : w'.labels.Nodup) (run : Step.Yields (query m q) w s u)
    (sourced : Step.Yields (asSource m subject s) u (source, shape) v) (run' : Step.Yields (query m q) w' s' u')
    (sourced' : Step.Yields (asSource m subject' s') u' (source', shape') v') {rs rs' : RowSet}
    (rows : sourceRows db env source = .ok rs) (rows' : sourceRows db env source' = .ok rs') :
    (rs'.rows.map fun r => shape'.element m env [rs'.visible r]) =
      rs.rows.map fun r => shape.element m env [rs.visible r] := by
  have after := (query_extends run).trans (asSource_extends sourced)
  have after' := (query_extends run').trans (asSource_extends sourced')
  obtain ⟨ρ, renames⟩ := exists_renames after.more after'.more (after.distinct distinct) (after'.distinct distinct')
  have start : Renamed ρ w.labels w'.labels [] w w' :=
    ⟨by simp, by simp, sound, sound', fun _ none => absurd none List.not_mem_nil, fun _ none => absurd none List.not_mem_nil⟩
  obtain ⟨k, planned⟩ := query_relabel renames start run run' (asSource_extends sourced).more (asSource_extends sourced').more
  obtain rfl := planned.plan
  obtain ⟨k, sources⟩ := asSource_relabel renames planned.workspaces planned.known sourced sourced' (List.prefix_refl _)
    (List.prefix_refl _)
  obtain ⟨selects, rfl, -⟩ := Planned.mk.inj sources.plan
  obtain rfl : source' = Source.relabel ρ source := congrArg Select.source selects
  have same : _ = (sourceRows db env source).toOption.map (RowSet.relabel ρ) := sourceRows_relabel renames.injective source
  rw [rows, rows'] at same
  obtain rfl : rs' = rs.relabel ρ := Option.some.inj same
  exact List.map_congr_left fun r _ => Shape.element_relabel renames.injective [rs.visible r] shape

end

end Setwise.Planning
