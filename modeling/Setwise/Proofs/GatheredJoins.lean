import Setwise.Proofs.GatheredOperators

/-!
Joined queries gather pairs of elements with equal keys.

Behind a join on keys, every frame shows an element of the outer query beside a partner of it (`Partnered`). The same holds
of an update that joins the rows of another query to its table, where the pairs are what its assignments are applied to.
-/

set_option autoImplicit false

namespace Setwise.Planning

open Client Relational Execution

section

variable {m : Model} {db : Database} {env : Environment} {u v w z z' z'' : Workspace} {t : Planned} {source : Source}
  {shape l r : Shape} {on : Scalar} {select : Select} {subject : Subject} {outerKey innerKey : Lambda}
  {all frames pairs : List Frame} {c : Gathered} {ys : List Element}

/-- What a lambda gives that is planned where nothing can join. -/
theorem standalone_gives (leads : LeadsOn m db) {lambda : Lambda} {args : List Shape} {labels : List String}
    (run : Step.Yields (standalone m (lambda.params.zip args) subject lambda.body) v shape w)
    (unread : ∀ entry ∈ v.navigations, entry.1.1 ∉ labels) (visible : ∀ a ∈ args, ∀ k ∈ a.labels, k ∈ labels) :
    w.navigations = v.navigations ∧ (∀ k ∈ shape.labels, k ∈ labels) ∧ ∀ (env : Environment) (f : Frame),
      lambda.gives m db env.parameters (args.map Shape.isNullAt) (args.map (Shape.element m env f)) =
        some (shape.element m env f) := by
  obtain ⟨planned, still⟩ := standalone_yields run
  obtain ⟨same, seen, value⟩ := expr_standalone (w := { v with joins := [] }) lambda.body leads unread (reads_zip visible)
    planned still
  refine ⟨by rw [same], seen, fun env f => ?_⟩
  have value := value env f
  rw [plannedAsNull_zip, fieldElements_zip] at value
  exact value

/-! ## Pairs -/

/-- The frames show gathered elements beside their partners among `ys`. -/
structure Partnered (m : Model) (db : Database) (env : Environment) (outerKey innerKey : Lambda) (ys : List Element)
    (orderBy : List OrderItem) (s shape : Shape) (all frames : List Frame) (c : Gathered) : Prop where
  collect : ∀ {γ : Type} (make : Row → Element → Element → Option γ),
    (frames.filterMap fun g => make (keyRow env orderBy g) (s.element m env g) (shape.element m env g)) =
      c.entries.flatMap fun x => (outerKey.gives m db env.parameters [c.nulls] [x.2]).toList.flatMap fun key =>
        (partnersOf m (fun y => innerKey.gives m db env.parameters [shape.isNullAt] [y]) ys key).filterMap (make x.1 x.2)
  met : ∀ g ∈ all, ∀ a ∈ [s, shape], (a.element m env g).Within (Met m db)

theorem pairs_beside (leads : LeadsOn m db) (inScope : JoinScope u z z' z'' t source shape l r on select)
    (ungrouped : t.select.groupBy = []) (having : t.select.having = none)
    (own : outerKey.ReadsOwn m [t.shape] t.select z)
    (run : Step.Yields (against t.select (expr m (outerKey.params.zip [t.shape]) outerKey.body)) z (l, select) z')
    (alone : Step.Yields (standalone m (innerKey.params.zip [shape]) subject innerKey.body) z' r z'')
    (equality : Shape.equality m subject l r = .ok on) {rs : RowSet} (rows : sourceRows db env source = .ok rs)
    (met : ∀ row ∈ rs.rows, (shape.element m env [rs.visible row]).Within (Met m db))
    (joined : joinedFrames db env { select with joins := select.joins ++ [⟨.inner, source, some on⟩] } = .ok pairs) :
    ∃ all base, Keeps db env t.select all base ∧ ∀ c, Represents m db env t all base c →
      Partnered m db env outerKey innerKey (rs.rows.map fun row => shape.element m env [rs.visible row]) t.select.orderBy
        t.shape shape pairs (pairs.filter (passes env t.select.predicate)) c := by
  obtain ⟨outer, rs', joinedOuter, rows', rfl⟩ := joinedFrames_inner joined
  obtain rfl := Except.ok.inj (rows.symm.trans rows')
  obtain ⟨all, before⟩ := joined_of_against inScope.waiting (by simpa using inScope.waiting.shape) run joinedOuter
  refine ⟨all, _, keeps_ungrouped before ungrouped having, fun c represents => ?_⟩
  obtain ⟨byKey, -⟩ := lambda_gives leads inScope.waiting.inScope (by simpa using inScope.waiting.shape) own run
    (by simpa using represents.met) before joinedOuter
  obtain ⟨-, same⟩ := against_yields.1 run
  have predicate : select.predicate = t.select.predicate := by rw [same]
  have orderBy : select.orderBy = t.select.orderBy := by rw [same]
  have labels {f : Frame} (member : f ∈ outer) : Frame.labels f = select.labels := labels_of_joinedFrames joinedOuter member
  have clauses := inScope.read.planned.clauses
  simp only [mem_clauses, predicate, orderBy] at clauses
  have unread : ∀ entry ∈ z'.navigations, entry.1.1 ∉ [source.label] := fun entry inside => by
    simpa using inScope.single.unread entry inside
  obtain ⟨-, -, innerKeys⟩ := standalone_gives leads alone unread (by simpa using inScope.inner)
  refine ⟨fun {γ} make => ?_, fun g member a argument => ?_⟩
  -- the rows whose keys equal that of a frame show the partners of its element, in the order of the rows
  · have byPair (f : Frame) (member : f ∈ outer) :
        ((extensions env .inner (some on) rs f).filterMap fun g =>
          make (keyRow env t.select.orderBy g) (t.shape.element m env g) (shape.element m env g)) =
        (partnersOf m (fun y => innerKey.gives m db env.parameters [shape.isNullAt] [y])
          (rs.rows.map fun row => shape.element m env [rs.visible row]) (l.element m env f)).filterMap
            (make (keyRow env t.select.orderBy f) (t.shape.element m env f)) := by
      rw [← inScope.partners joinedOuter member rows equality fun row _ => innerKeys env [rs.visible row]]
      refine List.filterMap_congr fun g inside => ?_
      obtain ⟨rest, rfl⟩ := exists_of_mem_extensions inside
      rw [keyRow_append fun item found k seen => labels member ▸ clauses item.key (.inr (.inr (.inr ⟨item, found, rfl⟩))) k seen]
    have grown : Returns (all.filter (passes env t.select.predicate)) (outer.filter (passes env t.select.predicate)) _ _ :=
      byKey.filter fun f member g more =>
        passes_prefix inScope.waiting before (fun _ found => mem_clauses.2 (.inl found)) member more
    -- the frames in front are those of the elements, each followed by its pairs
    have collected := grown.flatMap (b := fun g => (keyRow env t.select.orderBy g, t.shape.element m env g))
      (fun f member g more => Prod.ext (keyRow_front inScope.waiting before (List.mem_filter.1 member).1 more)
        (shape_front inScope.waiting before (List.mem_filter.1 member).1 more))
      fun x key => (partnersOf m (fun y => innerKey.gives m db env.parameters [shape.isNullAt] [y])
          (rs.rows.map fun row => shape.element m env [rs.visible row]) key).filterMap (make x.1 x.2)
    rw [filter_extensions .inner (some on) rs fun f member e found k seen => labels member ▸ clauses e (.inl found) k seen,
      List.filterMap_flatMap, List.flatMap_congr fun f member => byPair f (List.mem_filter.1 member).1, collected,
      represents.entries, represents.nulls, List.flatMap_map]
    rfl
  · obtain ⟨f, inside, grown⟩ := List.mem_flatMap.1 member
    rw [extensions_inner] at grown
    obtain ⟨row, matching, rfl⟩ := List.mem_map.1 grown
    rcases List.mem_pair.1 argument with rfl | rfl
    · rw [inScope.outer_element joinedOuter inside]
      obtain ⟨g, here, more, -⟩ := Grow.origin byKey f inside
      rw [shape_front inScope.waiting before here more]
      exact represents.met g here
    · rw [inScope.inner_element joinedOuter inside rows inScope.inner]
      exact met row (List.mem_filter.1 matching).1

/-! ## Behind bound selects -/

variable (env) in
/-- The rows of another query as the source of a select. -/
theorem asSource_elements {q : Query} {s : Planned} {source' : Source} {rs : RowSet}
    (gathering : Gathering m db env q s) (single : s.select.union = none)
    (sourced : Step.Yields (asSource m subject s) v (source, shape) w) (given : Source.Resolves env.parameters source source')
    (rows : sourceRows db env source' = .ok rs) :
    ∃ d, q.Gathers m db env.parameters d ∧
      d.delivered? = some (rs.rows.map fun row => shape.element m env [rs.visible row]) ∧
      (shape.isNullAt = d.nulls ∨ shape.isNullAt = Nulls.none) ∧
      ∀ row ∈ rs.rows, (shape.element m env [rs.visible row]).Within (Met m db) := by
  obtain ⟨p, wrapped, selected, rfl⟩ := asSource_yields sourced
  -- a select without filters is left as it is
  have bare : ({ source } : Select).Compiles env.parameters { source := source' } :=
    Select.Compiles.intro (t := { source := source' }) (.intro given .nil .none rfl)
  have delivered : deliveredFrames db env { source := source' } = .ok (rs.rows.map fun r => [rs.visible r]) :=
    bind_eq_ok.2 ⟨_, selectFrames_eq_ok.2 ⟨_, joinedFrames_single.2 ⟨rs, rows, rfl⟩, restrict_bare _⟩, rfl⟩
  obtain ⟨d, gathers, elements, passed, met⟩ := gathering.operand_delivered single wrapped (selected ▸ bare) delivered
  rw [List.map_map] at elements
  exact ⟨d, gathers, elements, passed, fun row inside => met _ (List.mem_map_of_mem inside)⟩

/-- The pairs of a join, once its select is bound to the parameters. -/
structure Paired (m : Model) (db : Database) (env : Environment) (outer inner : Query) (outerKey innerKey : Lambda)
    (s : Select) (needed : Bool) (u z : Workspace) (t : Planned) (shape : Shape) (b : Select) (pairs : List Frame)
    (a : Select) (all base : List Frame) (c c' d : Gathered) (ys : List Element) : Prop where
  outer : outer.Gathers m db env.parameters c
  paged : c.isPaged = s.isPaged
  grouped : c.grouped = !s.groupBy.isEmpty
  opened : c.opened? needed = some c'
  represents : Represents m db env { t with select := a } all base c'
  inner : inner.Gathers m db env.parameters d
  delivered : d.delivered? = some ys
  passed : shape.isNullAt = d.nulls ∨ shape.isNullAt = Nulls.none
  beside : Partnered m db env outerKey innerKey ys b.orderBy t.shape shape pairs (pairs.filter (passes env b.predicate)) c'
  planned : FreshlyPlanned u z { t with select := b }
  visible : ∀ a ∈ [t.shape, shape], ∀ k ∈ a.labels, k ∈ b.labels
  same : b = { a with joins := b.joins }

theorem joins_paired (leads : LeadsOn m db) (sound : u.Sound) {outer inner : Query} {s i : Planned} {x y : Workspace}
    {needed : Bool} (gathering : Gathering m db env outer s) (gathering' : Gathering m db env inner i)
    (first : Step.Yields (query m outer) u s v) (wrapped : Step.Yields (wrapIf m subject needed s) v t x)
    (ungrouped : t.select.groupBy = []) (second : Step.Yields (query m inner) x i y) {subject' : Subject}
    (sourced : Step.Yields (asSource m subject' i) y (source, shape) z)
    (own : outerKey.ReadsOwn m [t.shape] t.select z)
    (run : Step.Yields (against t.select (expr m (outerKey.params.zip [t.shape]) outerKey.body)) z (l, select) z')
    (alone : Step.Yields (standalone m (innerKey.params.zip [shape]) subject' innerKey.body) z' r z'')
    (equality : Shape.equality m subject' l r = .ok on) {b : Select}
    (bound : ({ select with joins := select.joins ++ [⟨.inner, source, some on⟩] } : Select).Resolves env.parameters b)
    (joined : joinedFrames db env b = .ok pairs) :
    ∃ a all base c c' d ys,
      Paired m db env outer inner outerKey innerKey s.select needed u z'' t shape b pairs a all base c c' d ys := by
  obtain ⟨select', source', resolved, given, rfl⟩ := bound.join
  obtain ⟨a, bare, run'⟩ := against_bound run resolved
  obtain ⟨-, same⟩ := against_yields.1 run'
  have planned := (query_planned sound first).wrapIf wrapped
  have regular := (query_regular first).wrapIf wrapped
  have behind := (query_planned planned.inScope.sound second).asSource sourced
  have single : ({ source } : Select).Resolves env.parameters { source := source' } := .intro given .nil .none rfl
  have aloneBound : Step.Yields (standalone m (innerKey.params.zip [shape]) subject' innerKey.body)
      { z' with joins := select'.joins } r z'' := alone
  -- every label that the key, the condition or the partner reads belongs to one of the two sides
  have inScope := join_scope on (planned.bound bare) (behind.bound single) run' aloneBound
  obtain ⟨outerFrames, rs, -, rows, -⟩ := joinedFrames_inner joined
  obtain ⟨d, inner', elements, passed, met⟩ := asSource_elements env gathering' (query_union second) sourced given rows
  have plain : a.groupBy = [] ∧ a.having = none := by
    rw [bare.same]
    exact ⟨ungrouped, regular.ungrouped ungrouped⟩
  obtain ⟨all, base, keeps, beside⟩ := pairs_beside leads inScope plain.1 plain.2 (own.behind bare.joins.stands) run'
    aloneBound equality rows met joined
  obtain ⟨c, c', outer', opened, represents, paged, -, grouped⟩ :=
    gathering.operand (query_union first) wrapped bare keeps
  -- the joins aside, a key lambda leaves the select as it was
  have alike (js : List (Join Select)) : ({ select' with joins := js } : Select) = { a with joins := js } := by
    have clauses := congrArg (fun r : Select => { r with joins := js }) same
    exact clauses
  have orderBy : select'.orderBy = a.orderBy := by rw [same]
  have predicate : select'.predicate = a.predicate := by rw [same]
  refine ⟨a, all, base, c, c', d, _, outer', paged, grouped, opened, represents, inner', elements, passed, ?_, inScope.aside,
    inScope.visible, alike _⟩
  dsimp only
  rw [orderBy, predicate]
  exact beside c' represents

theorem joined_earlier {scope : Scope} {e : Expr} {s : Shape} {select' : Select}
    (run : Step.Yields (against select (expr m scope e)) v (s, select') w) (joined : joinedFrames db env select' = .ok all) :
    ∃ before, joinedFrames db env select = .ok before := by
  obtain ⟨planned, rfl⟩ := against_yields.1 run
  let later : Select := { select with joins := w.joins }
  obtain ⟨before, found, -⟩ := carried_along (m := m) (show later.source = select.source from rfl)
    (expr_replays e planned).longer joined
  exact ⟨before, found⟩

theorem join_gathered (leads : LeadsOn m db) (sound : u.Sound) {outer inner : Query} {s i : Planned} {x y : Workspace}
    (gathering : Gathering m db env outer s) (gathering' : Gathering m db env inner i)
    (first : Step.Yields (query m outer) u s v)
    (wrapped : Step.Yields (wrapIf m subject (isClosed s.select || !s.select.groupBy.isEmpty) s) v t x)
    (second : Step.Yields (query m inner) x i y) {subject' : Subject}
    (sourced : Step.Yields (asSource m subject' i) y (source, shape) z)
    (own : outerKey.ReadsOwn m [t.shape] t.select z)
    (run : Step.Yields (against t.select (expr m (outerKey.params.zip [t.shape]) outerKey.body)) z (l, select) z')
    (alone : Step.Yields (standalone m (innerKey.params.zip [shape]) subject' innerKey.body) z' r z'')
    (equality : Shape.equality m subject' l r = .ok on) {result : Lambda} {element : Shape} {select' : Select}
    (own' : result.ReadsOwn m [t.shape, shape]
      { select with joins := select.joins ++ [⟨.inner, source, some on⟩] } z'')
    (run' : Step.Yields (against { select with joins := select.joins ++ [⟨.inner, source, some on⟩] }
      (expr m (result.params.zip [t.shape, shape]) result.body)) z'' (element, select') w) {operators : List String} :
    Gathering m db env (.join outer inner outerKey innerKey result) ⟨select', element, operators⟩ := by
  intro b later found bound keeps
  obtain ⟨pairSelect, resolved, again⟩ := against_bound run' bound
  -- a grouped query is wrapped before it is joined, so the pairs are filtered only
  have ungrouped := ungrouped_of_wrapIf wrapped
  have joined := keeps.joined
  obtain ⟨pairs, joinedPairs⟩ := joined_earlier again joined
  obtain ⟨a, all, base, c, c', d, ys, h⟩ := joins_paired leads sound gathering gathering' first wrapped ungrouped second
    sourced own run alone equality resolved joinedPairs
  obtain ⟨byResult, met⟩ := lambda_gives leads h.planned.inScope h.visible (own'.behind resolved.joins.stands) again
    h.beside.met joinedPairs joined
  obtain ⟨-, same⟩ := against_yields.1 again
  have plain : b.groupBy = [] ∧ b.having = none := by
    rw [bound.same, (against_yields.1 run').2, (against_yields.1 run).2]
    exact ⟨ungrouped, ((query_regular first).wrapIf wrapped).ungrouped ungrouped⟩
  obtain rfl := keeps.ungrouped plain.1 plain.2
  have grown : Returns (pairs.filter (passes env pairSelect.predicate)) (later.filter (passes env pairSelect.predicate)) _ _ :=
    byResult.filter fun f member g more =>
      passes_prefix h.planned joinedPairs (fun _ found => mem_clauses.2 (.inl found)) member more
  have shown := grown.filterMap (b := keyRow env pairSelect.orderBy)
    (fun f member g more => keyRow_front h.planned joinedPairs (List.mem_filter.1 member).1 more) fun k z => some (k, z)
  -- collected from the pairs of elements on one side, and from the frames of the final select on the other
  have collected := h.beside.collect fun k x y =>
    (result.gives m db env.parameters [c'.nulls, shape.isNullAt] [x, y]).map fun z => (k, z)
  have opened := h.opened
  rw [isClosed_of_isPaged (query_union first), ← h.paged, ← h.grouped] at opened
  have sameClauses : b = { a with joins := b.joins } := by
    rw [same, h.same]
  refine ⟨_, .join h.outer opened h.inner h.delivered h.passed, h.represents.with_entries ?_ ?_ ?_ met⟩
  · rw [sameClauses]
    exact ⟨rfl, rfl, rfl, rfl⟩
  · have predicate : b.predicate = pairSelect.predicate := by rw [same]
    have orderBy : pairSelect.orderBy = a.orderBy := by rw [h.same]
    rw [List.filterMap_eq_map', orderBy] at shown
    rw [orderBy] at collected
    rw [predicate]
    refine collected.symm.trans (Eq.trans (List.filterMap_congr fun g _ => ?_) shown.symm)
    rw [Option.map_eq_bind, h.represents.nulls]
    rfl
  · rw [isNullAt_gives again, h.represents.nulls]
    rfl

end

end Setwise.Planning
