import Setwise.Proofs.Delivery

/-!
Joins and unions of planned queries deliver what they mean.

Joined frames are a nested loop over the frames of one side and the rows of the other, and the clauses of the
select do not see the new rows (`arranged_extensions`). The rows of a union are the column rows of the elements
of its sides, which are read in one way where they are of one type (`Delivers.union`).
-/

set_option autoImplicit false

namespace Setwise.Planning

open Client Relational Execution Sorting

variable {m : Model} {db : Database} {env : Environment} {t : ElementType} {xs ys : List Element}

/-! ## Join -/

theorem eval_last {f : Frame} {b : Visible} (new : b.label ∉ Frame.labels f) {e : Scalar}
    (reads : ∀ l ∈ e.sources, l = b.label) : eval env (f ++ [b]) e = eval env [b] e := by
  induction e with
  | column source name =>
    obtain rfl := reads source (List.mem_singleton_self _)
    rw [eval_column_last new, eval_column_single]
  | constant v => rfl
  | parameter name => rfl
  | excluded column => rfl
  | binary l op r ihl ihr =>
    simp only [Scalar.sources, List.mem_append] at reads
    unfold eval
    rw [ihl fun s hs => reads s (.inl hs), ihr fun s hs => reads s (.inr hs)]
  | not e ih | isNull e ih | isNotNull e ih =>
    unfold eval
    rw [ih reads]
  | case test a b iht iha ihb =>
    simp only [Scalar.sources, List.mem_append] at reads
    unfold eval
    rw [iht fun s hs => reads s (.inl (.inl hs)), iha fun s hs => reads s (.inl (.inr hs)),
      ihb fun s hs => reads s (.inr hs)]

theorem element_last {f : Frame} {b : Visible} (new : b.label ∉ Frame.labels f) {s : Shape}
    (reads : ∀ l ∈ s.labels, l = b.label) : s.element m env (f ++ [b]) = s.element m env [b] := by
  induction s using Shape.induction with
  | scalar e =>
    unfold Shape.element
    rw [eval_last new reads]
  | entity r =>
    have same (c : String) : eval env (f ++ [b]) (r.column c) = eval env [b] (r.column c) :=
      eval_last new (by simpa [EntityView.column, Scalar.sources, Shape.labels] using reads)
    simp only [Shape.element, same]
  | record fields ih =>
    simp only [Shape.element, Shape.fieldElements_eq_map, Element.record.injEq]
    refine List.map_congr_left fun p member => ?_
    rw [ih p member fun l hl => reads l (Shape.mem_fieldsLabels.2 ⟨p, member, hl⟩)]
  | grouping key ih =>
    unfold Shape.element
    rw [ih reads]
  | excluded name columns => rfl

theorem extensions_inner (on : Option Scalar) (rs : RowSet) (f : Frame) :
    extensions env .inner on rs f =
      (rs.rows.filter fun r => passes env on (f ++ [rs.visible r])).map fun r => f ++ [rs.visible r] := by
  have kind : (JoinKind.inner == JoinKind.leftOuter) = false := rfl
  simp only [extensions, kind, Bool.and_false, Bool.false_eq_true, if_false]
  rfl

theorem joinedFrames_inner {s : Select} {source : Source} {on : Option Scalar} {all : List Frame}
    (h : joinedFrames db env { s with joins := s.joins ++ [⟨.inner, source, on⟩] } = .ok all) :
    ∃ before rs, joinedFrames db env s = .ok before ∧ sourceRows db env source = .ok rs ∧
      all = before.flatMap (extensions env .inner on rs) := by
  obtain ⟨before, rs, joinedBefore, rows, all, -⟩ := joinedFrames_snoc h
  exact ⟨before, rs, joinedBefore, rows, all⟩

theorem passes_append {condition : Option Scalar} {f : Frame}
    (reads : ∀ e ∈ condition, ∀ l ∈ e.sources, l ∈ Frame.labels f) (g : Frame) :
    passes env condition (f ++ g) = passes env condition f := by
  cases condition with
  | none => rfl
  | some e => simp only [passes_some, valueOf, eval_append (reads e rfl) g]

theorem evalAll_append {es : List Scalar} {f : Frame} (reads : ∀ e ∈ es, ∀ l ∈ e.sources, l ∈ Frame.labels f)
    (g : Frame) : evalAll env (f ++ g) es = evalAll env f es := by
  induction es with
  | nil => rfl
  | cons e rest ih =>
    obtain ⟨first, others⟩ := List.forall_mem_cons.1 reads
    unfold evalAll
    rw [eval_append first, ih others]

theorem keyRow_append {items : List OrderItem} {f : Frame}
    (reads : ∀ item ∈ items, ∀ l ∈ item.key.sources, l ∈ Frame.labels f) (g : Frame) :
    keyRow env items (f ++ g) = keyRow env items f := by
  unfold keyRow
  rw [evalAll_append (List.forall_mem_map.2 reads)]

theorem filter_extensions {predicate : Option Scalar} {frames : List Frame} (kind : JoinKind) (on : Option Scalar)
    (rs : RowSet) (reads : ∀ f ∈ frames, ∀ e ∈ predicate, ∀ l ∈ e.sources, l ∈ Frame.labels f) :
    (frames.flatMap (extensions env kind on rs)).filter (passes env predicate) =
      (frames.filter (passes env predicate)).flatMap (extensions env kind on rs) := by
  refine filter_flatMap fun f member g inside => ?_
  obtain ⟨rest, rfl⟩ := exists_of_mem_extensions inside
  exact passes_append (reads f member) rest

/-- A predicate and keys that only read the frames before a join can be asked before the join. -/
theorem arranged_extensions {predicate : Option Scalar} {items : List OrderItem} {frames : List Frame}
    (kind : JoinKind) (on : Option Scalar) (rs : RowSet)
    (reads : ∀ f ∈ frames, ∀ e ∈ predicate, ∀ l ∈ e.sources, l ∈ Frame.labels f)
    (keyReads : ∀ f ∈ frames, ∀ item ∈ items, ∀ l ∈ item.key.sources, l ∈ Frame.labels f)
    (preordered : Preordered (frameLe env items) (frames.filter (passes env predicate))) :
    let joined := (frames.flatMap (extensions env kind on rs)).filter (passes env predicate)
    Preordered (frameLe env items) joined ∧ arranged env items joined =
      (arranged env items (frames.filter (passes env predicate))).flatMap (extensions env kind on rs) := by
  have keys : ∀ f ∈ frames.filter (passes env predicate), ∀ g ∈ frames.filter (passes env predicate),
      ∀ f' ∈ extensions env kind on rs f, ∀ g' ∈ extensions env kind on rs g,
        frameLe env items f' g' = frameLe env items f g := by
    intro f hf g hg f' inside g' inside'
    obtain ⟨rest, rfl⟩ := exists_of_mem_extensions inside
    obtain ⟨rest', rfl⟩ := exists_of_mem_extensions inside'
    unfold frameLe
    rw [keyRow_append (keyReads f (List.mem_filter.1 hf).1), keyRow_append (keyReads g (List.mem_filter.1 hg).1)]
  intro joined
  unfold joined arranged
  rw [filter_extensions kind on rs reads]
  exact ⟨preordered.flatMap keys, flatMap_sorted preordered keys⟩

theorem pairs_of_extensions {α : Type} {on : Option Scalar} {rs : RowSet} {frames : List Frame}
    {outer : Frame → α} {inner : Row → α} {result : α × α → Element} {element : Frame → Element}
    {p : α × α → Option Bool} {pairs : List (α × α)}
    (decides : ∀ f ∈ frames, ∀ r ∈ rs.rows, ∀ keep, p (outer f, inner r) = some keep →
      passes env on (f ++ [rs.visible r]) = keep)
    (results : ∀ f ∈ frames, ∀ r, element (f ++ [rs.visible r]) = result (outer f, inner r))
    (kept : keepWhere p ((frames.map outer).flatMap fun x => (rs.rows.map inner).map fun y => (x, y)) =
      some pairs) :
    (frames.flatMap (extensions env .inner on rs)).map element = pairs.map result := by
  let all : List (Frame × Row) := frames.flatMap fun f => rs.rows.map fun r => (f, r)
  have split : ((frames.map outer).flatMap fun x => (rs.rows.map inner).map fun y => (x, y)) =
      all.map fun (f, r) => (outer f, inner r) := by
    simp only [all, List.flatMap_map, List.map_flatMap, List.map_map]
    rfl
  have inside {q : Frame × Row} (member : q ∈ all) : q.1 ∈ frames ∧ q.2 ∈ rs.rows := by
    obtain ⟨f, hf, member⟩ := List.mem_flatMap.1 member
    obtain ⟨r, hr, rfl⟩ := List.mem_map.1 member
    exact ⟨hf, hr⟩
  rw [split] at kept
  rw [keepWhere_map (q := fun (f, r) => passes env on (f ++ [rs.visible r]))
    (fun q member keep => decides q.1 (inside member).1 q.2 (inside member).2 keep) kept]
  simp only [all, List.filter_flatMap, List.filter_map, List.map_flatMap, List.map_map, extensions_inner]
  rw [List.flatMap_def, List.flatMap_def]
  refine congrArg List.flatten (List.map_congr_left fun f member => List.map_congr_left fun r _ => ?_)
  exact results f member r

/-- A select that keys join to the rows of a source delivers the pairs whose keys are equated. -/
theorem Delivers.join {p : Planned} (h : Delivers m db env t p xs) {v w : Workspace}
    (planned : FreshlyPlanned v w p) (limit : p.select.limit = none) (offset : p.select.offset = none)
    {source : Source} {shape : Shape} {operators operators' : List String} {u : ElementType}
    (inner : Delivers m db env u ⟨{ source }, shape, operators⟩ ys) (apart : source.label ∉ p.select.labels)
    (reads : ∀ l ∈ shape.labels, l = source.label) {subject : Subject} {outerKey innerKey result : Lambda}
    {a b c : ElementType} {l r element : Shape} {on : Scalar} (left : Applies m outerKey [p.shape] a l)
    (right : Applies m innerKey [shape] b r) (equality : Shape.equality m subject l r = .ok on)
    (applies : Applies m result [p.shape, shape] c element) {pairs : List (Element × Element)}
    (kept : keepWhere
      (fun (x, y) => (Element.equality m (outerKey.apply m db env.parameters [x])
        (innerKey.apply m db env.parameters [y])).map Value.isTrue)
      (xs.flatMap fun x => ys.map fun y => (x, y)) = some pairs) :
    Delivers m db env c
      ⟨{ p.select with joins := p.select.joins ++ [⟨.inner, source, some on⟩] }, element, operators'⟩
      (pairs.map fun (x, y) => result.apply m db env.parameters [x, y]) := by
  refine ⟨h.groupBy, h.having, applies.type, applies.nullFree, fun all joined => ?_⟩
  obtain ⟨before, rs, joinedBefore, rows, rfl⟩ := joinedFrames_inner joined
  obtain ⟨preordered, -⟩ := h.frames before joinedBefore
  have label : rs.label = source.label := label_of_sourceRows rows
  have labels {f : Frame} (member : f ∈ before) : Frame.labels f = p.select.labels :=
    labels_of_joinedFrames joinedBefore member
  have clauses := planned.clauses
  simp only [mem_clauses] at clauses
  obtain ⟨preordered', order⟩ := arranged_extensions .inner (some on) rs
    (fun f member e found s hs => labels member ▸ clauses e (.inl found) s hs)
    (fun f member item found s hs =>
      labels member ▸ clauses item.key (.inr (.inr (.inr ⟨item, found, rfl⟩))) s hs) preordered
  refine ⟨preordered', fun found paged => ?_⟩
  simp only [limit, offset, page_unpaged] at paged
  rw [paged, order]
  rw [← h.unpaged limit offset joinedBefore, ← inner.rows rows] at kept
  -- what the two sides stand for in a joined frame
  have sides (f : Frame) (member : f ∈ arranged env p.select.orderBy (before.filter (passes env p.select.predicate)))
      (r : Row) : p.shape.element m env (f ++ [rs.visible r]) = p.shape.element m env f ∧
        shape.element m env (f ++ [rs.visible r]) = shape.element m env [rs.visible r] := by
    have known := labels (List.mem_filter.1 (List.mem_mergeSort.1 member)).1
    refine ⟨Shape.element_append (fun s hs => known ▸ planned.shape s hs) _, element_last ?_ ?_⟩
    · exact fun seen => apart (known ▸ label ▸ seen)
    · exact fun s hs => (reads s hs).trans label.symm
  refine pairs_of_extensions (fun f member r _ keep decided => ?_) (fun f member r => ?_) kept
  · obtain ⟨first, second⟩ := sides f member r
    rw [passes_some, equality_value equality, left.element db env, right.element db env]
    simp only [List.map_cons, List.map_nil, first, second, decided, Option.getD_some]
  · obtain ⟨first, second⟩ := sides f member r
    rw [applies.element db env]
    simp only [List.map_cons, List.map_nil, first, second]

/-! ## Union -/

theorem withRows_append {key : Element → Element} {xs ys : List Element} {first second : List (Row × Element)}
    (h : withRows key xs = some first) (h' : withRows key ys = some second) :
    withRows key (xs ++ ys) = some (first ++ second) := by
  induction xs generalizing first with
  | nil =>
    obtain rfl := Option.some.inj h
    exact h'
  | cons x rest ih =>
    simp only [withRows, Option.bind_eq_bind, Option.bind_eq_some_iff, Option.pure_def, Option.some.injEq] at h
    obtain ⟨row, here, others, behind, rfl⟩ := h
    simp only [List.cons_append, withRows, here, ih behind]
    rfl

theorem withRows_projected {subject : Subject} {label : String} {s shape : Shape} {columns : List Projection}
    (exposed : s.expose m subject label none [] = .ok (shape, columns)) {frames : List Frame} {rows : List Row}
    (h : projectAll env columns frames = .ok rows) :
    withRows id (frames.map (s.element m env)) =
      some (rows.map fun r => (r, shape.element m env [⟨label, columns.map Projection.name, r⟩])) := by
  induction frames generalizing rows with
  | nil =>
    obtain rfl := Except.ok.inj h
    rfl
  | cons f rest ih =>
    have all := (exposed_of_expose exposed).projected h
    obtain ⟨row, here, h⟩ := bind_eq_ok.1 h
    obtain ⟨others, behind, h⟩ := bind_eq_ok.1 h
    obtain rfl := pure_eq_ok.1 h
    obtain ⟨same, -⟩ := List.cons.inj all
    obtain ⟨more, split, leaves⟩ := exposed_leaves exposed
    obtain rfl : columns = more := split
    have found : (s.element m env f).row? = some row := by
      have computed := congrArg Except.toOption here
      rw [project, evalAll_toOption, List.mapM_map] at computed
      rw [Element.row?, leaves, List.mapM_map]
      exact computed
    simp only [List.map_cons, withRows, id_eq, found, ih behind, same]
    rfl

theorem firstOfRows_map (element : Row → Element) (seen rows : List Row) :
    firstOfRows seen (rows.map fun r => (r, element r)) = (distinctRows seen rows).map element := by
  induction rows generalizing seen with
  | nil => rfl
  | cons r rest ih =>
    rw [List.map_cons]
    unfold firstOfRows distinctRows
    split
    next => exact ih seen
    next => rw [ih, List.map_cons]

theorem outputOf_eq_ok {columns : List Projection} {names : List String} {frames : List Frame}
    {output : Output} (nonempty : columns ≠ []) (h : outputOf env columns names frames = .ok output) :
    projectAll env columns frames = .ok output.rows ∧ output.columns = columns.map Projection.name := by
  unfold outputOf at h
  rw [if_neg (by simpa using nonempty)] at h
  obtain ⟨rows, all, h⟩ := bind_eq_ok.1 h
  obtain rfl := pure_eq_ok.1 h
  exact ⟨all, rfl⟩

theorem unitedRows_unordered {label : String} {columns : List String} {rows found : List Row}
    (h : unitedRows env label columns [] none none rows = .ok found) : found = distinctRows [] rows := by
  obtain ⟨sorted, ordered, h⟩ := bind_eq_ok.1 h
  obtain ⟨frames, paged, h⟩ := bind_eq_ok.1 h
  obtain rfl := Except.ok.inj ordered
  obtain rfl := page_unpaged.1 paged
  obtain rfl := pure_eq_ok.1 h
  simp [List.flatMap_map, RowSet.visible]

theorem union_rows {l r : Select} {label : String} {columns others : List Projection} {rs : RowSet}
    (unordered : l.orderBy = []) (limit : l.limit = none) (offset : l.offset = none) (plain : r.union = none)
    (h : sourceRows db env (.subquery
      { l with projection := columns, union := some { r with projection := others } } label) = .ok rs) :
    ∃ frames frames' names names' first more source rows, deliveredFrames db env l = .ok frames ∧
      deliveredFrames db env r = .ok frames' ∧ outputOf env columns names frames = .ok first ∧
      outputOf env others names' frames' = .ok more ∧
      unitedRows env source first.columns [] none none (first.rows ++ more.rows) = .ok rows ∧
      rs = ⟨label, first.columns, rows⟩ := by
  obtain ⟨output, selected, rfl⟩ := sourceRows_subquery h
  obtain ⟨frames, names, first, more, source, selectedLeft, here, there, distinct, same⟩ :=
    selectRows_union_eq_ok rfl selected
  obtain ⟨frames', names', delivered, here'⟩ := selectRows_eq_ok (s := { r with projection := others }) plain there
  simp only [unordered, limit, offset] at distinct
  refine ⟨frames, frames', names, names', first, more, source, output.rows, ?_, delivered, here, here', distinct,
    by rw [same]⟩
  refine bind_eq_ok.2 ⟨frames, selectedLeft, ?_⟩
  rw [unordered, limit, offset]
  rfl

/-- The elements of a union are those of both sides, less those whose columns repeat earlier ones. -/
theorem united_elements {subject : Subject} {label source : String} {s r shape : Shape} {columns others : List Projection}
    (exposed : s.expose m subject label none [] = .ok (shape, columns))
    (exposed' : r.expose m subject label none [] = .ok (shape, others)) (nonempty : columns ≠ [])
    (same : columns.map Projection.name = others.map Projection.name) {names names' : List String}
    {frames frames' : List Frame} {first more : Output} {rows : List Row}
    (here : outputOf env columns names frames = .ok first) (there : outputOf env others names' frames' = .ok more)
    (distinct : unitedRows env source first.columns [] none none (first.rows ++ more.rows) = .ok rows) :
    ∃ keyed, withRows id (frames.map (s.element m env) ++ frames'.map (r.element m env)) = some keyed ∧
      firstOfRows [] keyed = rows.map fun row => shape.element m env [⟨label, first.columns, row⟩] := by
  have nonempty' : others ≠ [] := fun empty => by
    rw [empty] at same
    exact nonempty (List.map_eq_nil_iff.1 same)
  obtain ⟨projected, columnNames⟩ := outputOf_eq_ok nonempty here
  obtain ⟨projected', -⟩ := outputOf_eq_ok nonempty' there
  have leftRows := withRows_projected exposed projected
  have rightRows := withRows_projected exposed' projected'
  rw [← same] at rightRows
  refine ⟨_, withRows_append leftRows rightRows, ?_⟩
  rw [← List.map_append, firstOfRows_map, ← unitedRows_unordered distinct, columnNames]

/-- A union delivers the elements of both sides without those whose columns repeat earlier ones. -/
theorem Delivers.union {l r p : Planned} (left : Delivers m db env t l xs) (right : Delivers m db env t r ys)
    (unordered : l.select.orderBy = []) (limit : l.select.limit = none) (offset : l.select.offset = none)
    (plain : r.select.union = none) (width : 0 < t.width m) {subject : Subject} {w w' : Workspace}
    (united : Step.Yields (unite m subject l r) w p w') {keyed : List (Row × Element)}
    (rows : withRows id (xs ++ ys) = some keyed) : Delivers m db env t p (firstOfRows [] keyed) := by
  obtain ⟨label, shape, columns, others, -, -, exposed, ⟨shape', exposed'⟩, same, rfl⟩ := unite_yields united
  obtain ⟨type, free⟩ := exposed_type exposed
  have alike : shape = shape' :=
    exposed_alike left.type right.type rfl exposed exposed' (List.prefix_refl _) (same ▸ List.prefix_refl _)
  subst shape'
  have nonempty : columns ≠ [] := fun empty => by
    have length := exposed_length exposed left.type
    simp only [empty, List.length_nil] at length
    omega
  refine .single (type.trans left.type) free fun rs source => ?_
  obtain ⟨frames, frames', _, _, first, more, _, found, delivered, delivered', here, here', distinct, rfl⟩ :=
    union_rows unordered limit offset plain source
  obtain ⟨keyed', keys, elements⟩ := united_elements exposed exposed' nonempty same here here' distinct
  rw [left.delivered delivered, right.delivered delivered', rows] at keys
  obtain rfl := Option.some.inj keys
  exact elements.symm

end Setwise.Planning
