import Setwise.Proofs.AppliedOperators

/-!
What a select shows behind an operator.

A select shows the elements of its frames in the order of its sort keys. Behind an operator it shows what `Stage.apply`
makes of these elements (`Shows.filter`, `Shows.map`, `Shows.orderBy`, `Shows.join`).
-/

set_option autoImplicit false

namespace Setwise.Planning

open Client Relational Execution Sorting

/-! ## Shown elements -/

/-- A planned query whose select is not paged and has these frames, which can be sorted. -/
structure Shows (m : Model) (db : Database) (env : Environment) (u v : Workspace) (t : Planned) (frames : List Frame) :
    Prop where
  planned : FreshlyPlanned u v t
  regular : t.Regular
  limit : t.select.limit = none
  offset : t.select.offset = none
  selected : selectFrames db env t.select = .ok frames
  preordered : Preordered (frameLe env t.select.orderBy) frames

/-- The elements of the frames of a select, in the order of its sort keys. -/
def elements (m : Model) (env : Environment) (t : Planned) (frames : List Frame) : List Element :=
  (arranged env t.select.orderBy frames).map (t.shape.element m env)

section

variable {m : Model} {db : Database} {env : Environment} {u v w : Workspace} {t : Planned} {frames later found : List Frame}
  {xs ys : List Element}

theorem deliveredFrames_unpaged {s : Select} (limit : s.limit = none) (offset : s.offset = none)
    (h : deliveredFrames db env s = .ok found) :
    ∃ frames, selectFrames db env s = .ok frames ∧ found = arranged env s.orderBy frames := by
  obtain ⟨frames, selected, paged⟩ := deliveredFrames_sorted h
  rw [limit, offset, page_unpaged] at paged
  exact ⟨frames, selected, paged⟩

theorem Returns.collect {γ : Type} {s t : Shape} {X : Element → Option Element}
    (h : Returns frames later (s.element m env) fun f => X (t.element m env f))
    (keeps : ∀ f ∈ frames, ∀ g, f <+: g → t.element m env g = t.element m env f) (make : Element → Element → Option γ) :
    (later.filterMap fun g => make (t.element m env g) (s.element m env g)) =
      (frames.map (t.element m env)).filterMap fun x => (X x).bind (make x) := by
  rw [h.filterMap keeps make, List.filterMap_map]
  rfl

theorem Shows.joined (h : Shows m db env u v t frames) :
    ∃ all, joinedFrames db env t.select = .ok all ∧ ∀ f ∈ frames, f ∈ all := by
  obtain ⟨all, joined, restricted⟩ := selectFrames_eq_ok.1 h.selected
  exact ⟨all, joined, fun f member => mem_of_restrict restricted member⟩

theorem Shows.keeps (h : Shows m db env u v t frames) {f g : Frame} (member : f ∈ frames) (more : f <+: g) :
    t.shape.element m env g = t.shape.element m env f := by
  obtain ⟨all, joined, inside⟩ := h.joined
  exact shape_front h.planned joined (inside f member) more

theorem Shows.keys (h : Shows m db env u v t frames) {f g : Frame} (member : f ∈ frames) (more : f <+: g) :
    keyRow env t.select.orderBy g = keyRow env t.select.orderBy f := by
  obtain ⟨all, joined, inside⟩ := h.joined
  exact keyRow_front h.planned joined (inside f member) more

theorem Shows.collect {γ : Type} (h : Shows m db env u v t frames) {s : Shape} {X : Element → Option Element}
    (returns : Returns frames later (s.element m env) fun f => X (t.shape.element m env f))
    (make : Element → Element → Option γ) :
    Preordered (frameLe env t.select.orderBy) later ∧
      ((arranged env t.select.orderBy later).filterMap fun g => make (t.shape.element m env g) (s.element m env g)) =
        (elements m env t frames).filterMap fun x => (X x).bind (make x) := by
  obtain ⟨preordered, sorted⟩ := Grow.arranged returns h.preordered fun f member g more => h.keys member more
  exact ⟨preordered, Returns.collect sorted (fun f member g more => h.keeps (List.mem_mergeSort.1 member) more) make⟩

theorem evaluated_of_withKeys {items : List OrderItem} {keyed : List (Row × Frame)}
    (h : withKeys env items frames = .ok keyed) {f : Frame} (member : f ∈ frames) :
    ∃ row, evalAll env f (items.map OrderItem.key) = .ok row := by
  induction frames generalizing keyed with
  | nil => cases member
  | cons g rest ih =>
    obtain ⟨row, here, h⟩ := bind_eq_ok.1 h
    obtain ⟨others, later, -⟩ := bind_eq_ok.1 h
    rcases List.mem_cons.1 member with rfl | member
    · exact ⟨row, here⟩
    · exact ih later member

theorem length_of_keyRow {items : List OrderItem} {sorted : List Frame} (h : sortFrames env items frames = .ok sorted)
    {f : Frame} (member : f ∈ frames) : (keyRow env items f).length = items.length := by
  unfold sortFrames at h
  split at h
  next empty =>
    obtain rfl := List.isEmpty_iff.1 empty
    rfl
  next =>
    obtain ⟨keyed, keys, -⟩ := bind_eq_ok.1 h
    obtain ⟨row, here⟩ := evaluated_of_withKeys keys member
    unfold keyRow
    rw [here]
    exact (length_of_evalAll here).trans (List.length_map _)

/-! ## Operators -/

section

variable (one : w.FollowsOne m db) (h : Shows m db env u v t frames)

include one h

theorem Shows.filter {predicate : Lambda} {c : Scalar} {select : Select}
    (plain : ReadsPlainly m (predicate.params.zip [t.shape]) predicate.body { v with joins := t.select.joins })
    (run : Step.Yields (against t.select (scalar m (predicate.params.zip [t.shape]) predicate.body)) v (c, select) w)
    (delivered : deliveredFrames db env (addFilter select c) = .ok found) :
    found.map (t.shape.element m env) =
      Stage.apply m db env.parameters ys (elements m env t frames) (.filter predicate) := by
  have run := against_scalar run
  obtain ⟨-, same⟩ := against_yields.1 run
  have plain' : select.groupBy = [] → select.having = none := by
    rw [same]
    exact h.regular.ungrouped
  have limit : (addFilter select c).limit = none ∧ (addFilter select c).offset = none ∧
      (addFilter select c).orderBy = t.select.orderBy := by
    unfold addFilter
    rw [same]
    split <;> exact ⟨h.limit, h.offset, rfl⟩
  obtain ⟨limit, offset, orderBy⟩ := limit
  obtain ⟨kept, selected, rfl⟩ := deliveredFrames_unpaged limit offset delivered
  obtain ⟨later, after, rfl⟩ := selectFrames_addFilter plain' selected
  have returns := selected_grows one h.planned h.regular plain run h.selected after
  -- every frame is grown by what the predicate joins, and the value that is read in it is the predicate's result
  obtain ⟨preordered, collected⟩ := h.collect (X := fun x => predicate.result? m db env.parameters [x]) returns
    fun x y => if y.holds then some x else none
  refine Eq.trans ?_ collected
  unfold arranged
  -- a stable sort commutes with the filter
  rw [orderBy, ← filter_sorted preordered, ← List.filterMap_eq_map, List.filterMap_filter]
  refine List.filterMap_congr fun f _ => ?_
  rw [passes_some, ← element_value? (m := m)]
  rfl

theorem Shows.map {selector : Lambda} {s : Shape} {select : Select}
    (plain : ReadsPlainly m (selector.params.zip [t.shape]) selector.body { v with joins := t.select.joins })
    (run : Step.Yields (against t.select (expr m (selector.params.zip [t.shape]) selector.body)) v (s, select) w)
    (delivered : deliveredFrames db env select = .ok found) :
    found.map (s.element m env) =
      Stage.apply m db env.parameters ys (elements m env t frames) (.map selector) := by
  obtain ⟨-, same⟩ := against_yields.1 run
  obtain ⟨later, after, rfl⟩ := deliveredFrames_unpaged (same ▸ h.limit) (same ▸ h.offset) delivered
  have returns := selected_grows one h.planned h.regular plain run h.selected after
  obtain ⟨-, collected⟩ := h.collect (X := fun x => selector.result? m db env.parameters [x]) returns fun _ y => some y
  rw [List.filterMap_eq_map'] at collected
  rw [same, collected]
  simp [Stage.apply]

/-- Behind an ordering that takes the place of another one, the elements are sorted from the start. -/
theorem Shows.orderBy {key : Lambda} {k : Shape} {subject : Subject} {keys : List Scalar} {descending : Bool}
    {select : Select} (plain : ReadsPlainly m (key.params.zip [t.shape]) key.body { v with joins := t.select.joins })
    (run : Step.Yields (against t.select (expr m (key.params.zip [t.shape]) key.body)) v (k, select) w)
    (scalars : k.scalars subject = .ok keys)
    (delivered : deliveredFrames db env { select with orderBy := keys.map fun key => { key, descending } } = .ok found) :
    found.map (t.shape.element m env) =
      Stage.apply m db env.parameters ys (frames.map (t.shape.element m env)) (.orderBy key descending) := by
  obtain ⟨-, same⟩ := against_yields.1 run
  obtain ⟨later, after, delivered⟩ := bind_eq_ok.1 delivered
  obtain ⟨sorted, ordered, paged⟩ := bind_eq_ok.1 delivered
  rw [same] at paged
  dsimp only at ordered paged
  rw [h.limit, h.offset, page_unpaged] at paged
  obtain rfl := paged.trans (sortFrames_eq_ok ordered)
  have returns := selected_grows one h.planned h.regular plain run h.selected after
  -- the sort keys of the frames are those of their elements
  have row (f : Frame) : keyRow env (keys.map fun key => { key, descending }) f = (k.element m env f).keyRow := by
    unfold keyRow Element.keyRow
    rw [List.map_map, ← scalars_row scalars, Function.comp_def, List.map_id']
  have collected := returns.collect (X := fun x => key.result? m db env.parameters [x])
    (fun f member g more => h.keeps member more) fun x k => some (k.keyRow, x)
  rw [List.filterMap_eq_map'] at collected
  have sort := List.map_mergeSort (r := frameLe env (keys.map fun key => { key, descending }))
    (s := rowLe (α := Element) descending)
    (f := fun f => ((k.element m env f).keyRow, t.shape.element m env f)) (l := later) fun f hf g _ => by
      have length := (length_of_keyRow ordered hf).trans (List.length_map _)
      unfold frameLe rowLe
      rw [keyOrder_eq_rowOrder descending length, row, row]
  simp only [Stage.apply, Option.map_eq_bind, Function.comp_def]
  rw [← collected, ← sort, List.map_map]
  rfl

end

/-! ## Paging -/

theorem page_map {α β : Type} (φ : α → β) {limit offset : Option Scalar} {items found : List α}
    (h : page env limit offset items = .ok found) : page env limit offset (items.map φ) = .ok (found.map φ) := by
  obtain ⟨skip, skipped, h⟩ := bind_eq_ok.1 h
  obtain ⟨take, taken, h⟩ := bind_eq_ok.1 h
  obtain rfl := pure_eq_ok.1 h
  refine bind_eq_ok.2 ⟨skip, skipped, bind_eq_ok.2 ⟨take, taken, ?_⟩⟩
  cases take <;> simp [pure, Except.pure, List.map_drop, List.map_take]

theorem map_paged (one : w.FollowsOne m db) (planned : FreshlyPlanned u v t) (regular : t.Regular) {selector : Lambda}
    {s : Shape} {select : Select}
    (plain : ReadsPlainly m (selector.params.zip [t.shape]) selector.body { v with joins := t.select.joins })
    (run : Step.Yields (against t.select (expr m (selector.params.zip [t.shape]) selector.body)) v (s, select) w)
    (selected : selectFrames db env t.select = .ok frames) {base : List Frame}
    (before : deliveredFrames db env t.select = .ok base)
    (reached : ∀ f ∈ frames, (selector.result? m db env.parameters [t.shape.element m env f]).isSome)
    (delivered : deliveredFrames db env select = .ok found) :
    found.map (s.element m env) =
      Stage.apply m db env.parameters ys (base.map (t.shape.element m env)) (.map selector) := by
  obtain ⟨-, same⟩ := against_yields.1 run
  obtain ⟨frames', selected', paged⟩ := deliveredFrames_sorted before
  obtain rfl := Except.ok.inj (selected.symm.trans selected')
  obtain ⟨later, after, paged'⟩ := deliveredFrames_sorted delivered
  obtain ⟨all, joined, restricted⟩ := selectFrames_eq_ok.1 selected
  obtain ⟨grown, rfl, all'⟩ := (selected_grows one planned regular plain run selected after).total reached
  -- no element is lost, so the grown frames are sorted and paged like those that they come from
  have sort := List.map_mergeSort (r := frameLe env t.select.orderBy) (s := frameLe env t.select.orderBy) (f := grown)
    (l := frames) fun f hf g hg => by
      have keys {f : Frame} (member : f ∈ frames) :=
        keyRow_front planned joined (mem_of_restrict restricted member) (all' f member).1
      unfold frameLe
      rw [keys hf, keys hg]
  have moved := page_map grown paged
  rw [same] at paged'
  unfold arranged at moved paged'
  obtain rfl := Except.ok.inj ((sort ▸ moved).symm.trans paged')
  simp only [Stage.apply, List.map_map, List.filterMap_map]
  rw [← List.filterMap_eq_map]
  exact List.filterMap_congr fun f member => (all' f (List.mem_mergeSort.1 (mem_of_page paged member))).2.symm

/-! ## Joins -/

theorem joined_of_against {l : Lambda} {args : List Shape} {s : Planned} {k : Shape} {select : Select}
    (planned : FreshlyPlanned u v s) (visible : ∀ a ∈ args, ∀ l ∈ a.labels, l ∈ s.select.labels)
    (run : Step.Yields (against s.select (expr m (l.params.zip args) l.body)) v (k, select) w)
    (joined : joinedFrames db env select = .ok later) : ∃ frames, joinedFrames db env s.select = .ok frames := by
  obtain ⟨read, rfl⟩ := against_yields.1 run
  let start : Workspace := { v with joins := s.select.joins }
  have inScope : Scoped start (start.select s.select.source) :=
    (planned.inScope.of_labels rfl rfl : Scoped start s.select).of_sources rfl rfl
  exact earlier_joined (expr_progress l.body inScope (reads_zip visible) read).1 joined

theorem against_navigations {scope : Scope} {e : Expr} {k : Shape} {r select : Select}
    (run : Step.Yields (against r (expr m scope e)) v (k, select) w) : v.navigations ⊆ w.navigations :=
  (expr_navigations (against_yields.1 run).1).1

theorem standalone_navigations {scope : Scope} {subject : Subject} {e : Expr} {k : Shape}
    (run : Step.Yields (standalone m scope subject e) v k w) : v.navigations ⊆ w.navigations :=
  (expr_navigations (standalone_yields run).1).1

theorem standalone_result (one : w.FollowsOne m db) {l : Lambda} {subject : Subject} {source : Source} {s r : Shape}
    (single : Scoped v { source }) (reads : ∀ k ∈ s.labels, k = source.label)
    (plain : ReadsPlainly m (l.params.zip [s]) l.body { v with joins := [] })
    (run : Step.Yields (standalone m (l.params.zip [s]) subject l.body) v r w) {rs : RowSet}
    (rows : sourceRows db env source = .ok rs) {row : Row} (member : row ∈ rs.rows) :
    l.result? m db env.parameters [s.element m env [rs.visible row]] = some (r.element m env [rs.visible row]) := by
  obtain ⟨planned, none⟩ := standalone_yields run
  let start : Workspace := { v with joins := [] }
  let frames : List Frame := rs.rows.map fun row => [rs.visible row]
  have joined : joinedFrames db env (start.select source) = .ok frames := joinedFrames_single.2 ⟨rs, rows, rfl⟩
  have joined' : joinedFrames db env (w.select source) = .ok frames := by
    unfold Workspace.select
    rw [none]
    exact joinedFrames_single.2 ⟨rs, rows, rfl⟩
  have inScope : Scoped start (start.select source) := single.of_labels rfl rfl
  have visible : ∀ a ∈ [s], ∀ k ∈ a.labels, k ∈ [source.label] := fun a inside k seen =>
    List.mem_singleton.2 (reads k (List.mem_singleton.1 inside ▸ seen))
  have grows := expr_grows one.leads inScope (reads_zip visible) plain planned
    (fun _ _ _ _ => Element.within_trivial _) joined joined'
  have same := grows.same _ (List.mem_map_of_mem member)
  dsimp only at same
  rw [fieldElements_zip] at same
  exact same.symm

theorem partners_of_extensions {γ : Type} {subject : Subject} {keyOf : Element → Option Element} {s l k r : Shape}
    {on : Scalar} {rs : RowSet} {f : Frame} (equality : Shape.equality m subject l r = .ok on)
    (keys : ∀ row ∈ rs.rows, keyOf (k.element m env [rs.visible row]) = some (r.element m env [rs.visible row]))
    (keeps : ∀ row, s.element m env (f ++ [rs.visible row]) = s.element m env f)
    (keepsKey : ∀ row, l.element m env (f ++ [rs.visible row]) = l.element m env f)
    (last : ∀ row, k.element m env (f ++ [rs.visible row]) = k.element m env [rs.visible row])
    (lastKey : ∀ row, r.element m env (f ++ [rs.visible row]) = r.element m env [rs.visible row])
    (make : Element → Element → Option γ) :
    ((extensions env .inner (some on) rs f).filterMap fun g => make (s.element m env g) (k.element m env g)) =
      (partnersOf m keyOf (rs.rows.map fun row => k.element m env [rs.visible row]) (l.element m env f)).filterMap
        (make (s.element m env f)) := by
  unfold partnersOf
  rw [extensions_inner, List.filterMap_map, List.filter_map, List.filterMap_map]
  have same : ∀ row ∈ rs.rows, passes env (some on) (f ++ [rs.visible row]) =
      (((keyOf (k.element m env [rs.visible row])).bind (Element.equality m (l.element m env f))).map
        Value.isTrue).getD false := fun row member => by
    rw [passes_some, equality_value equality, keepsKey, lastKey, keys row member]
    rfl
  rw [List.filter_congr same]
  refine List.filterMap_congr fun row _ => ?_
  simp only [Function.comp_apply, keeps, last]

theorem FreshlyPlanned.arranged {P : Frame → Option Frame → Prop} (planned : FreshlyPlanned u v t)
    (joined : joinedFrames db env t.select = .ok frames)
    (preordered : Preordered (frameLe env t.select.orderBy) (frames.filter (passes env t.select.predicate)))
    (grow : Grow frames later P) :
    Preordered (frameLe env t.select.orderBy) (later.filter (passes env t.select.predicate)) ∧
      Grow (Execution.arranged env t.select.orderBy (frames.filter (passes env t.select.predicate)))
        (Execution.arranged env t.select.orderBy (later.filter (passes env t.select.predicate))) P :=
  Grow.arranged
    (grow.filter fun _ member _ more => passes_prefix planned joined (fun _ found => mem_clauses.2 (.inl found)) member more)
    preordered fun _ member _ more => keyRow_front planned joined (List.mem_filter.1 member).1 more

structure JoinScope (u z z' z'' : Workspace) (t : Planned) (source : Source) (shape l r : Shape) (on : Scalar)
    (select : Select) : Prop where
  waiting : FreshlyPlanned u z t
  read : Against u z z' t select
  outerKey : ∀ k ∈ l.labels, k ∈ select.labels
  outside : source.label ∉ select.labels
  single : Scoped z' { source }
  inner : ∀ k ∈ shape.labels, k = source.label
  innerKey : ∀ k ∈ r.labels, k = source.label
  aside : FreshlyPlanned u z'' { t with select := { select with joins := select.joins ++ [⟨.inner, source, some on⟩] } }
  visible : ∀ a ∈ [t.shape, shape], ∀ k ∈ a.labels,
    k ∈ ({ select with joins := select.joins ++ [⟨.inner, source, some on⟩] } : Select).labels

section

variable {outerKey innerKey result : Lambda} {subject : Subject} {z z' z'' : Workspace} {source : Source}
  {shape l r s : Shape} {on : Scalar} {select select' : Select}

theorem join_scope (on : Scalar) (planned : FreshlyPlanned u v t) {operators : List String}
    (behind : FreshlyPlanned v z ⟨{ source }, shape, operators⟩)
    (run : Step.Yields (against t.select (expr m (outerKey.params.zip [t.shape]) outerKey.body)) z (l, select) z')
    (alone : Step.Yields (standalone m (innerKey.params.zip [shape]) subject innerKey.body) z' r z'') :
    JoinScope u z z' z'' t source shape l r on select := by
  obtain ⟨read, outerReads, -, outside⟩ := planned.keyed behind run
  obtain ⟨single, -⟩ := planned.join behind read .inner (some on)
  obtain ⟨aside, innerReads, visible⟩ := planned.joinOn behind run alone .inner (some on)
  exact ⟨planned.later behind.grows behind.inScope.sound, read, outerReads, outside, single,
    fun k inside => List.mem_singleton.1 (behind.shape k inside), innerReads, aside, visible⟩

theorem JoinScope.joined (inScope : JoinScope u z z' z'' t source shape l r on select)
    (run : Step.Yields (against t.select (expr m (outerKey.params.zip [t.shape]) outerKey.body)) z (l, select) z')
    (run' : Step.Yields (against { select with joins := select.joins ++ [⟨.inner, source, some on⟩] }
      (expr m (result.params.zip [t.shape, shape]) result.body)) z'' (s, select') w) {last : List Frame}
    (joined : joinedFrames db env select' = .ok last) :
    ∃ all outer rs, joinedFrames db env t.select = .ok all ∧ joinedFrames db env select = .ok outer ∧
      sourceRows db env source = .ok rs ∧
      joinedFrames db env { select with joins := select.joins ++ [⟨.inner, source, some on⟩] } =
        .ok (outer.flatMap (extensions env .inner (some on) rs)) := by
  obtain ⟨pairs, joinedPairs⟩ := joined_of_against inScope.aside inScope.visible run' joined
  obtain ⟨outer, rs, joinedOuter, rows, rfl⟩ := joinedFrames_inner joinedPairs
  obtain ⟨all, before⟩ := joined_of_against inScope.waiting (by simpa using inScope.waiting.shape) run joinedOuter
  exact ⟨all, outer, rs, before, joinedOuter, rows, joinedPairs⟩

section

variable (inScope : JoinScope u z z' z'' t source shape l r on select) {outer : List Frame}
  (joined : joinedFrames db env select = .ok outer) {f : Frame} (member : f ∈ outer)
include inScope joined member

/-- What the outer query shows in a frame is not changed by what joins the frame. -/
theorem JoinScope.outer_element (rest : Frame) : t.shape.element m env (f ++ rest) = t.shape.element m env f :=
  Shape.element_append (fun k inside => labels_of_joinedFrames joined member ▸ inScope.read.planned.shape k inside) rest

variable {rs : RowSet} (rows : sourceRows db env source = .ok rs)
include rows

/-- What reads the source alone shows its row, whatever the frame that the row joins. -/
theorem JoinScope.inner_element {s : Shape} (reads : ∀ k ∈ s.labels, k = source.label) (row : Row) :
    s.element m env (f ++ [rs.visible row]) = s.element m env [rs.visible row] := by
  have label : rs.label = source.label := label_of_sourceRows rows
  have new : rs.label ∉ Frame.labels f := by
    rw [labels_of_joinedFrames joined member, label]
    exact inScope.outside
  exact element_last new fun k inside => (reads k inside).trans label.symm

theorem JoinScope.partners {γ : Type} {keyOf : Element → Option Element}
    (equality : Shape.equality m subject l r = .ok on)
    (keys : ∀ row ∈ rs.rows, keyOf (shape.element m env [rs.visible row]) = some (r.element m env [rs.visible row]))
    (make : Element → Element → Option γ) :
    ((extensions env .inner (some on) rs f).filterMap fun g => make (t.shape.element m env g) (shape.element m env g)) =
      (partnersOf m keyOf (rs.rows.map fun row => shape.element m env [rs.visible row]) (l.element m env f)).filterMap
        (make (t.shape.element m env f)) :=
  partners_of_extensions equality keys (fun _ => inScope.outer_element joined member _)
    (fun _ => Shape.element_append (fun k inside => labels_of_joinedFrames joined member ▸ inScope.outerKey k inside) _)
    (inScope.inner_element joined member rows inScope.inner) (inScope.inner_element joined member rows inScope.innerKey) make

end

theorem Shows.join (one : w.FollowsOne m db) (h : Shows m db env u v t frames) (ungrouped : t.select.groupBy = [])
    (inScope : JoinScope u z z' z'' t source shape l r on select) (inner : Query)
    (outerPlain : ReadsPlainly m (outerKey.params.zip [t.shape]) outerKey.body { z with joins := t.select.joins })
    (innerPlain : ReadsPlainly m (innerKey.params.zip [shape]) innerKey.body { z' with joins := [] })
    (resultPlain : ReadsPlainly m (result.params.zip [t.shape, shape]) result.body
      { z'' with joins := select.joins ++ [⟨.inner, source, some on⟩] })
    (run : Step.Yields (against t.select (expr m (outerKey.params.zip [t.shape]) outerKey.body)) z (l, select) z')
    (alone : Step.Yields (standalone m (innerKey.params.zip [shape]) subject innerKey.body) z' r z'')
    (equality : Shape.equality m subject l r = .ok on)
    (run' : Step.Yields (against { select with joins := select.joins ++ [⟨.inner, source, some on⟩] }
      (expr m (result.params.zip [t.shape, shape]) result.body)) z'' (s, select') w)
    (delivered : deliveredFrames db env select' = .ok found) :
    ∃ rs, sourceRows db env source = .ok rs ∧ found.map (s.element m env) =
      Stage.apply m db env.parameters (rs.rows.map fun row => shape.element m env [rs.visible row])
        (elements m env t frames) (.join inner outerKey innerKey result) := by
  -- the frames at each of the steps
  obtain ⟨-, same⟩ := against_yields.1 run
  obtain ⟨-, same'⟩ := against_yields.1 run'
  have having := h.regular.ungrouped ungrouped
  obtain ⟨kept, selected, arrangement⟩ := deliveredFrames_unpaged (by rw [same', same, h.limit])
    (by rw [same', same, h.offset]) delivered
  obtain ⟨last, joinedLast, restricted'⟩ := selectFrames_eq_ok.1 selected
  obtain ⟨all, outer, rs, joined, joinedOuter, rows, joinedPairs⟩ := inScope.joined run run' joinedLast
  obtain ⟨all', joined', restricted⟩ := selectFrames_eq_ok.1 h.selected
  obtain rfl := Except.ok.inj (joined.symm.trans joined')
  rw [ungrouped, having] at restricted
  obtain rfl := restrict_ungrouped restricted
  have predicate : select.predicate = t.select.predicate := by rw [same]
  have orderBy : select.orderBy = t.select.orderBy := by rw [same]
  obtain rfl : kept = last.filter (passes env t.select.predicate) := by
    rw [same', same] at restricted'
    dsimp only at restricted'
    rw [ungrouped, having] at restricted'
    exact restrict_ungrouped restricted'
  -- the frames have grown by the key, by the rows of the source, and by the result
  have oneInner := one.earlier (against_navigations run')
  have oneOuter := oneInner.earlier (standalone_navigations alone)
  have byKey := lambda_grows oneOuter.leads inScope.waiting.inScope (by simpa using inScope.waiting.shape) outerPlain run
    (fun _ _ _ _ => Element.within_trivial _) joined joinedOuter
  obtain ⟨sorted, grown⟩ := h.planned.arranged joined h.preordered byKey
  have labels {f : Frame} (member : f ∈ outer) : Frame.labels f = select.labels := labels_of_joinedFrames joinedOuter member
  have clauses := inScope.read.planned.clauses
  simp only [mem_clauses] at clauses
  rw [← orderBy, ← predicate] at sorted
  obtain ⟨sortedPairs, order⟩ := arranged_extensions .inner (some on) rs
    (fun f member e found k seen => labels member ▸ clauses e (.inl found) k seen)
    (fun f member item found k seen =>
      labels member ▸ clauses item.key (.inr (.inr (.inr ⟨item, found, rfl⟩))) k seen) sorted
  have byResult : Returns (outer.flatMap (extensions env .inner (some on) rs)) last (s.element m env)
      fun g => result.result? m db env.parameters [t.shape.element m env g, shape.element m env g] :=
    lambda_grows one.leads inScope.aside.inScope inScope.visible resultPlain run'
      (fun _ _ _ _ => Element.within_trivial _) joinedPairs joinedLast
  obtain ⟨-, grownPairs⟩ := inScope.aside.arranged joinedPairs sortedPairs byResult
  dsimp only at grownPairs
  rw [order, orderBy, predicate] at grownPairs
  -- what the two sides stand for in a frame of both
  have side (f : Frame) (member : f ∈ outer) :
      ((extensions env .inner (some on) rs f).filterMap fun g =>
        result.result? m db env.parameters [t.shape.element m env g, shape.element m env g]) =
        matchResults m db env.parameters innerKey result (rs.rows.map fun row => shape.element m env [rs.visible row])
          (t.shape.element m env f) (l.element m env f) :=
    inScope.partners joinedOuter member rows equality
      (fun row inside => standalone_result oneInner inScope.single inScope.inner innerPlain alone rows inside)
      fun x y => result.result? m db env.parameters [x, y]
  have collected := Returns.filterMap (b := fun _ => ()) grownPairs (fun _ _ _ _ => rfl) fun _ y => some y
  rw [List.filterMap_eq_map'] at collected
  refine ⟨rs, rows, ?_⟩
  calc found.map (s.element m env)
      = (arranged env t.select.orderBy (last.filter (passes env t.select.predicate))).map (s.element m env) := by
        rw [arrangement, same', ← orderBy]
    _ = ((arranged env t.select.orderBy (outer.filter (passes env t.select.predicate))).flatMap
          (extensions env .inner (some on) rs)).filterMap fun g =>
            result.result? m db env.parameters [t.shape.element m env g, shape.element m env g] := by
        rw [collected]
        simp
    _ = (arranged env t.select.orderBy (outer.filter (passes env t.select.predicate))).flatMap fun f =>
          matchResults m db env.parameters innerKey result (rs.rows.map fun row => shape.element m env [rs.visible row])
            (t.shape.element m env f) (l.element m env f) := by
        rw [List.filterMap_flatMap]
        exact List.flatMap_congr fun f inside => side f (List.mem_filter.1 (List.mem_mergeSort.1 inside)).1
    _ = (arranged env t.select.orderBy (all.filter (passes env t.select.predicate))).flatMap fun f =>
          (outerKey.result? m db env.parameters [t.shape.element m env f]).toList.flatMap
            (matchResults m db env.parameters innerKey result (rs.rows.map fun row => shape.element m env [rs.visible row])
              (t.shape.element m env f)) :=
        Returns.flatMap grown (fun f inside g more => h.keeps (List.mem_mergeSort.1 inside) more) _
    _ = _ := by
        simp only [Stage.apply, elements, List.flatMap_map]

end

end

end Setwise.Planning
