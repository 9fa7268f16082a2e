import Setwise.Proofs.QueryScoping

/-!
Elements on their way through selects.

A select that joins more sources keeps the elements that it had (`carried_along`), and so does a subquery,
whose rows stand for the elements of the frames that the select in it delivers (`carried_into_subquery`) or
for those of the two sides of a union (`carried_into_union`).
-/

set_option autoImplicit false

namespace Setwise.Execution

open Relational

section

variable {db : Database} {env : Environment}

/-! ## Frames that a select delivers -/

theorem mem_of_firstOfGroups {keys : List Scalar} {seen : List Row} {frames found : List Frame}
    (h : firstOfGroups env keys seen frames = .ok found) {f : Frame} (member : f ∈ found) : f ∈ frames := by
  induction frames generalizing seen found with
  | nil =>
    obtain rfl := Except.ok.inj h
    exact member
  | cons g rest ih =>
    unfold firstOfGroups at h
    obtain ⟨key, -, h⟩ := bind_eq_ok.1 h
    split at h
    next => exact List.mem_cons_of_mem _ (ih h member)
    next =>
      obtain ⟨others, later, h⟩ := bind_eq_ok.1 h
      obtain rfl := pure_eq_ok.1 h
      rcases List.mem_cons.1 member with rfl | member
      · exact List.mem_cons_self
      · exact List.mem_cons_of_mem _ (ih later member)

theorem mem_of_restrict {predicate having : Option Scalar} {groupBy : List Scalar}
    {frames found : List Frame} (h : restrict env predicate groupBy having frames = .ok found) {f : Frame}
    (member : f ∈ found) : f ∈ frames := by
  obtain ⟨kept, filtered, grouping⟩ := bind_eq_ok.1 h
  obtain ⟨groups, grouped, last⟩ := bind_eq_ok.1 grouping
  obtain ⟨rfl, -⟩ := filterFrames_eq_ok filtered
  obtain ⟨rfl, -⟩ := filterFrames_eq_ok last
  have inside := (List.mem_filter.1 member).1
  unfold groupFrames at grouped
  split at grouped
  next =>
    obtain rfl := Except.ok.inj grouped
    exact (List.mem_filter.1 inside).1
  next => exact (List.mem_filter.1 (mem_of_firstOfGroups grouped inside)).1

theorem withKeys_frames {items : List OrderItem} {frames : List Frame} {keyed : List (Row × Frame)}
    (h : withKeys env items frames = .ok keyed) : keyed.map Prod.snd = frames := by
  induction frames generalizing keyed with
  | nil =>
    obtain rfl := Except.ok.inj h
    rfl
  | cons f rest ih =>
    obtain ⟨key, -, h⟩ := bind_eq_ok.1 h
    obtain ⟨others, later, h⟩ := bind_eq_ok.1 h
    obtain rfl := pure_eq_ok.1 h
    rw [List.map_cons, ih later]

theorem mem_of_sortFrames {items : List OrderItem} {frames sorted : List Frame}
    (h : sortFrames env items frames = .ok sorted) {f : Frame} (member : f ∈ sorted) : f ∈ frames := by
  unfold sortFrames at h
  split at h
  next =>
    obtain rfl := Except.ok.inj h
    exact member
  next =>
    obtain ⟨keyed, keys, h⟩ := bind_eq_ok.1 h
    obtain rfl := pure_eq_ok.1 h
    obtain ⟨p, inside, rfl⟩ := List.mem_map.1 member
    rw [← withKeys_frames keys]
    exact List.mem_map_of_mem ((List.mergeSort_perm _ _).mem_iff.1 inside)

theorem mem_of_page {α : Type} {limit offset : Option Scalar} {items found : List α}
    (h : page env limit offset items = .ok found) {a : α} (member : a ∈ found) : a ∈ items := by
  obtain ⟨skip, -, h⟩ := bind_eq_ok.1 h
  obtain ⟨take, -, h⟩ := bind_eq_ok.1 h
  obtain rfl := pure_eq_ok.1 h
  split at member
  next => exact List.mem_of_mem_drop (List.mem_of_mem_take member)
  next => exact List.mem_of_mem_drop member

theorem deliveredFrames_eq_ok {s : Select} {frames : List Frame} (h : deliveredFrames db env s = .ok frames) :
    ∃ all, joinedFrames db env s = .ok all ∧ ∀ f ∈ frames, f ∈ all := by
  obtain ⟨kept, selected, h⟩ := bind_eq_ok.1 h
  obtain ⟨sorted, ordered, h⟩ := bind_eq_ok.1 h
  obtain ⟨all, joined, restricted⟩ := selectFrames_eq_ok.1 selected
  exact ⟨all, joined, fun f member =>
    mem_of_restrict restricted (mem_of_sortFrames ordered (mem_of_page h member))⟩

theorem selectRows_union_eq_ok {s other : Select} {output : Output} (union : s.union = some other)
    (h : selectRows db env s = .ok output) :
    ∃ frames columns first more label, selectFrames db env s = .ok frames ∧
      outputOf env s.projection columns frames = .ok first ∧ selectRows db env other = .ok more ∧
      unitedRows env label first.columns s.orderBy s.limit s.offset (first.rows ++ more.rows) =
        .ok output.rows ∧ output.columns = first.columns := by
  obtain ⟨source, joins, predicate, groupBy, having, projection, _, orderBy, limit, offset⟩ := s
  obtain rfl : _ = some other := union
  unfold selectRows at h
  obtain ⟨base, rows, h⟩ := bind_eq_ok.1 h
  obtain ⟨⟨all, columns⟩, joined, h⟩ := bind_eq_ok.1 h
  obtain ⟨kept, restricted, h⟩ := bind_eq_ok.1 h
  obtain ⟨first, here, h⟩ := bind_eq_ok.1 h
  obtain ⟨more, there, h⟩ := bind_eq_ok.1 h
  obtain ⟨united, distinct, h⟩ := bind_eq_ok.1 h
  obtain rfl := pure_eq_ok.1 h
  refine ⟨kept, base.columns ++ columns, first, more, base.label, ?_, here, there, distinct, rfl⟩
  exact selectFrames_eq_ok.2 ⟨all, joinedFrames_eq_ok.2 ⟨base, columns, rows, joined⟩, restricted⟩

theorem mem_of_distinctRows {seen rows : List Row} {r : Row} (h : r ∈ distinctRows seen rows) :
    r ∈ rows := by
  induction rows generalizing seen with
  | nil => exact h
  | cons s rest ih =>
    unfold distinctRows at h
    split at h
    next => exact List.mem_cons_of_mem _ (ih h)
    next =>
      rcases List.mem_cons.1 h with rfl | h
      · exact List.mem_cons_self
      · exact List.mem_cons_of_mem _ (ih h)

theorem mem_of_unitedRows {label : String} {columns : List String} {orderBy : List OrderItem}
    {limit offset : Option Scalar} {rows found : List Row}
    (h : unitedRows env label columns orderBy limit offset rows = .ok found) {r : Row} (member : r ∈ found) :
    r ∈ rows := by
  obtain ⟨sorted, ordered, h⟩ := bind_eq_ok.1 h
  obtain ⟨frames, paged, h⟩ := bind_eq_ok.1 h
  obtain rfl := pure_eq_ok.1 h
  obtain ⟨f, inside, member⟩ := List.mem_flatMap.1 member
  obtain ⟨row, before, rfl⟩ := List.mem_map.1 (mem_of_sortFrames ordered (mem_of_page paged inside))
  obtain rfl := List.mem_singleton.1 member
  exact mem_of_distinctRows before

end

end Setwise.Execution

namespace Setwise.Planning

open Client Relational Execution

/-! ## Elements carried along -/

variable {m : Model} {db : Database} {env : Environment}

/-- A select that joins more sources keeps the elements that it had. -/
theorem carried_along {s later : Select} (source : later.source = s.source)
    (joins : s.joins <+: later.joins) {frames : List Frame}
    (all : joinedFrames db env later = .ok frames) :
    ∃ before, joinedFrames db env s = .ok before ∧ ∀ f ∈ frames, ∃ g ∈ before, g <+: f ∧
      ∀ t : Shape, (∀ l ∈ t.labels, l ∈ s.labels) → t.element m env f = t.element m env g := by
  obtain ⟨first, columns, rows, joined⟩ := joinedFrames_eq_ok.1 all
  obtain ⟨more, split⟩ := joins
  rw [← split] at joined
  obtain ⟨before, seen, others, joinedBefore, joinedAfter, rfl⟩ := joinAll_append joined
  have earlier : joinedFrames db env s = .ok before :=
    joinedFrames_eq_ok.2 ⟨first, seen, source ▸ rows, joinedBefore⟩
  refine ⟨before, earlier, fun f member => ?_⟩
  obtain ⟨g, inside, rest, rfl, -⟩ := joinAll_mem joinedAfter member
  refine ⟨g, inside, List.prefix_append _ _, fun t reads => Shape.element_append (fun l here => ?_) rest⟩
  rw [labels_of_joinedFrames earlier inside]
  exact reads l here

theorem sourceRows_subquery {s : Select} {label : String} {rs : RowSet}
    (h : sourceRows db env (.subquery s label) = .ok rs) :
    ∃ output, selectRows db env s = .ok output ∧ rs = ⟨label, output.columns, output.rows⟩ := by
  unfold sourceRows at h
  obtain ⟨output, rows, h⟩ := bind_eq_ok.1 h
  exact ⟨output, rows, (pure_eq_ok.1 h).symm⟩

/-- The rows of a subquery stand for the elements of the frames that the select in it delivers. -/
theorem carried_into_subquery {subject : Subject} {w w' : Workspace} {s p : Planned}
    (h : Step.Yields (wrap m subject s) w p w') (union : s.select.union = none) {rs : RowSet}
    (rows : sourceRows db env p.select.source = .ok rs) :
    ∃ frames, deliveredFrames db env s.select = .ok frames ∧
      (rs.rows.map fun r => p.shape.element m env [rs.visible r]) = frames.map (s.shape.element m env) := by
  obtain ⟨label, shape, columns, -, -, exposed, rfl⟩ := wrap_yields h
  obtain ⟨output, selected, rfl⟩ := sourceRows_subquery rows
  obtain ⟨frames, seen, delivered, here⟩ :=
    selectRows_eq_ok (s := { s.select with projection := columns }) union selected
  exact ⟨frames, delivered, (exposed_of_expose exposed).rows here⟩

theorem element_of_row {label : String} {s t : Shape} {ps : List Projection} (exposed : Exposed m label s [] t ps)
    {columns names : List String} {frames : List Frame} {output : Output}
    (h : outputOf env ps columns frames = .ok output) (named : ps ≠ [] → names = ps.map Projection.name)
    {row : Row} (member : row ∈ output.rows) :
    ∃ f ∈ frames, t.element m env [⟨label, names, row⟩] = s.element m env f := by
  by_cases empty : ps = []
  · -- without columns there is nothing to read
    subst empty
    obtain rfl := Except.ok.inj h
    obtain ⟨f, inside, rfl⟩ := List.mem_map.1 member
    exact ⟨f, inside, exposed.element env f _ fun p none => absurd none List.not_mem_nil⟩
  · have all := exposed.rows h
    have columns : output.columns = names := by
      unfold outputOf at h
      rw [if_neg (by simpa using empty)] at h
      obtain ⟨rows, -, h⟩ := bind_eq_ok.1 h
      obtain rfl := pure_eq_ok.1 h
      exact (named empty).symm
    rw [columns] at all
    have here : t.element m env [⟨label, names, row⟩] ∈ frames.map (s.element m env) :=
      all ▸ List.mem_map_of_mem member
    obtain ⟨f, inside, same⟩ := List.mem_map.1 here
    exact ⟨f, inside, same.symm⟩

/-- The rows of a union stand for elements of its sides, provided that both are read alike. -/
theorem carried_into_union {subject : Subject} {label : String} {s r shape : Shape} {columns others : List Projection}
    (exposed : s.expose m subject label none [] = .ok (shape, columns))
    (exposed' : r.expose m subject label none [] = .ok (shape, others))
    (same : columns.map Projection.name = others.map Projection.name) {names names' : List String}
    {frames frames' : List Frame} {first more : Output} (here : outputOf env columns names frames = .ok first)
    (there : outputOf env others names' frames' = .ok more) {row : Row} (member : row ∈ first.rows ++ more.rows) :
    shape.element m env [⟨label, first.columns, row⟩] ∈
      frames.map (s.element m env) ++ frames'.map (r.element m env) := by
  -- the columns of a union are called as those of its first side
  have named : columns ≠ [] → first.columns = columns.map Projection.name := fun nonempty => by
    unfold outputOf at here
    rw [if_neg (by simpa using nonempty)] at here
    obtain ⟨all, -, here⟩ := bind_eq_ok.1 here
    obtain rfl := pure_eq_ok.1 here
    rfl
  rcases List.mem_append.1 member with member | member
  · obtain ⟨f, inside, reads⟩ := element_of_row (exposed_of_expose exposed) here named member
    exact List.mem_append_left _ (reads ▸ List.mem_map_of_mem inside)
  · have named' : others ≠ [] → first.columns = others.map Projection.name := fun nonempty => by
      rw [← same]
      refine named ?_
      rintro rfl
      exact nonempty (List.map_eq_nil_iff.1 same.symm)
    obtain ⟨f, inside, reads⟩ := element_of_row (exposed_of_expose exposed') there named' member
    exact List.mem_append_right _ (reads ▸ List.mem_map_of_mem inside)

end Setwise.Planning
