import Setwise.Proofs.Scoping

/-!
Planned queries are in scope.

Planning a query leaves a select whose labels are new, and whose clauses and shape read these labels only
(`query_planned`). Each operator keeps that up, and so does what is planned in between.
-/

set_option autoImplicit false

namespace Setwise.Planning

open Client Relational Execution

def clauses (s : Select) : List Scalar :=
  s.predicate.toList ++ s.groupBy ++ s.having.toList ++ s.orderBy.map OrderItem.key

/-- What planning a query leaves: a select in scope under labels that were not in use, whose clauses and
shape read these labels only. -/
structure FreshlyPlanned (w w' : Workspace) (p : Planned) : Prop where
  grows : w.Grows [] w'
  inScope : Scoped w' p.select
  fresh : ∀ l ∈ p.select.labels, l ∉ w.labels
  shape : ∀ l ∈ p.shape.labels, l ∈ p.select.labels
  clauses : ∀ e ∈ clauses p.select, ∀ l ∈ e.sources, l ∈ p.select.labels

theorem Scoped.of_labels {w w' : Workspace} {s : Select} (inScope : Scoped w s)
    (labels : w'.labels = w.labels) (navigations : w'.navigations = w.navigations) : Scoped w' s := by
  obtain ⟨sound, distinct, known, joined⟩ := inScope
  unfold Workspace.Sound at sound
  rw [← labels, ← navigations] at sound
  rw [← labels] at known
  rw [← navigations] at joined
  exact ⟨sound, distinct, known, joined⟩

theorem reads_zip {names : List String} {args : List Shape} {visible : List String}
    (h : ∀ s ∈ args, ∀ l ∈ s.labels, l ∈ visible) : Scope.Reads (names.zip args) visible :=
  fun p member => h p.2 (List.of_mem_zip member).2

theorem scoped_single {w : Workspace} (sound : w.Sound) {source : Source} (fresh : source.label ∉ w.labels) :
    Scoped { w with labels := w.labels ++ [source.label] } { source } where
  sound := fun entry member =>
    (sound entry member).imp (List.mem_append_left _) (List.mem_append_left _)
  distinct := List.pairwise_singleton _ _
  known := fun l member => List.mem_append_right _ member
  joined := fun entry member inside => by
    have same : entry.1.1 = source.label := List.mem_singleton.1 inside
    exact absurd (same ▸ (sound entry member).1) fresh

theorem FreshlyPlanned.single {v w : Workspace} (grows : v.Grows [] w) (sound : w.Sound) {source : Source}
    (fresh : source.label ∉ w.labels) {shape : Shape} (reads : ∀ l ∈ shape.labels, l = source.label)
    (operators : List String) :
    FreshlyPlanned v { w with labels := w.labels ++ [source.label] } ⟨{ source }, shape, operators⟩ where
  grows := by
    have added : w.Grows [] { w with labels := w.labels ++ [source.label] } :=
      ⟨fun _ => List.mem_append_left _, fun _ => .inl⟩
    exact grows.trans added fun _ h => nomatch h
  inScope := scoped_single sound fresh
  fresh := fun l member old => by
    obtain rfl := List.mem_singleton.1 member
    exact fresh (grows.labels _ old)
  shape := fun l member => List.mem_singleton.2 (reads l member)
  clauses := fun _ h => nomatch h

theorem FreshlyPlanned.wrapIf {m : Model} {subject : Subject} {needed : Bool} {u v w : Workspace}
    {s p : Planned} (planned : FreshlyPlanned u v s)
    (h : Step.Yields (wrapIf m subject needed s) v p w) : FreshlyPlanned u w p := by
  unfold Planning.wrapIf at h
  split at h
  next =>
    obtain ⟨label, shape, columns, fresh, rfl, exposed, rfl⟩ := wrap_yields h
    have new : RowSource.label (.subquery { s.select with projection := columns } label) ∉ v.labels := fresh
    exact .single planned.grows planned.inScope.sound new (exposed_of_expose exposed).labels _
  next =>
    obtain ⟨rfl, rfl⟩ := Step.yields_pure.1 h
    exact planned

structure Against (u v w : Workspace) (s : Planned) (select : Select) : Prop where
  planned : FreshlyPlanned u w { s with select }
  grows : v.Grows s.select.labels w
  labels : ∀ l ∈ select.labels, l ∈ s.select.labels ∨ l ∉ v.labels
  kept : ∀ l ∈ s.select.labels, l ∈ select.labels

theorem FreshlyPlanned.against {m : Model} {e : Expr} {scope : Scope} {u v w : Workspace} {s : Planned}
    {select : Select} {shape : Shape} (planned : FreshlyPlanned u v s)
    (visible : scope.Reads s.select.labels)
    (h : Step.Yields (against s.select (expr m scope e)) v (shape, select) w) :
    Against u v w s select ∧ ∀ l ∈ shape.labels, l ∈ select.labels := by
  obtain ⟨run, rfl⟩ := against_yields.1 h
  let start : Workspace := { v with joins := s.select.joins }
  have inScope : Scoped start (start.select s.select.source) :=
    (planned.inScope.of_labels rfl rfl : Scoped start s.select).of_sources rfl rfl
  -- planned from the joins of the select, with its labels in scope
  obtain ⟨progress, reads⟩ := expr_progress e inScope visible run
  obtain ⟨more, joins, fresh⟩ := progress.joins
  have grows : v.Grows s.select.labels w := ⟨progress.grows.labels, progress.grows.navigations⟩
  -- the labels of new joins are new
  have labels : ∀ l ∈ ({ s.select with joins := w.joins } : Select).labels,
      l ∈ s.select.labels ∨ l ∉ v.labels := by
    intro l member
    simp only [Select.labels, joins, joinLabels_append, ← List.cons_append, List.mem_append] at member
    exact member.imp_right (fresh l)
  have kept : ∀ l ∈ s.select.labels, l ∈ ({ s.select with joins := w.joins } : Select).labels :=
    fun l member => progress.labels member
  refine ⟨⟨⟨?_, progress.inScope.of_sources rfl rfl, ?_, fun l member => kept l (planned.shape l member),
    fun e member l inside => kept l (planned.clauses e member l inside)⟩, grows, labels, kept⟩, reads⟩
  · exact planned.grows.trans grows fun l member => .inr (planned.fresh l member)
  · intro l member old
    rcases labels l member with before | new
    · exact planned.fresh l before old
    · exact new (planned.grows.labels l old)

theorem FreshlyPlanned.scalar {m : Model} {e : Expr} {scope : Scope} {u v w : Workspace} {s : Planned}
    {select : Select} {c : Scalar} (planned : FreshlyPlanned u v s) (visible : scope.Reads s.select.labels)
    (h : Step.Yields (Planning.against s.select (Planning.scalar m scope e)) v (c, select) w) :
    Against u v w s select ∧ ∀ l ∈ c.sources, l ∈ select.labels := by
  obtain ⟨run, rfl⟩ := against_yields.1 h
  exact planned.against visible (against_yields.2 ⟨scalar_yields.1 run, rfl⟩)

theorem FreshlyPlanned.with_clauses {u w : Workspace} {s : Planned} (planned : FreshlyPlanned u w s)
    (t : Planned) (source : t.select.source = s.select.source) (joins : t.select.joins = s.select.joins)
    (shape : ∀ l ∈ t.shape.labels, l ∈ s.select.labels)
    (reads : ∀ e ∈ Planning.clauses t.select, ∀ l ∈ e.sources, l ∈ s.select.labels) :
    FreshlyPlanned u w t := by
  have labels : t.select.labels = s.select.labels := by simp only [Select.labels, source, joins]
  rw [← labels] at shape reads
  refine ⟨planned.grows, planned.inScope.of_sources source joins, fun l member => ?_, shape, reads⟩
  exact planned.fresh l (labels ▸ member)

theorem FreshlyPlanned.later {u v w : Workspace} {s : Planned} (planned : FreshlyPlanned u v s)
    (grows : v.Grows [] w) (sound : w.Sound) : FreshlyPlanned u w s where
  grows := planned.grows.trans grows fun _ h => nomatch h
  inScope := planned.inScope.meanwhile grows sound fun _ _ h => nomatch h
  fresh := planned.fresh
  shape := planned.shape
  clauses := planned.clauses

theorem wrapIf_grows {m : Model} {subject : Subject} {needed : Bool} {s p : Planned} {w w' : Workspace}
    (sound : w.Sound) (h : Step.Yields (wrapIf m subject needed s) w p w') : w.Grows [] w' ∧ w'.Sound := by
  unfold Planning.wrapIf at h
  split at h
  next =>
    obtain ⟨label, shape, columns, fresh, rfl, -, -⟩ := wrap_yields h
    have new : RowSource.label (.subquery { s.select with projection := columns } label) ∉ w.labels := fresh
    exact ⟨⟨fun _ => List.mem_append_left _, fun _ => .inl⟩, (scoped_single sound new).sound⟩
  next =>
    obtain ⟨-, rfl⟩ := Step.yields_pure.1 h
    exact ⟨.refl _ _, sound⟩

theorem reads_of_both {visible : List String} {condition : Option Scalar} {e : Scalar}
    (first : ∀ c ∈ condition, ∀ l ∈ c.sources, l ∈ visible) (second : ∀ l ∈ e.sources, l ∈ visible) :
    ∀ l ∈ (Scalar.both condition e).sources, l ∈ visible := by
  intro l member
  rcases sources_both member with ⟨c, found, inside⟩ | inside
  · exact first c found l inside
  · exact second l inside

theorem mem_clauses {s : Select} {e : Scalar} :
    e ∈ clauses s ↔
      s.predicate = some e ∨ e ∈ s.groupBy ∨ s.having = some e ∨ ∃ item ∈ s.orderBy, item.key = e := by
  simp [clauses, Option.mem_toList]

theorem FreshlyPlanned.addFilter {u w : Workspace} {s : Planned} (planned : FreshlyPlanned u w s)
    {condition : Scalar} (reads : ∀ l ∈ condition.sources, l ∈ s.select.labels) :
    FreshlyPlanned u w { s with select := addFilter s.select condition } := by
  have old := planned.clauses
  simp only [mem_clauses] at old
  unfold Planning.addFilter
  split
  next =>
    refine planned.with_clauses _ rfl rfl planned.shape fun e member => ?_
    simp only [mem_clauses] at member
    rcases member with same | member
    · obtain rfl := Option.some.inj same
      exact reads_of_both (fun c found => old c (.inl found)) reads
    · exact old e (.inr member)
  next =>
    refine planned.with_clauses _ rfl rfl planned.shape fun e member => ?_
    simp only [mem_clauses] at member
    rcases member with same | member | same | member
    · exact old e (.inl same)
    · exact old e (.inr (.inl member))
    · obtain rfl := Option.some.inj same
      exact reads_of_both (fun c found => old c (.inr (.inr (.inl found)))) reads
    · exact old e (.inr (.inr (.inr member)))

theorem reads_single {s : Shape} {visible : List String} (h : ∀ l ∈ s.labels, l ∈ visible)
    (names : List String) : Scope.Reads (names.zip [s]) visible :=
  reads_zip fun t member => by
    obtain rfl := List.mem_singleton.1 member
    exact h

theorem FreshlyPlanned.asSource {m : Model} {subject : Subject} {u v w : Workspace} {s : Planned}
    {source : Source} {shape : Shape} (planned : FreshlyPlanned u v s)
    (h : Step.Yields (asSource m subject s) v (source, shape) w) :
    FreshlyPlanned u w ⟨{ source }, shape, s.operators⟩ := by
  obtain ⟨p, wrapped, bare, rfl⟩ := asSource_yields h
  have planned' := planned.wrapIf wrapped
  refine planned'.with_clauses _ ?_ ?_ planned'.shape fun _ h => nomatch h <;> rw [bare]

theorem Scoped.unread {w : Workspace} {source : Source} (inScope : Scoped w { source }) :
    ∀ entry ∈ w.navigations, entry.1.1 ≠ source.label := by
  intro entry member same
  obtain ⟨before, j, after, split, -⟩ :=
    inScope.joined entry member (same ▸ List.mem_singleton_self source.label)
  simp at split

theorem standalone_planned {m : Model} {subject : Subject} {scope : Scope} {e : Expr} {s : Shape}
    {source : Source} {w w' : Workspace} (inScope : Scoped w { source })
    (visible : scope.Reads [source.label]) (h : Step.Yields (standalone m scope subject e) w s w') :
    w' = { w with joins := [] } ∧ ∀ l ∈ s.labels, l = source.label := by
  obtain ⟨run, empty⟩ := standalone_yields h
  let start : Workspace := { w with joins := [] }
  have startScope : Scoped start (start.select source) := inScope.of_labels rfl rfl
  obtain ⟨progress, reads⟩ := expr_progress e startScope visible run
  obtain rfl := progress.still empty
  exact ⟨rfl, fun l member => List.mem_singleton.1 (reads l member)⟩

theorem FreshlyPlanned.apart {u v w x : Workspace} {s : Planned} {select : Select} {source : Source}
    {shape : Shape} {operators : List String} (outer : FreshlyPlanned u v s)
    (inner : FreshlyPlanned v w ⟨{ source }, shape, operators⟩) (read : Against u w x s select) :
    source.label ∉ s.select.labels ∧ source.label ∉ select.labels := by
  have label : source.label ∉ v.labels := inner.fresh _ (List.mem_singleton_self _)
  have known : source.label ∈ w.labels := inner.inScope.known _ (List.mem_singleton_self _)
  have before : source.label ∉ s.select.labels := fun member => label (outer.inScope.known _ member)
  refine ⟨before, fun member => ?_⟩
  rcases read.labels _ member with old | new
  · exact before old
  · exact new known

/-- The key of a query is planned while a source waits to join it. The query stays in scope with what its key reads, and
the source keeps a label of its own. -/
theorem FreshlyPlanned.keyed {m : Model} {key : Lambda} {u v w x : Workspace} {s : Planned} {select : Select}
    {source : Source} {shape k : Shape} {operators : List String} (outer : FreshlyPlanned u v s)
    (inner : FreshlyPlanned v w ⟨{ source }, shape, operators⟩)
    (run : Step.Yields (Planning.against s.select (expr m (key.params.zip [s.shape]) key.body)) w (k, select) x) :
    Against u w x s select ∧ (∀ l ∈ k.labels, l ∈ select.labels) ∧ source.label ∉ s.select.labels ∧
      source.label ∉ select.labels := by
  have waiting := outer.later inner.grows inner.inScope.sound
  obtain ⟨read, reads⟩ := waiting.against (reads_single waiting.shape _) run
  exact ⟨read, reads, outer.apart inner read⟩

/-- A source planned behind a select joins it. -/
theorem FreshlyPlanned.join {u v w x : Workspace} {s : Planned} {select : Select} {source : Source}
    {shape : Shape} {operators : List String} (outer : FreshlyPlanned u v s)
    (inner : FreshlyPlanned v w ⟨{ source }, shape, operators⟩) (read : Against u w x s select)
    (kind : JoinKind) (on : Option Scalar) :
    Scoped x { source } ∧
      FreshlyPlanned u x { s with select := { select with joins := select.joins ++ [⟨kind, source, on⟩] } } := by
  obtain ⟨apart, outside⟩ := outer.apart inner read
  have known : source.label ∈ w.labels := inner.inScope.known _ (List.mem_singleton_self _)
  have alone : Scoped x { source } :=
    inner.inScope.meanwhile read.grows read.planned.inScope.sound fun l member inside =>
      apart (List.mem_singleton.1 member ▸ inside)
  have joined := read.planned.inScope.join ⟨kind, source, on⟩ (read.grows.labels _ known) outside alone.unread
  have kept {l : String} (member : l ∈ select.labels) :
      l ∈ ({ select with joins := select.joins ++ [⟨kind, source, on⟩] } : Select).labels := by
    simp only [Select.labels, joinLabels_append, ← List.cons_append] at member ⊢
    exact List.mem_append_left _ member
  refine ⟨alone, read.planned.grows, joined, fun l member old => ?_,
    fun l member => kept (read.planned.shape l member),
    fun e member l inside => kept (read.planned.clauses e member l inside)⟩
  simp only [Select.labels, joinLabels_append, ← List.cons_append, List.mem_append] at member
  rcases member with before | new
  · exact read.planned.fresh l before old
  · obtain rfl : l = source.label := List.mem_singleton.1 new
    exact inner.fresh _ (List.mem_singleton_self _) (outer.grows.labels _ old)

theorem FreshlyPlanned.joinOn {m : Model} {outerKey innerKey : Lambda} {subject : Subject} {u v w x y : Workspace}
    {s : Planned} {select : Select} {source : Source} {shape l r : Shape} {operators : List String}
    (outer : FreshlyPlanned u v s) (inner : FreshlyPlanned v w ⟨{ source }, shape, operators⟩)
    (run : Step.Yields (Planning.against s.select (expr m (outerKey.params.zip [s.shape]) outerKey.body)) w
      (l, select) x)
    (alone : Step.Yields (standalone m (innerKey.params.zip [shape]) subject innerKey.body) x r y) (kind : JoinKind)
    (on : Option Scalar) :
    FreshlyPlanned u y { s with select := { select with joins := select.joins ++ [⟨kind, source, on⟩] } } ∧
      (∀ k ∈ r.labels, k = source.label) ∧
      ∀ a ∈ [s.shape, shape], ∀ k ∈ a.labels,
        k ∈ ({ select with joins := select.joins ++ [⟨kind, source, on⟩] } : Select).labels := by
  obtain ⟨read, -, -, -⟩ := outer.keyed inner run
  obtain ⟨single, joined⟩ := outer.join inner read kind on
  obtain ⟨rfl, reads⟩ := standalone_planned single (reads_single inner.shape _) alone
  have aside := joined.later (w := { x with joins := [] }) ⟨fun _ => id, fun _ => .inl⟩ joined.inScope.sound
  refine ⟨aside, reads, fun a member k inside => ?_⟩
  simp only [List.mem_cons, List.not_mem_nil, or_false] at member
  rcases member with rfl | rfl
  · exact aside.shape k inside
  · obtain rfl := List.mem_singleton.1 (inner.shape k inside)
    simp [Select.labels, joinLabels]

/-- Planning a query yields a select in scope under new labels. -/
theorem query_planned {m : Model} {q : Query} {w w' : Workspace} {p : Planned} (sound : w.Sound)
    (h : Step.Yields (query m q) w p w') : FreshlyPlanned w w' p := by
  induction q generalizing w w' p with
  | set entity =>
    obtain ⟨e, t, -, -, table, rfl⟩ := set_yields h
    obtain ⟨fresh, -, rfl⟩ := newTable_yields table
    have new : RowSource.label (.table t : Source) ∉ w.labels := fresh
    refine FreshlyPlanned.single (.refl _ _) sound new (fun l member => ?_) _
    exact List.mem_singleton.1 member
  | rows collection =>
    obtain ⟨label, added, rfl⟩ := rows_yields h
    obtain ⟨fresh, rfl⟩ := newLabel_yields added
    have new : RowSource.label
        (.literal { label, columns := collection.fields, rows := cells collection } : Source) ∉ w.labels := fresh
    refine FreshlyPlanned.single (.refl _ _) sound new (fun l member => ?_) _
    obtain ⟨p, field, inside⟩ := Shape.mem_fieldsLabels.1 member
    obtain ⟨c, -, rfl⟩ := List.mem_map.1 field
    exact List.mem_singleton.1 inside
  | filter input predicate ih =>
    obtain ⟨s, v, t, v', condition, select, first, wrapped, run, rfl⟩ := filter_yields h
    have planned := (ih sound first).wrapIf wrapped
    obtain ⟨planned', reads⟩ := planned.scalar (reads_single planned.shape _) run
    exact planned'.planned.addFilter reads
  | map input selector ih =>
    obtain ⟨s, v, shape, select, first, run, rfl⟩ := map_yields h
    have planned := ih sound first
    obtain ⟨planned', reads⟩ := planned.against (reads_single planned.shape _) run
    exact planned'.planned.with_clauses _ rfl rfl reads planned'.planned.clauses
  | join outer inner outerKey innerKey result iho ihi =>
    obtain ⟨s, v, t, x, i, y, source, shape, z, l, select, z', r, z'', on, element, select', first, wrapped,
      second, sourced, run, alone, -, run', rfl⟩ := join_yields h
    have outer := (iho sound first).wrapIf wrapped
    have inner := (ihi outer.inScope.sound second).asSource sourced
    obtain ⟨joined, -, visible⟩ := outer.joinOn inner run alone .inner (some on)
    obtain ⟨read', reads⟩ := joined.against (reads_zip visible) run'
    exact read'.planned.with_clauses _ rfl rfl reads read'.planned.clauses
  | orderBy input key descending ih =>
    obtain ⟨s, v, t, v', k, select, keys, first, wrapped, run, found, rfl⟩ := orderBy_yields h
    have planned := (ih sound first).wrapIf wrapped
    obtain ⟨planned', reads⟩ := planned.against (reads_single planned.shape _) run
    refine planned'.planned.with_clauses _ rfl rfl planned'.planned.shape fun e member l inside => ?_
    -- the clauses are those there were, and the new keys
    have old := planned'.planned.clauses e
    simp only [mem_clauses] at member old
    rcases member with same | same | same | ⟨item, same, rfl⟩
    · exact old (.inl same) l inside
    · exact old (.inr (.inl same)) l inside
    · exact old (.inr (.inr (.inl same))) l inside
    · obtain ⟨key, member, rfl⟩ := List.mem_map.1 same
      exact reads l (Shape.scalars_sources found member inside)
  | take input count ih =>
    obtain ⟨s, v, t, v', limit, select, first, wrapped, run, rfl⟩ := take_yields h
    have planned := (ih sound first).wrapIf wrapped
    have visible : Scope.Reads [] t.select.labels := fun _ h => absurd h List.not_mem_nil
    obtain ⟨planned', -⟩ := planned.scalar visible run
    exact planned'.planned.with_clauses _ rfl rfl planned'.planned.shape planned'.planned.clauses
  | skip input count ih =>
    obtain ⟨s, v, t, v', offset, select, first, wrapped, run, rfl⟩ := skip_yields h
    have planned := (ih sound first).wrapIf wrapped
    have visible : Scope.Reads [] t.select.labels := fun _ h => absurd h List.not_mem_nil
    obtain ⟨planned', -⟩ := planned.scalar visible run
    exact planned'.planned.with_clauses _ rfl rfl planned'.planned.shape planned'.planned.clauses
  | groupBy input key ih =>
    obtain ⟨s, v, t, v', k, select, keys, first, wrapped, run, found, rfl⟩ := groupBy_yields h
    have planned := (ih sound first).wrapIf wrapped
    obtain ⟨planned', reads⟩ := planned.against (reads_single planned.shape _) run
    refine planned'.planned.with_clauses _ rfl rfl reads fun e member l inside => ?_
    have old := planned'.planned.clauses e
    simp only [mem_clauses] at member old
    rcases member with same | same | same | ⟨item, same, -⟩
    · exact old (.inl same) l inside
    · exact reads l (Shape.scalars_sources found same inside)
    · exact old (.inr (.inr (.inl same))) l inside
    · cases same
  | union left right ihl ihr =>
    obtain ⟨l, v, r, x, l', y, r', z, first, second, wrapped, wrapped', united⟩ := union_yields h
    have left := ihl sound first
    have right := ihr left.inScope.sound second
    -- the left side is wrapped after the right one has been planned
    have left' := (left.later right.grows right.inScope.sound).wrapIf wrapped
    obtain ⟨grows, sound'⟩ := wrapIf_grows left'.inScope.sound wrapped'
    obtain ⟨label, shape, columns, others, fresh, rfl, exposed, -, -, rfl⟩ := unite_yields united
    have new : RowSource.label (.subquery { l'.select with
        projection := columns, union := some { r'.select with projection := others } } label) ∉ z.labels :=
      fresh
    exact .single (left'.grows.trans grows fun _ h => absurd h List.not_mem_nil) sound' new
      (exposed_of_expose exposed).labels _

end Setwise.Planning
