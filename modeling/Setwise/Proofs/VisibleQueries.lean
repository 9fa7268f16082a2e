import Setwise.Proofs.LiftedValues
import Setwise.Proofs.Standing

/-!
Planned queries are well scoped.

The select of a planned query stands on its tables, and all its clauses read what can be read behind its sources
(`query_wellPlanned`). Wrapped into a subquery it is a well-scoped source (`WellPlanned.select`).
-/

set_option autoImplicit false

namespace Setwise.Planning

open Client Relational Execution

/-- A select stands beside elements of the given shapes, and its clauses read what is visible. -/
structure WellPlanned (I : Interface) (m : Model) (w : Workspace) (s : Select) (shapes : List Shape) : Prop
    extends Stands I m [] w s shapes where
  clauses : ∀ e ∈ clauses s, e.Visible (I.view (s.context I) [])
  paging : ∀ e ∈ s.paging, e.Visible (I.view [] [])
  projection : s.projection = []
  union : s.union = none

section

variable {I : Interface} {m : Model} {v w : Workspace} {s t : Select} {shapes : List Shape}

theorem WellPlanned.united (planned : WellPlanned I m w s shapes) {columns : List Projection}
    (visible : ∀ c ∈ columns, c.value.Visible (I.view (s.context I) [])) {union : Option Select}
    (other : Union.WellScoped I union)
    (alike : ∀ u ∈ union, s.orderBy = [] ∧ u.projection.map Projection.name = columns.map Projection.name) :
    Select.WellScoped I { s with projection := columns, union } :=
  .intro planned.grounded.source planned.grounded.joins planned.clauses visible planned.paging other alike

theorem WellPlanned.select (planned : WellPlanned I m w s shapes) {columns : List Projection}
    (visible : ∀ c ∈ columns, c.value.Visible (I.view (s.context I) [])) :
    Select.WellScoped I { s with projection := columns } := by
  have other : Union.WellScoped I s.union := by rw [planned.union]; exact .none
  exact planned.united visible other (by simp [planned.union])

theorem WellPlanned.single (sound : w.Sound) {source : Source} (wellScoped : Source.WellScoped I source)
    (fresh : source.label ∉ w.labels) {shape : Shape} (labels : ∀ l ∈ shape.labels, l = source.label)
    (visible : shape.Visible m (I.view [Source.entry I source] [])) :
    WellPlanned I m { w with labels := w.labels ++ [source.label] } { source } [shape] where
  toStands := .single sound wellScoped fresh labels visible
  clauses := fun _ h => absurd h List.not_mem_nil
  paging := fun _ h => absurd h List.not_mem_nil
  projection := rfl
  union := rfl

theorem WellPlanned.subset (planned : WellPlanned I m w s shapes) {some : List Shape} (among : some ⊆ shapes) :
    WellPlanned I m w s some :=
  { planned with toStands := planned.toStands.subset among }

theorem WellPlanned.grouped (planned : WellPlanned I m w s shapes) {key : Shape} (inside : key ∈ shapes) :
    WellPlanned I m w s [.grouping key] :=
  { planned with
    labels := List.forall_mem_singleton.2 (planned.labels key inside)
    visible := List.forall_mem_singleton.2 (planned.visible key inside) }

theorem WellPlanned.meanwhile {own : List String} (planned : WellPlanned I m v s shapes) (grows : v.Grows own w)
    (sound : w.Sound) (apart : ∀ l ∈ s.labels, l ∉ own) : WellPlanned I m w s shapes :=
  { planned with toStands := planned.toStands.meanwhile grows sound apart }

theorem WellPlanned.aside (planned : WellPlanned I m w s shapes) (js : List (Join Select)) :
    WellPlanned I m { w with joins := js } s shapes :=
  { planned with toStands := planned.toStands.aside js }

theorem WellPlanned.with_clauses (planned : WellPlanned I m w s shapes) (source : t.source = s.source)
    (joins : t.joins = s.joins) (clauses : ∀ e ∈ Planning.clauses t, e.Visible (I.view (s.context I) []))
    (paging : ∀ e ∈ t.paging, e.Visible (I.view [] [])) (projection : t.projection = s.projection)
    (union : t.union = s.union) : WellPlanned I m w t shapes := by
  have context : t.context I = s.context I := by simp only [Select.context, source, joins]
  refine ⟨planned.toStands.of_sources source joins, ?_, paging, projection.trans planned.projection,
    union.trans planned.union⟩
  rwa [context]

theorem visible_behind {subject : Subject} {label : String} {V : Outlook} {shape shape' : Shape}
    {columns : List Projection} (visible : shape.Visible m V)
    (exposed : shape.expose m subject label none [] = .ok (shape', columns)) :
    (∀ c ∈ columns, c.value.Visible V) ∧
      shape'.Visible m (I.view [(label, columns.map Projection.name)] []) := by
  have listed := Shape.visible_of_expose visible exposed
  refine ⟨listed.columns fun _ h => absurd h List.not_mem_nil, listed.shape _ fun c member => ?_⟩
  exact Context.shows_single (List.mem_map_of_mem member)

theorem WellPlanned.wrapIf {subject : Subject} {needed : Bool} {q p : Planned}
    (planned : WellPlanned I m v q.select [q.shape]) (h : Step.Yields (wrapIf m subject needed q) v p w) :
    WellPlanned I m w p.select [p.shape] := by
  rcases wrapIf_yields h with ⟨-, wrapped⟩ | ⟨-, rfl, rfl⟩
  · obtain ⟨label, shape, columns, fresh, rfl, exposed, rfl⟩ := wrap_yields wrapped
    obtain ⟨columns', shape'⟩ := visible_behind (planned.visible _ (List.mem_singleton_self _)) exposed
    have new : RowSource.label (.subquery { q.select with projection := columns } label) ∉ v.labels := fresh
    exact .single planned.inScope.sound (.subquery label (planned.select columns')) new
      (exposed_of_expose exposed).labels shape'
  · exact planned

theorem WellPlanned.asSource {subject : Subject} {q : Planned} {source : Source} {shape : Shape}
    (planned : WellPlanned I m v q.select [q.shape])
    (h : Step.Yields (asSource m subject q) v (source, shape) w) : WellPlanned I m w { source } [shape] := by
  obtain ⟨p, wrapped, bare, rfl⟩ := asSource_yields h
  exact bare ▸ planned.wrapIf wrapped

/-- Planning an expression keeps a query well planned, and leaves the shape of the expression beside the elements
at hand. -/
theorem WellPlanned.against (tabled : Tabled m I) (planned : WellPlanned I m v s shapes) {scope : Scope}
    {e : Expr} (bound : Bound I e) (inside : ∀ p ∈ scope, p.2 ∈ shapes) {shape : Shape}
    (h : Step.Yields (against s (expr m scope e)) v (shape, t) w) : WellPlanned I m w t (shape :: shapes) := by
  obtain ⟨stands, more⟩ := planned.toStands.against tabled bound inside h
  obtain ⟨-, rfl⟩ := against_yields.1 h
  refine ⟨stands, fun c member => ?_, planned.paging, planned.projection, planned.union⟩
  exact (planned.clauses c member).mono (Outlook.within_of_prefix more [])

theorem WellPlanned.scalar (tabled : Tabled m I) (planned : WellPlanned I m v s shapes) {scope : Scope}
    {e : Expr} (bound : Bound I e) (inside : ∀ p ∈ scope, p.2 ∈ shapes) {c : Scalar}
    (h : Step.Yields (Planning.against s (scalar m scope e)) v (c, t) w) :
    WellPlanned I m w t (.scalar c :: shapes) := by
  obtain ⟨run, rfl⟩ := against_yields.1 h
  exact planned.against tabled bound inside (against_yields.2 ⟨scalar_yields.1 run, rfl⟩)

theorem WellPlanned.count (tabled : Tabled m I) (planned : WellPlanned I m v s shapes) {e : Expr}
    (bound : Bound I e) {c : Scalar}
    (h : Step.Yields (Planning.against s (Planning.scalar m [] e)) v (c, t) w) :
    WellPlanned I m w t shapes ∧ c.Visible (I.view [] []) := by
  have planned' := planned.scalar tabled bound (by simp) h
  obtain ⟨run, -⟩ := against_yields.1 h
  exact ⟨planned'.subset (List.subset_cons_self _ _),
    visible_of_closed (closed_sources (scalar_yields.1 run)) (planned'.visible _ List.mem_cons_self)⟩

theorem WellPlanned.joined {source : Source} {others : List Shape} (planned : WellPlanned I m w s shapes)
    (inner : Stands I m [] w { source } others) (apart : source.label ∉ s.labels) (kind : JoinKind)
    (on : Option Scalar) (condition : ∀ e ∈ on, e.Visible (I.view (s.context I ++ [Source.entry I source]) [])) :
    WellPlanned I m w { s with joins := s.joins ++ [⟨kind, source, on⟩] } (shapes ++ others) where
  toStands := planned.toStands.joined inner apart kind on condition
  clauses := by
    rw [context_joined]
    exact fun e member => (planned.clauses e member).mono (Outlook.within_append _ _ _ _)
  paging := planned.paging
  projection := planned.projection
  union := planned.union

theorem WellPlanned.addFilter (planned : WellPlanned I m w s shapes) {condition : Scalar}
    (visible : condition.Visible (I.view (s.context I) [])) :
    WellPlanned I m w (addFilter s condition) shapes := by
  have old := planned.clauses
  simp only [mem_clauses] at old
  unfold Planning.addFilter
  split
  next =>
    refine planned.with_clauses rfl rfl (fun e member => ?_) planned.paging rfl rfl
    simp only [mem_clauses] at member
    rcases member with same | member
    · obtain rfl := Option.some.inj same
      exact Scalar.Visible.both (fun c found => old c (.inl found)) visible
    · exact old e (.inr member)
  next =>
    refine planned.with_clauses rfl rfl (fun e member => ?_) planned.paging rfl rfl
    simp only [mem_clauses] at member
    rcases member with same | member | same | member
    · exact old e (.inl same)
    · exact old e (.inr (.inl member))
    · obtain rfl := Option.some.inj same
      exact Scalar.Visible.both (fun c found => old c (.inr (.inr (.inl found)))) visible
    · exact old e (.inr (.inr (.inr member)))

theorem WellPlanned.orderedBy (planned : WellPlanned I m w s shapes) {keys : List Scalar}
    (visible : ∀ key ∈ keys, key.Visible (I.view (s.context I) [])) (descending : Bool) :
    WellPlanned I m w { s with orderBy := keys.map fun key => { key, descending } } shapes := by
  refine planned.with_clauses rfl rfl (fun e member => ?_) planned.paging rfl rfl
  have old := planned.clauses e
  simp only [mem_clauses] at member old
  rcases member with same | same | same | ⟨item, same, rfl⟩
  · exact old (.inl same)
  · exact old (.inr (.inl same))
  · exact old (.inr (.inr (.inl same)))
  · obtain ⟨key, member, rfl⟩ := List.mem_map.1 same
    exact visible key member

theorem WellPlanned.groupedBy (planned : WellPlanned I m w s shapes) {keys : List Scalar}
    (visible : ∀ key ∈ keys, key.Visible (I.view (s.context I) [])) :
    WellPlanned I m w { s with groupBy := keys, orderBy := [] } shapes := by
  refine planned.with_clauses rfl rfl (fun e member => ?_) planned.paging rfl rfl
  have old := planned.clauses e
  simp only [mem_clauses] at member old
  rcases member with same | same | same | ⟨item, same, -⟩
  · exact old (.inl same)
  · exact visible e same
  · exact old (.inr (.inr (.inl same)))
  · cases same

theorem WellPlanned.paged (planned : WellPlanned I m w s shapes) {limit offset : Option Scalar}
    (limited : ∀ c ∈ limit, c.Visible (I.view [] [])) (skipping : ∀ c ∈ offset, c.Visible (I.view [] [])) :
    WellPlanned I m w { s with limit, offset } shapes := by
  refine planned.with_clauses rfl rfl planned.clauses (fun e member => ?_) rfl rfl
  simp only [Select.paging, List.mem_append, Option.mem_toList] at member
  rcases member with same | same
  · exact limited e same
  · exact skipping e same

theorem WellPlanned.limit_visible (planned : WellPlanned I m w s shapes) :
    ∀ c ∈ s.limit, c.Visible (I.view [] []) :=
  fun c same => planned.paging c (List.mem_append_left _ (Option.mem_toList.2 same))

theorem WellPlanned.offset_visible (planned : WellPlanned I m w s shapes) :
    ∀ c ∈ s.offset, c.Visible (I.view [] []) :=
  fun c same => planned.paging c (List.mem_append_right _ (Option.mem_toList.2 same))

end

theorem zip_inside {names : List String} {args shapes : List Shape} (among : args ⊆ shapes) :
    ∀ p ∈ names.zip args, p.2 ∈ shapes :=
  fun _ member => among (List.of_mem_zip member).2

theorem WellPlanned.joinOn {I : Interface} {m : Model} {u v w x y : Workspace} {outer : Planned} {source : Source}
    {shape l r : Shape} {operators : List String} {outerKey innerKey : Lambda} {subject subject' : Subject}
    {select : Select} {on : Scalar} (tabled : Tabled m I) (left : WellPlanned I m v outer.select [outer.shape])
    (right : WellPlanned I m w { source } [shape]) (before : FreshlyPlanned u v outer)
    (behind : FreshlyPlanned v w ⟨{ source }, shape, operators⟩) (outerBound : Bound I outerKey.body)
    (innerBound : Bound I innerKey.body)
    (run : Step.Yields (Planning.against outer.select (expr m (outerKey.params.zip [outer.shape]) outerKey.body)) w
      (l, select) x)
    (alone : Step.Yields (standalone m (innerKey.params.zip [shape]) subject innerKey.body) x r y)
    (equal : Shape.equality m subject' l r = .ok on) :
    WellPlanned I m y { select with joins := select.joins ++ [⟨.inner, source, some on⟩] } [outer.shape, shape] := by
  obtain ⟨read, -, apart, outside⟩ := before.keyed behind run
  have left := left.meanwhile behind.grows behind.inScope.sound fun _ _ h => absurd h List.not_mem_nil
  have left := left.against tabled outerBound (zip_inside (List.Subset.refl _)) run
  have right := right.meanwhile read.grows read.planned.inScope.sound fun l member inside =>
    apart (List.mem_singleton.1 member ▸ inside)
  obtain ⟨right, rfl⟩ := right.toStands.standalone tabled innerBound (zip_inside (List.Subset.refl _)) alone
  have beside := left.toStands.beside right outside
  have equated : on.Visible (I.view (select.context I ++ [Source.entry I source]) []) :=
    (ofOperands_visible m _).equality (beside l (by simp)) (beside r (by simp)) equal
  exact ((left.joined right outside .inner (some on) (by simpa using equated)).aside []).subset (by simp)

/-- Planning a query gives a select that stands, in which everything that is read is visible. -/
theorem query_wellPlanned {I : Interface} {m : Model} (tabled : Tabled m I) {q : Query} {w w' : Workspace}
    {p : Planned} (sound : w.Sound) (bound : ∀ e ∈ q.expressions, Bound I e)
    (literals : ∀ c ∈ q.collections, ∀ label, I.literals ⟨label, c.fields, cells c⟩)
    (h : Step.Yields (query m q) w p w') : WellPlanned I m w' p.select [p.shape] := by
  induction q generalizing w w' p with
  | set entity =>
    obtain ⟨e, t, known, -, table, rfl⟩ := set_yields h
    obtain ⟨fresh, named, rfl⟩ := newTable_yields table
    obtain ⟨columns, stored, own⟩ := tabled.tables entity e known
    obtain rfl := name_of_entity? known
    have stored : I.tables t.name = some columns := by rw [named]; exact stored
    have new : RowSource.label (.table t : Source) ∉ w.labels := fresh
    refine .single sound (.table stored) new ?_ ?_
    · exact fun l member => List.mem_singleton.1 member
    · intro c member
      refine Context.shows_single ?_
      rw [stored]
      exact own member
  | rows collection =>
    obtain ⟨label, added, rfl⟩ := rows_yields h
    obtain ⟨fresh, rfl⟩ := newLabel_yields added
    have new : RowSource.label
        (.literal { label, columns := collection.fields, rows := cells collection } : Source) ∉ w.labels := fresh
    have held := literals collection (List.mem_singleton_self _) label
    refine .single sound (.literal held) new (fun l member => ?_) (Shape.visible_record.2 fun f member => ?_)
    · obtain ⟨f, field, inside⟩ := Shape.mem_fieldsLabels.1 member
      obtain ⟨c, -, rfl⟩ := List.mem_map.1 field
      exact List.mem_singleton.1 inside
    · obtain ⟨c, field, rfl⟩ := List.mem_map.1 member
      exact Context.shows_single field
  | filter input predicate ih =>
    obtain ⟨s, v, t, v', condition, select, first, wrapped, run, rfl⟩ := filter_yields h
    obtain ⟨bound, last⟩ := List.forall_mem_append.1 bound
    have planned := (ih sound bound literals first).wrapIf wrapped
    have planned' := planned.scalar tabled (last _ (List.mem_singleton_self _)) (zip_inside (by simp)) run
    exact (planned'.subset (List.subset_cons_self _ _)).addFilter (planned'.visible _ List.mem_cons_self)
  | map input selector ih =>
    obtain ⟨s, v, shape, select, first, run, rfl⟩ := map_yields h
    obtain ⟨bound, last⟩ := List.forall_mem_append.1 bound
    have planned := ih sound bound literals first
    exact (planned.against tabled (last _ (List.mem_singleton_self _)) (zip_inside (by simp)) run).subset (by simp)
  | join outer inner outerKey innerKey result iho ihi =>
    obtain ⟨s, v, t, x, i, y, source, shape, z, l, select, z', r, z'', on, element, select', first, wrapped,
      second, sourced, run, alone, equal, run', rfl⟩ := join_yields h
    obtain ⟨bound, last⟩ := List.forall_mem_append.1 bound
    obtain ⟨bound, bound'⟩ := List.forall_mem_append.1 bound
    obtain ⟨literals, literals'⟩ := List.forall_mem_append.1 literals
    simp only [List.forall_mem_cons] at last
    obtain ⟨outerBound, innerBound, resultBound, -⟩ := last
    have outer := (query_planned sound first).wrapIf wrapped
    have inner := (query_planned outer.inScope.sound second).asSource sourced
    have left := (iho sound bound literals first).wrapIf wrapped
    have right := (ihi outer.inScope.sound bound' literals' second).asSource sourced
    have joined := left.joinOn tabled right outer inner outerBound innerBound run alone equal
    exact (joined.against tabled resultBound (zip_inside (List.Subset.refl _)) run').subset (by simp)
  | orderBy input key descending ih =>
    obtain ⟨s, v, t, v', k, select, keys, first, wrapped, run, found, rfl⟩ := orderBy_yields h
    obtain ⟨bound, last⟩ := List.forall_mem_append.1 bound
    have planned := (ih sound bound literals first).wrapIf wrapped
    have planned' := planned.against tabled (last _ (List.mem_singleton_self _)) (zip_inside (by simp)) run
    have visible := Shape.scalars_visible (planned'.visible k List.mem_cons_self) found
    exact (planned'.subset (List.subset_cons_self _ _)).orderedBy visible descending
  | take input count ih =>
    obtain ⟨s, v, t, v', limit, select, first, wrapped, run, rfl⟩ := take_yields h
    obtain ⟨bound, last⟩ := List.forall_mem_append.1 bound
    have planned := (ih sound bound literals first).wrapIf wrapped
    obtain ⟨planned', visible⟩ := planned.count tabled (last _ (List.mem_singleton_self _)) run
    exact planned'.paged (by simpa using visible) planned'.offset_visible
  | skip input count ih =>
    obtain ⟨s, v, t, v', offset, select, first, wrapped, run, rfl⟩ := skip_yields h
    obtain ⟨bound, last⟩ := List.forall_mem_append.1 bound
    have planned := (ih sound bound literals first).wrapIf wrapped
    obtain ⟨planned', visible⟩ := planned.count tabled (last _ (List.mem_singleton_self _)) run
    exact planned'.paged planned'.limit_visible (by simpa using visible)
  | groupBy input key ih =>
    obtain ⟨s, v, t, v', k, select, keys, first, wrapped, run, found, rfl⟩ := groupBy_yields h
    obtain ⟨bound, last⟩ := List.forall_mem_append.1 bound
    have planned := (ih sound bound literals first).wrapIf wrapped
    have planned' := planned.against tabled (last _ (List.mem_singleton_self _)) (zip_inside (by simp)) run
    have visible := Shape.scalars_visible (planned'.visible k List.mem_cons_self) found
    exact (planned'.grouped List.mem_cons_self).groupedBy visible
  | union left right ihl ihr =>
    obtain ⟨l, v, r, x, l', y, r', z, first, second, wrapped, wrapped', united⟩ := union_yields h
    obtain ⟨bound, bound'⟩ := List.forall_mem_append.1 bound
    obtain ⟨literals, literals'⟩ := List.forall_mem_append.1 literals
    have leftPlanned := query_planned sound first
    have rightPlanned := query_planned leftPlanned.inScope.sound second
    -- while the right side is planned, the left one waits in a workspace that grows
    have left := ((ihl sound bound literals first).meanwhile rightPlanned.grows rightPlanned.inScope.sound
      fun _ _ h => absurd h List.not_mem_nil).wrapIf wrapped
    obtain ⟨grows, sound'⟩ := wrapIf_grows rightPlanned.inScope.sound wrapped
    have right := ((ihr leftPlanned.inScope.sound bound' literals' second).meanwhile grows sound'
      fun _ _ h => absurd h List.not_mem_nil).wrapIf wrapped'
    obtain ⟨label, shape, columns, others, fresh, rfl, exposed, ⟨shape', exposed'⟩, alike, rfl⟩ :=
      unite_yields united
    obtain ⟨columns', visible⟩ := visible_behind (left.visible _ (List.mem_singleton_self _)) exposed
    obtain ⟨others', -⟩ := visible_behind (I := I) (right.visible _ (List.mem_singleton_self _)) exposed'
    have unordered : l'.select.orderBy = [] :=
      of_wrapIf (P := fun t => t.orderBy = []) (fun _ => rfl) (by simp) wrapped
    have both := left.united columns' (.some (right.select others')) fun u same => by
      obtain rfl := Option.some.inj same
      exact ⟨unordered, alike.symm⟩
    have new : RowSource.label (.subquery { l'.select with
        projection := columns, union := some { r'.select with projection := others } } label) ∉ z.labels :=
      fresh
    exact .single right.inScope.sound (.subquery label both) new (exposed_of_expose exposed).labels visible

end Setwise.Planning
