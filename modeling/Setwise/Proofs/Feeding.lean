import Setwise.Proofs.Carrying
import Setwise.Proofs.PlannedMutations
import Setwise.Proofs.Pruning
import Setwise.Relational.Binding

/-!
Collections without which a statement has no rows.

A source draws on a collection when all its rows come from rows of the collection: through selects, of which
the first source or one that is not joined outwardly draws on it (`DrawsOn`). The collection that planning
finds at the leaves of a query feeds the select of the query in this sense (`query_fedBy`), and pruning and the
counting of rows keep that up. So a statement comes down to what the plan records for it (`feeds_empty`).
-/

set_option autoImplicit false

namespace Setwise

namespace Relational

inductive DrawsOn (parameter : String) : Source → Prop where
  | pending {v : LiteralTable} (rows : v.rows = .pending parameter) : DrawsOn parameter (.literal v)
  | resolved {v : LiteralTable} {count : Nat} (rows : v.rows = .resolved parameter count) :
    DrawsOn parameter (.literal v)
  | first {s : Select} {label : String} (union : s.union = none) (source : DrawsOn parameter s.source) :
    DrawsOn parameter (.subquery s label)
  | joined {s : Select} {label : String} {j : Join Select} (union : s.union = none) (member : j ∈ s.joins)
    (kind : j.kind ≠ .leftOuter) (source : DrawsOn parameter j.source) : DrawsOn parameter (.subquery s label)

def FedByJoin (parameter : String) (js : List (Join Select)) : Prop :=
  ∃ j ∈ js, j.kind ≠ .leftOuter ∧ DrawsOn parameter j.source

def Select.FedBy (parameter : String) (s : Select) : Prop :=
  DrawsOn parameter s.source ∨ FedByJoin parameter s.joins

inductive Statement.EmptiedBy (parameter : String) : Statement → Fallback → Prop where
  | update {table : StoredTable} {set : List Projection} {predicate : Option Scalar}
    {joins : List (Join Select)} (joined : FedByJoin parameter joins) :
    EmptiedBy parameter (.update table set predicate joins) .skip
  | insertInto {table : String} {schema : Option String} {s : Select} (union : s.union = none)
    (fed : s.FedBy parameter) : EmptiedBy parameter (.insertInto table schema s) .skip
  | upsert {table : StoredTable} {s : Select} {inserted : List Projection}
    {updated : Option (List Projection)} {constraint : String} {columns : List String}
    (fed : s.FedBy parameter) :
    EmptiedBy parameter (.upsert table (some s) inserted updated constraint columns) .skip
  | merge {target : StoredTable} {rows : Source} {on : Scalar}
    {matched inserted : Option (List Projection)} {delete : Bool} (source : DrawsOn parameter rows) :
    EmptiedBy parameter (.merge target rows on matched inserted delete)
      (if delete then .truncate target else .skip)

section

variable {parameter : String}

theorem Select.FedBy.subquery {s : Select} (fed : s.FedBy parameter) (union : s.union = none)
    (label : String) : DrawsOn parameter (.subquery s label) := by
  rcases fed with source | ⟨j, member, kind, source⟩
  · exact .first union source
  · exact .joined union member kind source

theorem Select.FedBy.of_joins {s t : Select} (fed : s.FedBy parameter) (source : t.source = s.source)
    (joins : s.joins ⊆ t.joins) : t.FedBy parameter := by
  rcases fed with first | ⟨j, member, kind, drawn⟩
  · exact .inl (source ▸ first)
  · exact .inr ⟨j, joins member, kind, drawn⟩

/-! ## Pruning -/

theorem mem_pruneAll {j : Join Select} {js : List (Join Select)} (h : j ∈ js) :
    j.prune ∈ Join.pruneAll js := by
  induction js with
  | nil => cases h
  | cons k rest ih =>
    unfold Join.pruneAll
    rcases List.mem_cons.1 h with rfl | later
    · exact List.mem_cons_self
    · exact List.mem_cons_of_mem _ (ih later)

theorem DrawsOn.prune {source : Source} (h : DrawsOn parameter source) :
    DrawsOn parameter (Source.prune source) := by
  induction h with
  | pending rows => exact .pending rows
  | resolved rows => exact .resolved rows
  | @first s label union source ih => exact .first (by rw [prune_union, union]; rfl) (prune_source s ▸ ih)
  | @joined s label j union member kind source ih =>
    refine .joined (by rw [prune_union, union]; rfl) (prune_joins s ▸ mem_pruneAll member) ?_ ?_ <;>
      rw [prune_join]
    · exact kind
    · exact ih

theorem FedByJoin.prune {js : List (Join Select)} (h : FedByJoin parameter js) :
    FedByJoin parameter (Join.pruneAll js) := by
  obtain ⟨j, member, kind, drawn⟩ := h
  refine ⟨j.prune, mem_pruneAll member, ?_, ?_⟩ <;> rw [prune_join]
  · exact kind
  · exact drawn.prune

theorem Select.FedBy.prune {s : Select} (h : s.FedBy parameter) : s.prune.FedBy parameter := by
  unfold FedBy
  rw [prune_source, prune_joins]
  exact h.imp DrawsOn.prune FedByJoin.prune

theorem Statement.EmptiedBy.prune {s : Statement} {f : Fallback} (h : s.EmptiedBy parameter f) :
    s.prune.EmptiedBy parameter f := by
  cases h with
  | update joined => exact .update joined.prune
  | insertInto union fed => exact .insertInto (by rw [prune_union, union]; rfl) fed.prune
  | upsert fed => exact .upsert fed.prune
  | merge source => exact .merge source.prune

/-! ## Counting rows -/

variable {ps : Parameters}

theorem mem_of_mapLiteralTablesAll {f : LiteralTable → Except Parameters.Error LiteralTable} {j : Join Select}
    {js ks : List (Join Select)} (h : Join.mapLiteralTablesAll f js = .ok ks) (member : j ∈ js) :
    ∃ k ∈ ks, k.kind = j.kind ∧ Source.mapLiteralTables f j.source = .ok k.source := by
  induction js generalizing ks with
  | nil => cases member
  | cons i rest ih =>
    obtain ⟨i', here, h⟩ := bind_eq_ok.1 h
    obtain ⟨others, later, h⟩ := bind_eq_ok.1 h
    obtain rfl := pure_eq_ok.1 h
    rcases List.mem_cons.1 member with rfl | member
    · cases j
      obtain ⟨source, replaced, here⟩ := bind_eq_ok.1 here
      obtain rfl := pure_eq_ok.1 here
      exact ⟨_, List.mem_cons_self, rfl, replaced⟩
    · obtain ⟨k, inside, same⟩ := ih later member
      exact ⟨k, List.mem_cons_of_mem _ inside, same⟩

theorem mapLiteralTables_eq_ok {f : LiteralTable → Except Parameters.Error LiteralTable} {s t : Select}
    (h : s.mapLiteralTables f = .ok t) :
    Source.mapLiteralTables f s.source = .ok t.source ∧ Join.mapLiteralTablesAll f s.joins = .ok t.joins ∧
      (s.union = none → t.union = none) := by
  obtain ⟨source, joins, predicate, groupBy, having, projection, union, orderBy, limit, offset⟩ := s
  obtain ⟨source', first, h⟩ := bind_eq_ok.1 h
  obtain ⟨joins', second, h⟩ := bind_eq_ok.1 h
  obtain ⟨union', third, h⟩ := bind_eq_ok.1 h
  obtain rfl := pure_eq_ok.1 h
  refine ⟨first, second, ?_⟩
  rintro rfl
  exact (Except.ok.inj third).symm

theorem resolve_draws {v w : LiteralTable} (h : v.resolve ps = .ok w)
    (drawn : v.rows = .pending parameter ∨ ∃ count, v.rows = .resolved parameter count) :
    ∃ count, w.rows = .resolved parameter count := by
  unfold LiteralTable.resolve at h
  rcases drawn with rows | ⟨count, rows⟩
  · rw [rows] at h
    obtain ⟨found, -, h⟩ := bind_eq_ok.1 h
    split at h
    next => cases h
    next =>
      obtain rfl := pure_eq_ok.1 h
      exact ⟨_, rfl⟩
  · rw [rows] at h
    obtain rfl := Except.ok.inj h
    exact ⟨count, rows⟩

theorem DrawsOn.resolve {source found : Source} (h : DrawsOn parameter source)
    (run : Source.mapLiteralTables (LiteralTable.resolve ps) source = .ok found) : DrawsOn parameter found := by
  induction h generalizing found with
  | pending rows =>
    obtain ⟨v, resolved, run⟩ := bind_eq_ok.1 run
    obtain rfl := pure_eq_ok.1 run
    obtain ⟨count, rows⟩ := resolve_draws resolved (.inl rows)
    exact .resolved rows
  | resolved rows =>
    obtain ⟨v, resolved, run⟩ := bind_eq_ok.1 run
    obtain rfl := pure_eq_ok.1 run
    obtain ⟨count, rows⟩ := resolve_draws resolved (.inr ⟨_, rows⟩)
    exact .resolved rows
  | first union source ih =>
    obtain ⟨t, select, run⟩ := bind_eq_ok.1 run
    obtain rfl := pure_eq_ok.1 run
    obtain ⟨first, -, union'⟩ := mapLiteralTables_eq_ok select
    exact .first (union' union) (ih first)
  | joined union member kind source ih =>
    obtain ⟨t, select, run⟩ := bind_eq_ok.1 run
    obtain rfl := pure_eq_ok.1 run
    obtain ⟨-, joins, union'⟩ := mapLiteralTables_eq_ok select
    obtain ⟨k, inside, same, first⟩ := mem_of_mapLiteralTablesAll joins member
    exact .joined (union' union) inside (same ▸ kind) (ih first)

theorem FedByJoin.resolve {js ks : List (Join Select)} (h : FedByJoin parameter js)
    (run : Join.mapLiteralTablesAll (LiteralTable.resolve ps) js = .ok ks) : FedByJoin parameter ks := by
  obtain ⟨j, member, kind, drawn⟩ := h
  obtain ⟨k, inside, same, first⟩ := mem_of_mapLiteralTablesAll run member
  exact ⟨k, inside, same ▸ kind, drawn.resolve first⟩

theorem Select.FedBy.resolve {s t : Select} (h : s.FedBy parameter)
    (run : s.mapLiteralTables (LiteralTable.resolve ps) = .ok t) : t.FedBy parameter := by
  obtain ⟨first, joins, -⟩ := mapLiteralTables_eq_ok run
  exact h.imp (fun drawn => drawn.resolve first) fun fed => fed.resolve joins

theorem Statement.EmptiedBy.resolve {s t : Statement} {f : Fallback} (h : s.EmptiedBy parameter f)
    (run : s.mapLiteralTables (LiteralTable.resolve ps) = .ok t) : t.EmptiedBy parameter f := by
  cases h with
  | update joined =>
    obtain ⟨ks, joins, run⟩ := bind_eq_ok.1 run
    obtain rfl := pure_eq_ok.1 run
    exact .update (joined.resolve joins)
  | insertInto union fed =>
    obtain ⟨t, select, run⟩ := bind_eq_ok.1 run
    obtain rfl := pure_eq_ok.1 run
    exact .insertInto ((mapLiteralTables_eq_ok select).2.2 union) (fed.resolve select)
  | upsert fed =>
    obtain ⟨t, option, run⟩ := bind_eq_ok.1 run
    obtain rfl := pure_eq_ok.1 run
    obtain ⟨t, select, option⟩ := bind_eq_ok.1 option
    obtain rfl := pure_eq_ok.1 option
    exact .upsert (fed.resolve select)
  | merge source =>
    obtain ⟨t, first, run⟩ := bind_eq_ok.1 run
    obtain rfl := pure_eq_ok.1 run
    exact .merge (source.resolve first)

end

end Relational

namespace Planning

open Client Relational

/-! ## Planned queries -/

mutual

theorem expr_joins {m : Model} {scope : Scope} {w w' : Workspace} {s : Shape} (e : Expr)
    (h : Step.Yields (expr m scope e) w s w') : w.joins ⊆ w'.joins := by
  match e with
  | .param name =>
    obtain ⟨-, rfl⟩ := param_yields.1 h
    exact List.Subset.refl _
  | .constant _ | .captured _ _ | .runtime _ =>
    obtain ⟨-, rfl⟩ := Step.yields_pure.1 h
    exact List.Subset.refl _
  | .member of name =>
    obtain ⟨t, v, first, h⟩ := member_yields.1 h
    have before := expr_joins of first
    obtain ⟨-, rfl⟩ | ⟨r, owner, n, foreignKey, principalKey, required, -, run⟩ := readMember_yields h
    · exact before
    -- a reference is found joined, or joined behind the rest
    · obtain ⟨label, -, ⟨-, rfl⟩ | ⟨-, target, on, -, -, rfl⟩⟩ := follow_yields run
      · exact before
      · exact fun j member => List.mem_append_left _ (before member)
  | .binary l op r =>
    obtain ⟨a, u, b, e, first, second, -, -⟩ := binary_yields.1 h
    exact List.Subset.trans (expr_joins l first) (expr_joins r second)
  | .not operand =>
    obtain ⟨e, first, -⟩ := not_yields.1 h
    exact expr_joins operand first
  | .conditional test a b =>
    obtain ⟨t, u, x, v, y, first, second, third, -⟩ := conditional_yields.1 h
    exact List.Subset.trans (List.Subset.trans (expr_joins test first) (expr_joins a second)) (expr_joins b third)
  | .new type args bindings =>
    obtain ⟨-, fields, all, -⟩ := new_yields.1 h
    exact fieldList_joins bindings all

theorem fieldList_joins {m : Model} {scope : Scope} {whole : Expr} {w w' : Workspace}
    {fs : List (String × Shape)} (bs : List (Binding Expr))
    (h : Step.Yields (fieldList m scope whole bs) w fs w') : w.joins ⊆ w'.joins := by
  match bs with
  | [] =>
    obtain ⟨-, rfl⟩ := noFields_yields.1 h
    exact List.Subset.refl _
  | .items .. :: rest => exact absurd h not_items_yields
  | .assign member value :: rest =>
    obtain ⟨t, v, others, first, later, -⟩ := assign_yields.1 h
    exact List.Subset.trans (expr_joins value first) (fieldList_joins rest later)

end

section

variable {m : Model} {parameter : String} {w w' : Workspace}

theorem fedBy_against {scope : Scope} {e : Expr} {s t : Select} {shape : Shape} (fed : s.FedBy parameter)
    (h : Step.Yields (against s (expr m scope e)) w (shape, t) w') : t.FedBy parameter := by
  obtain ⟨run, rfl⟩ := against_yields.1 h
  exact fed.of_joins rfl (expr_joins e run)

theorem fedBy_againstScalar {scope : Scope} {e : Expr} {s t : Select} {c : Scalar} (fed : s.FedBy parameter)
    (h : Step.Yields (against s (scalar m scope e)) w (c, t) w') : t.FedBy parameter := by
  obtain ⟨run, rfl⟩ := against_yields.1 h
  exact fed.of_joins rfl (expr_joins e (scalar_yields.1 run))

theorem assignedFields_joins {scope : Scope} {list : List Assignment} {fields : List Projection}
    (h : Step.Yields (assignedFields m scope list) w fields w') : w.joins ⊆ w'.joins := by
  induction list generalizing w fields with
  | nil =>
    obtain ⟨-, rfl⟩ := Step.yields_pure.1 h
    exact List.Subset.refl _
  | cons a rest ih =>
    simp only [assignedFields, Step.yields_bind, Step.yields_pure] at h
    obtain ⟨value, v, first, others, _, later, -, rfl⟩ := h
    exact List.Subset.trans (expr_joins a.value (scalar_yields.1 first)) (ih later)

theorem fedBy_wrapIf {subject : Subject} {needed : Bool} {s p : Planned} (fed : s.select.FedBy parameter)
    (union : s.select.union = none) (h : Step.Yields (wrapIf m subject needed s) w p w') :
    p.select.FedBy parameter := by
  rcases wrapIf_yields h with ⟨-, wrapped⟩ | ⟨-, rfl, -⟩
  · obtain ⟨label, shape, columns, -, -, -, rfl⟩ := wrap_yields wrapped
    exact .inl ((fed.of_joins rfl (List.Subset.refl _) :
      Select.FedBy parameter { s.select with projection := columns }).subquery union label)
  · exact fed

theorem drawsOn_asSource {subject : Subject} {s : Planned} {source : Source} {shape : Shape}
    (fed : s.select.FedBy parameter) (union : s.select.union = none)
    (h : Step.Yields (asSource m subject s) w (source, shape) w') : DrawsOn parameter source := by
  obtain ⟨p, wrapped, bare, -⟩ := asSource_yields h
  have fed' := fedBy_wrapIf fed union wrapped
  rw [bare] at fed'
  rcases fed' with drawn | ⟨j, member, -⟩
  · exact drawn
  · cases member

theorem fedBy_addFilter {s : Select} (fed : s.FedBy parameter) (condition : Scalar) :
    (addFilter s condition).FedBy parameter := by
  unfold addFilter
  split <;> exact fed.of_joins rfl (List.Subset.refl _)

/-- The collection that drives a query feeds its select. -/
theorem query_fedBy {q : Query} {p : Planned} (driven : feedingCollection? q = some parameter)
    (h : Step.Yields (query m q) w p w') : p.select.FedBy parameter := by
  induction q generalizing w w' p with
  | set name => cases driven
  | rows rows =>
    obtain ⟨label, -, rfl⟩ := rows_yields h
    cases rows with
    | parameter name fields =>
      obtain rfl := Option.some.inj driven
      exact .inl (.pending rfl)
    | records fields elements => cases driven
  | filter input predicate ih =>
    obtain ⟨s, v, t, v', condition, select, first, wrapped, run, rfl⟩ := filter_yields h
    have fed := fedBy_wrapIf (ih driven first) (query_union first) wrapped
    exact fedBy_addFilter (fedBy_againstScalar fed run) condition
  | map input selector ih =>
    obtain ⟨s, v, shape, select, first, run, rfl⟩ := map_yields h
    exact fedBy_against (ih driven first) run
  | join outer inner outerKey innerKey result iho ihi =>
    obtain ⟨s, v, t, x, i, y, source, shape, z, l, select, z', r, z'', on, element, select', first, wrapped,
      second, sourced, run, -, -, run', rfl⟩ := join_yields h
    refine fedBy_against ?_ run'
    -- the collection comes from the outer side, or the outer side has none and it is drawn on by an inner join
    rcases Option.or_eq_some_iff.1 driven with outwards | ⟨-, inwards⟩
    · have fed := fedBy_wrapIf (iho outwards first) (query_union first) wrapped
      exact (fedBy_against fed run).of_joins rfl (List.subset_append_left _ _)
    · have drawn := drawsOn_asSource (ihi inwards second) (query_union second) sourced
      exact .inr ⟨_, List.mem_append_right _ (List.mem_singleton_self _), nofun, drawn⟩
  | orderBy input key descending ih =>
    obtain ⟨s, v, t, v', k, select, keys, first, wrapped, run, -, rfl⟩ := orderBy_yields h
    have fed := fedBy_wrapIf (ih driven first) (query_union first) wrapped
    exact (fedBy_against fed run).of_joins rfl (List.Subset.refl _)
  | take input count ih =>
    obtain ⟨s, v, t, v', limit, select, first, wrapped, run, rfl⟩ := take_yields h
    have fed := fedBy_wrapIf (ih driven first) (query_union first) wrapped
    exact (fedBy_againstScalar fed run).of_joins rfl (List.Subset.refl _)
  | skip input count ih =>
    obtain ⟨s, v, t, v', offset, select, first, wrapped, run, rfl⟩ := skip_yields h
    have fed := fedBy_wrapIf (ih driven first) (query_union first) wrapped
    exact (fedBy_againstScalar fed run).of_joins rfl (List.Subset.refl _)
  | groupBy input key ih =>
    obtain ⟨s, v, t, v', k, select, keys, first, wrapped, run, -, rfl⟩ := groupBy_yields h
    have fed := fedBy_wrapIf (ih driven first) (query_union first) wrapped
    exact (fedBy_against fed run).of_joins rfl (List.Subset.refl _)
  | union left right => cases driven

/-! ## Planned mutations -/

theorem mem_feeds {q : Query} {whenEmpty : Fallback} {feed : Feed} (h : feed ∈ feeds q whenEmpty) :
    feedingCollection? q = some feed.parameter ∧ feed.whenEmpty = whenEmpty := by
  obtain ⟨parameter, driven, rfl⟩ := List.mem_map.1 h
  exact ⟨Option.mem_toList.1 driven, rfl⟩

theorem fedBy_assigned {scope : Scope} {list : List Assignment} {s t : Select} {fields : List Projection}
    (fed : s.FedBy parameter) (h : Step.Yields (against s (assignedFields m scope list)) w (fields, t) w') :
    t.FedBy parameter := by
  obtain ⟨run, rfl⟩ := against_yields.1 h
  exact fed.of_joins rfl (assignedFields_joins run)

/-- A plan of a mutation has one feed at most, and its statement comes down to what is recorded for it. -/
theorem feeds_empty {capabilities : Capabilities} {mutation : Mutation} {plan : Plan}
    (h : Step.Yields (mutationPlan m capabilities mutation) w plan w') :
    plan.feeds = [] ∨ ∃ feed s, plan.feeds = [feed] ∧ plan.root = .affected s ∧
      s.EmptiedBy feed.parameter feed.whenEmpty := by
  -- it is enough that the statement comes down to the fallback for the collection of its query
  have single {q : Query} {whenEmpty : Fallback} {s : Statement}
      (empties : ∀ c, feedingCollection? q = some c → s.EmptiedBy c whenEmpty) :
      let plan := writePlan s (feeds q whenEmpty)
      plan.feeds = [] ∨ ∃ feed s, plan.feeds = [feed] ∧ plan.root = .affected s ∧
        s.EmptiedBy feed.parameter feed.whenEmpty := by
    intro plan
    cases driven : feedingCollection? q with
    | none => exact .inl (by simp [plan, writePlan, feeds, driven])
    | some c =>
      exact .inr ⟨⟨c, whenEmpty⟩, s, by simp [plan, writePlan, feeds, driven], rfl, empties c driven⟩
  cases mutation with
  | delete q =>
    obtain ⟨s, table, e, -, -, rfl⟩ := delete_yields h
    exact .inl rfl
  | update q set =>
    obtain ⟨s, v, table, e, list, fields, select, -, -, -, -, rfl⟩ := update_yields h
    exact .inl rfl
  | updateJoin outer inner outerKey innerKey set condition =>
    obtain ⟨s, v, table, e, i, u, source, shape, x, l, select, y, r, z, on, list, fields, select', z', -, -,
      second, sourced, -, -, -, -, run, finished⟩ := updateJoin_yields h
    have joined (c : String) (driven : feedingCollection? inner = some c) : FedByJoin c select'.joins := by
      have drawn := drawsOn_asSource (query_fedBy driven second) (query_union second) sourced
      obtain ⟨start, rfl⟩ := against_yields.1 run
      exact ⟨_, assignedFields_joins start (List.mem_append_right _ (List.mem_singleton_self _)), nofun, drawn⟩
    rcases finished with ⟨-, -, rfl⟩ | ⟨c, p, select'', -, last, rfl⟩
    · exact single fun c driven => .update (joined c driven)
    · refine single fun c driven => .update ?_
      obtain ⟨start, rfl⟩ := against_yields.1 last
      obtain ⟨j, member, kind, drawn⟩ := joined c driven
      exact ⟨j, expr_joins _ (scalar_yields.1 start) member, kind, drawn⟩
  | insertInto q target =>
    obtain ⟨input, selector, e, list, s, v, fields, select, rfl, -, -, first, run, rfl⟩ := insertInto_yields h
    refine single fun c driven => .insertInto ?_ ?_
    · obtain ⟨-, rfl⟩ := against_yields.1 run
      exact query_union first
    · exact (fedBy_assigned (query_fedBy driven first) run).of_joins rfl (List.Subset.refl _)
  | upsert target source insert update =>
    obtain ⟨e, table, v, list, key, select, fields, x, updated, columns, -, -, -, -, sourced, -, -, rfl⟩ :=
      upsert_yields h
    rcases upsertSource_yields sourced with ⟨q, s, v', t, rfl, rfl, first, run⟩ | ⟨rfl, rfl, -⟩
    · exact single fun c driven => .upsert (fedBy_assigned (query_fedBy driven first) run)
    · exact .inl rfl
  | merge target source targetKey sourceKey update insert delete =>
    obtain ⟨e, table, v, s, u, rows, shape, x, l, y, r, z, on, matched, z', inserted, -, -, first, sourced, -, -,
      -, -, -, rfl⟩ := merge_yields h
    refine single fun c driven => .merge ?_
    exact drawsOn_asSource (query_fedBy driven first) (query_union first) sourced

end

end Planning

end Setwise
