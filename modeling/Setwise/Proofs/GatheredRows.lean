import Setwise.Proofs.ChangedRows
import Setwise.Proofs.GatheredQueries
import Setwise.Proofs.RootQueries

/-!
Rows of a table behind filters and maps.

A delete and an update work row by row on the table at the root of their query, whose chain has filters and maps only. What
such a query makes of the entity in one row (`Query.through?`) is what the select shows that has this row in the place of
the table (`root_represents`), and the write, with its predicate pruned, finds the rows for which that is something
(`satisfyingRows_eq_ok`).
-/

set_option autoImplicit false

namespace Setwise

open Client Relational Execution Planning

namespace Client

section

variable (m : Model) (db : Database) (ps : Parameters)

/-- The NULL constants in what a query makes of the rows at its root. -/
def Query.rootNulls : Query → Nulls
  | .filter input _ => input.rootNulls
  | .map input l => l.nulls [input.rootNulls]
  | .set _ | .rows _ | .join .. | .orderBy .. | .take .. | .skip .. | .groupBy .. | .union .. => Nulls.none

/-- What the filters and maps of a query make of the entity in a row at its root. -/
def Query.through? : Query → Element → Option Element
  | .set _, x => some x
  | .filter input l, x =>
    (input.through? x).bind fun y =>
      (l.gives m db ps [input.rootNulls] [y]).bind fun z => if z.holds then some y else none
  | .map input l, x => (input.through? x).bind fun y => l.gives m db ps [input.rootNulls] [y]
  | .rows _, _ | .join .., _ | .orderBy .., _ | .take .., _ | .skip .., _ | .groupBy .., _ | .union .., _ => none

end

end Client

namespace Relational

/-- The select over one row in the place of its source. -/
def Select.onRow (s : Select) (columns : List String) (row : Row) : Select :=
  { s with source := .literal ⟨s.source.label, columns, .immediate [row.map .constant]⟩ }

/-- The select has no other clause than its joins and its predicate. -/
structure Select.OnlyFilters (s : Select) : Prop where
  groupBy : s.groupBy = []
  having : s.having = none
  orderBy : s.orderBy = []
  limit : s.limit = none
  offset : s.offset = none
  union : s.union = none

end Relational

theorem Relational.Select.OnlyFilters.opened {s : Select} (h : s.OnlyFilters) : isClosed s = false := by
  simp [isClosed, Select.isPaged, h.limit, h.offset, h.union]

theorem Relational.Select.OnlyFilters.against {α : Type} {x : Step α} {a : α} {r select : Select} (filters : r.OnlyFilters)
    {v w : Workspace}
    (run : Step.Yields (Planning.against r x) v (a, select) w) : select.OnlyFilters := by
  obtain ⟨-, rfl⟩ := against_yields.1 run
  exact ⟨filters.groupBy, filters.having, filters.orderBy, filters.limit, filters.offset, filters.union⟩

namespace Planning

section

variable {m : Model} {db : Database} {env : Environment} {u v w : Workspace} {s t p : Planned} {q : Query}
  {columns : List String} {row : Row} {all frames : List Frame}

theorem joins_tables {scope : Scope} {e : Expr} {shape : Shape} {r select : Select}
    (run : Step.Yields (against r (expr m scope e)) v (shape, select) w)
    (tables : ∀ j ∈ r.joins, ∃ t, j.source = .table t) : ∀ j ∈ select.joins, ∃ t, j.source = .table t := by
  obtain ⟨planned, rfl⟩ := against_yields.1 run
  obtain ⟨more, joins, added, -⟩ := expr_replays e planned
  intro j member
  rw [joins] at member
  exact (List.mem_append.1 member).elim (tables j) (added j)

theorem unwrapped {subject : Subject} (plain : s.select.OnlyFilters)
    (h : Step.Yields (wrapIf m subject (isClosed s.select) s) v t w) : t = s ∧ w = v := by
  rcases wrapIf_yields h with ⟨closed, -⟩ | ⟨-, rfl, rfl⟩
  · rw [plain.opened] at closed
    cases closed
  · exact ⟨rfl, rfl⟩

theorem addFilter_ungrouped {s : Select} {e : Scalar} (ungrouped : s.groupBy = []) :
    addFilter s e = { s with predicate := some (Scalar.both s.predicate e) } := by
  rw [addFilter, if_pos (List.isEmpty_iff.2 ungrouped)]

theorem chain_filters (plain : ∀ r ∈ q.chain, r.rearranges = false) (run : Step.Yields (query m q) u p w) :
    p.select.OnlyFilters ∧ ∀ j ∈ p.select.joins, ∃ t, j.source = .table t := by
  induction q generalizing u p w with
  | set name =>
    obtain ⟨e, t, -, -, -, rfl⟩ := set_yields run
    exact ⟨⟨rfl, rfl, rfl, rfl, rfl, rfl⟩, fun j member => absurd member List.not_mem_nil⟩
  | rows collection =>
    obtain ⟨label, -, rfl⟩ := rows_yields run
    exact ⟨⟨rfl, rfl, rfl, rfl, rfl, rfl⟩, fun j member => absurd member List.not_mem_nil⟩
  | filter input l ih =>
    obtain ⟨s, v, t, v', condition, select, first, wrapped, planned, rfl⟩ := filter_yields run
    obtain ⟨filters, tables⟩ := ih (fun r member => plain r (List.mem_cons_of_mem _ member)) first
    obtain ⟨rfl, rfl⟩ := unwrapped filters wrapped
    have joined := joins_tables (against_scalar planned) tables
    have filters := filters.against planned
    rw [addFilter_ungrouped filters.groupBy]
    exact ⟨⟨filters.groupBy, filters.having, filters.orderBy, filters.limit, filters.offset, filters.union⟩, joined⟩
  | map input l ih =>
    obtain ⟨s, v, shape, select, first, planned, rfl⟩ := map_yields run
    obtain ⟨filters, tables⟩ := ih (fun r member => plain r (List.mem_cons_of_mem _ member)) first
    exact ⟨filters.against planned, joins_tables planned tables⟩
  | join | orderBy | take | skip | groupBy | union => cases plain _ List.mem_cons_self

/-! ## One row -/

theorem against_onRow {α : Type} {x : Step α} {a : α} {r select : Select} (run : Step.Yields (against r x) v (a, select) w)
    (columns : List String) (row : Row) : Step.Yields (against (r.onRow columns row) x) v (a, select.onRow columns row) w := by
  obtain ⟨planned, rfl⟩ := against_yields.1 run
  exact against_yields.2 ⟨planned, rfl⟩

theorem FreshlyPlanned.onRow (planned : FreshlyPlanned u w p) (columns : List String) (row : Row) :
    FreshlyPlanned u w { p with select := p.select.onRow columns row } :=
  planned.alike rfl rfl rfl

theorem Planned.Regular.onRow (regular : p.Regular) (columns : List String) (row : Row) :
    ({ p with select := p.select.onRow columns row } : Planned).Regular :=
  ⟨regular.ungrouped, regular.grouped⟩

theorem onRow_rows {s : Select} : sourceRows db env (s.onRow columns row).source = .ok ⟨s.source.label, columns, [row]⟩ := by
  have rows := @immediateRows_constants env [row]
  simp only [List.map_cons, List.map_nil] at rows
  simp only [Select.onRow, sourceRows, literalRows, rows]
  rfl

theorem addFilter_onRow (s : Select) (e : Scalar) :
    (addFilter s e).onRow columns row = addFilter (s.onRow columns row) e := by
  by_cases grouped : s.groupBy.isEmpty <;> simp [addFilter, Select.onRow, grouped]

theorem replace_single (found : Option Element) (nulls : Nulls) (g : Element → Option Element) :
    ({ Gathered.of found.toList with nulls } : Gathered).replace (fun k x => (g x).map fun y => (k, y)) =
      { Gathered.of (found.bind g).toList with nulls } := by
  cases found with
  | none => rfl
  | some x => cases given : g x <;> simp [Gathered.replace, Gathered.of, given]

/-- Over one row, a query of filters and maps shows what it makes of the entity in the row. -/
theorem root_represents (on : LeadsOn m db) {name : String} (root : q.rootSet? = some name)
    (plain : ∀ r ∈ q.chain, r.rearranges = false) (sound : u.Sound) (own : q.ReadsOwn m u)
    (run : Step.Yields (query m q) u p w) (met : (Element.ofRow m name columns row).Within (Met m db))
    (keeps : Keeps db env (p.select.onRow columns row) all frames) :
    Represents m db env { p with select := p.select.onRow columns row } all frames
      { Gathered.of (q.through? m db env.parameters (.ofRow m name columns row)).toList with nulls := q.rootNulls } := by
  induction q generalizing u p w all frames with
  | set other =>
    obtain ⟨e, ref, known, -, -, rfl⟩ := set_yields run
    obtain rfl := name_of_entity? known
    obtain rfl := Option.some.inj root
    refine .bare trivial onRow_rows ?_ (List.forall_mem_singleton.2 met) keeps
    exact congrArg (fun x => [x]) (element_joined m env e.name (f := []) List.not_mem_nil [])
  | rows collection => cases root
  | filter input l ih =>
    obtain ⟨s, v, t, v', condition, select, first, wrapped, planned, rfl⟩ := filter_yields run
    have rest : ∀ r ∈ input.chain, r.rearranges = false := fun r member => plain r (List.mem_cons_of_mem _ member)
    have readsOwn := own.2 _ _ _ _ _ first wrapped
    obtain ⟨rfl, rfl⟩ := unwrapped (chain_filters rest first).1 wrapped
    rw [addFilter_onRow] at keeps ⊢
    obtain ⟨_, _, before, represents⟩ := filter_represents on ((query_planned sound first).onRow columns row)
      ((query_regular first).onRow columns row) readsOwn
      (against_onRow (against_scalar planned) columns row) keeps
    have shown := represents _ (ih root rest sound own.1 first before)
    -- at most one element comes from the row, and the filter keeps or drops it
    have kept := replace_single (input.through? m db env.parameters (.ofRow m name columns row)) input.rootNulls fun y =>
      (l.gives m db env.parameters [input.rootNulls] [y]).bind fun z => if z.holds then some y else none
    simp only [Option.map_bind, Function.comp_def, apply_ite (Option.map _), Option.map_some, Option.map_none] at kept
    rw [kept] at shown
    exact shown
  | map input l ih =>
    obtain ⟨s, v, shape, select, first, planned, rfl⟩ := map_yields run
    have rest : ∀ r ∈ input.chain, r.rearranges = false := fun r member => plain r (List.mem_cons_of_mem _ member)
    have readsOwn := own.2 _ _ first
    obtain ⟨_, _, before, represents⟩ := map_represents on ((query_planned sound first).onRow columns row)
      ((query_regular first).onRow columns row) readsOwn
      (against_onRow planned columns row) keeps
    have shown := represents _ (ih root rest sound own.1 first before)
    rw [replace_single] at shown
    exact shown
  | join | orderBy | take | skip | groupBy | union => cases plain _ List.mem_cons_self

theorem Represents.first {found : Option Element} {nulls : Nulls}
    (h : Represents m db env p all frames { Gathered.of found.toList with nulls }) :
    frames.head?.map (p.shape.element m env) = found := by
  have elements := congrArg (List.map Prod.snd) h.entries
  simp only [Gathered.of, List.map_map, Function.comp_def, List.map_id'] at elements
  rw [← List.head?_map]
  exact (congrArg List.head? elements).symm.trans Option.head?_toList

section

variable (on : LeadsOn m db) {name : String} (root : q.rootSet? = some name)
  (plain : ∀ r ∈ q.chain, r.rearranges = false) (sound : u.Sound) (own : q.ReadsOwn m u)
  (run : Step.Yields (query m q) u p w) (met : (Element.ofRow m name columns row).Within (Met m db))
include on root plain sound own run met

theorem row_reached (joined : joinedFrames db env (p.select.onRow columns row) = .ok all) :
    (all.find? (passes env p.select.predicate)).map (p.shape.element m env) =
      q.through? m db env.parameters (.ofRow m name columns row) := by
  have filters := (chain_filters plain run).1
  rw [← List.head?_filter]
  exact (root_represents on root plain sound own run met (keeps_ungrouped joined filters.groupBy filters.having)).first

theorem row_mapped {l : Lambda} {shape : Shape} {select : Select} {w' : Workspace}
    (readsOwn : l.ReadsOwn m [p.shape] p.select w)
    (planned : Step.Yields (against p.select (expr m (l.params.zip [p.shape]) l.body)) w (shape, select) w')
    (joined : joinedFrames db env (select.onRow columns row) = .ok all) :
    (all.find? (passes env select.predicate)).map (shape.element m env) =
      (q.through? m db env.parameters (.ofRow m name columns row)).bind fun x =>
        l.gives m db env.parameters [q.rootNulls] [x] := by
  have filters := (chain_filters plain run).1.against planned
  obtain ⟨_, _, before, represents⟩ := map_represents on ((query_planned sound run).onRow columns row)
    ((query_regular run).onRow columns row) readsOwn (against_onRow planned columns row)
    (keeps_ungrouped joined filters.groupBy filters.having)
  have shown := represents _ (root_represents on root plain sound own run met before)
  rw [replace_single] at shown
  rw [← List.head?_filter]
  exact shown.first

end

end

end Planning

/-! ## Rows that a write finds -/

namespace Execution

section

variable {db : Database} {env : Environment} {s : Select} {predicate : Option Scalar}

variable (db env) in
/-- The frames of a select over one row, where they can be joined. -/
def framesOn (s : Select) (columns : List String) (row : Row) : List Frame :=
  (joinedFrames db env (s.onRow columns row)).toOption.getD []

theorem firstFrame?_eq_ok {frames : List Frame} {found : Option Frame} (h : firstFrame? env predicate frames = .ok found) :
    found = frames.find? (passes env predicate) := by
  induction frames with
  | nil => exact (Except.ok.inj h).symm
  | cons f rest ih =>
    obtain ⟨keep, condition, h⟩ := bind_eq_ok.1 h
    rw [List.find?_cons, passes_of_eq_ok condition]
    cases keep with
    | true => exact (Except.ok.inj h).symm
    | false => exact ih h

theorem joinedFrames_onRow {rs : RowSet} {row : Row} {frames : List Frame} {columns : List String}
    (label : rs.label = s.source.label) (joined : joinAll db env s.joins [[rs.visible row]] = .ok (frames, columns)) :
    joinedFrames db env (s.onRow rs.columns row) = .ok frames := by
  refine joinedFrames_eq_ok.2 ⟨_, columns, onRow_rows, ?_⟩
  rw [← label]
  exact joined

theorem satisfyingFrom_eq_ok {rs : RowSet} {rows : List Row} {n : Nat} {found : List (Nat × Frame)}
    (label : rs.label = s.source.label) (h : satisfyingFrom db env rs s.joins predicate n rows = .ok found) :
    (∀ row ∈ rows, ∃ frames, joinedFrames db env (s.onRow rs.columns row) = .ok frames) ∧
      found = located (fun row => (framesOn db env s rs.columns row).find? (passes env predicate)) n rows := by
  induction rows generalizing n found with
  | nil => exact ⟨fun row member => absurd member List.not_mem_nil, (Except.ok.inj h).symm⟩
  | cons row rest ih =>
    unfold satisfyingFrom at h
    obtain ⟨⟨frames, columns⟩, joined, h⟩ := bind_eq_ok.1 h
    obtain ⟨first, here, h⟩ := bind_eq_ok.1 h
    obtain ⟨others, later, h⟩ := bind_eq_ok.1 h
    obtain ⟨each, rfl⟩ := ih later
    have alone := joinedFrames_onRow label joined
    have frames : framesOn db env s rs.columns row = frames := by
      rw [framesOn, alone]
      rfl
    refine ⟨List.forall_mem_cons.2 ⟨⟨_, alone⟩, each⟩, (Except.ok.inj h).symm.trans ?_⟩
    rw [located, frames, ← firstFrame?_eq_ok here]
    cases first <;> rfl

theorem satisfyingRows_eq_ok {table : StoredTable} {found : List (Nat × Frame)} (source : s.source = .table table)
    (h : satisfyingRows db env table s.joins (predicate.bind Scalar.prune) = .ok found) :
    ∃ t, db.find? table.name = some t ∧
      (∀ row ∈ t.rows, ∃ frames, joinedFrames db env (s.onRow t.columnNames row) = .ok frames) ∧
      found = located (fun row => (framesOn db env s t.columnNames row).find? (passes env predicate)) 0 t.rows := by
  obtain ⟨t, held, h⟩ := bind_eq_ok.1 h
  have label : (RowSet.ofTable t table.label).label = s.source.label := by
    rw [source]
    rfl
  obtain ⟨each, located⟩ := satisfyingFrom_eq_ok label h
  have pruned : passes env (predicate.bind Scalar.prune) = passes env predicate :=
    funext fun f => passes_pruned env f predicate
  rw [pruned] at located
  exact ⟨t, Database.get_eq_ok.1 (mapError_eq_ok.1 held), each, located⟩

end

end Execution

end Setwise
