import Setwise.Proofs.BoundRuns
import Setwise.Proofs.ResolvedTables
import Setwise.Sql.Statement

/-!
Commands for blocks whose literal tables are bound.

Writing a command reaches the literal tables of a block by a recursion of its own, in either dialect; where none of
them is pending at any depth, there is no error about rows that are not bound (`Writer.block_findsRows`). Binding leaves
no pending table where the executor or one of the dialects looks for rows, and changes nothing else
(`binding_resolves_tables`).
-/

set_option autoImplicit false

namespace Setwise

open Relational

namespace Sql

def Error.isUnbound : Error → Bool
  | unbound _ => true
  | _ => false

namespace Writer

def FindsRows {α : Type} (x : Writer α) : Prop :=
  ∀ used e, x.run used = .error e → e.isUnbound = false

namespace FindsRows

variable {α β : Type}

theorem pure (a : α) : FindsRows (Pure.pure a : Writer α) := by
  rintro _ _ ⟨⟩

theorem throw {e : Error} (other : e.isUnbound = false) : FindsRows (MonadExcept.throw e : Writer α) := by
  rintro _ _ ⟨⟩
  exact other

theorem bind {x : Writer α} {f : α → Writer β} (first : FindsRows x) (rest : ∀ a, FindsRows (f a)) :
    FindsRows (x >>= f) := by
  intro used e failed
  rcases bind_eq_error.1 failed with here | ⟨⟨a, used'⟩, -, later⟩
  · exact first used e here
  · exact rest a used' e later

end FindsRows

variable (d : Dialect) (ps : Parameters)

/-! ## Expressions and clauses -/

theorem register_findsRows (name : String) (v : Value) : FindsRows (register name v) := by
  rintro _ _ ⟨⟩

theorem registerBound_findsRows (names : List String) : FindsRows (registerBound ps names) := by
  induction names with
  | nil => exact .pure ()
  | cons name rest ih =>
    unfold registerBound
    split
    next => exact .bind (.throw rfl) fun _ => ih
    next v _ => exact .bind (register_findsRows name v) fun _ => ih

theorem value_findsRows (e : Scalar) : FindsRows (value d ps e) :=
  .bind (registerBound_findsRows ps _) fun _ => .pure _

theorem condition_findsRows (e : Scalar) : FindsRows (condition d ps e) :=
  .bind (registerBound_findsRows ps _) fun _ => .pure _

theorem valueList_findsRows (es : List Scalar) : FindsRows (valueList d ps es) := by
  induction es with
  | nil => exact .pure []
  | cons e rest ih => exact .bind (value_findsRows d ps e) fun _ => .bind ih fun _ => .pure _

theorem conditionLine_findsRows (clause : String) (e : Option Scalar) : FindsRows (conditionLine d ps clause e) := by
  cases e with
  | none => exact .pure []
  | some e => exact .bind (condition_findsRows d ps e) fun _ => .pure _

theorem paging_findsRows (limit offset : Option Scalar) (ordered : Bool) :
    FindsRows (paging d ps limit offset ordered) := by
  unfold paging
  split
  next => exact .pure _
  next => exact .bind (value_findsRows _ ps _) fun _ => .pure _
  next => exact .bind (value_findsRows _ ps _) fun _ => .pure _
  next => exact .bind (value_findsRows _ ps _) fun _ => .bind (value_findsRows _ ps _) fun _ => .pure _
  next => exact .bind (value_findsRows _ ps _) fun _ => .pure _
  next =>
    refine .bind (value_findsRows _ ps _) fun _ => ?_
    split
    next => exact .pure _
    next => exact .bind (value_findsRows _ ps _) fun _ => .pure _

theorem outputColumn_findsRows (p : Projection) : FindsRows (outputColumn d ps p) := by
  refine .bind (value_findsRows d ps p.value) fun _ => ?_
  split
  next =>
    split
    next => exact .pure _
    next => exact .pure _
  next => exact .pure _

theorem outputColumns_findsRows (list : List Projection) : FindsRows (outputColumns d ps list) := by
  induction list with
  | nil => exact .pure []
  | cons p rest ih => exact .bind (outputColumn_findsRows d ps p) fun _ => .bind ih fun _ => .pure _

theorem projection_findsRows (list : List Projection) : FindsRows (projection d ps list) := by
  unfold projection
  split
  next => exact .pure _
  next => exact .bind (outputColumns_findsRows d ps list) fun _ => .pure _

theorem orderItems_findsRows (items : List OrderItem) : FindsRows (orderItems d ps items) := by
  induction items with
  | nil => exact .pure []
  | cons item rest ih => exact .bind (value_findsRows d ps item.key) fun _ => .bind ih fun _ => .pure _

theorem joinCondition_findsRows (kind : JoinKind) (on : Option Scalar) : FindsRows (joinCondition d ps kind on) := by
  unfold joinCondition
  split
  next => exact .pure _
  next => exact .pure _
  next e _ => exact .bind (condition_findsRows d ps e) fun _ => .pure _

/-! ## Literal tables -/

theorem boundCells_findsRows (parameter : String) (row column : Nat) (values : Row) :
    FindsRows (boundCells parameter row column values) := by
  induction values generalizing column with
  | nil => exact .pure []
  | cons v rest ih =>
    have cell : FindsRows (cell (LiteralTable.cellName parameter row column) v) :=
      .bind (register_findsRows _ v) fun _ => .pure _
    exact .bind cell fun _ => .bind (ih (column + 1)) fun _ => .pure _

theorem boundRows_findsRows (parameter : String) (row : Nat) (rows : List Row) :
    FindsRows (boundRows parameter row rows) := by
  induction rows generalizing row with
  | nil => exact .pure []
  | cons r rest ih =>
    exact .bind (boundCells_findsRows parameter row 0 r) fun _ => .bind (ih (row + 1)) fun _ => .pure _

theorem writtenRows_findsRows (rows : List (List Scalar)) : FindsRows (immediateRows d ps rows) := by
  induction rows with
  | nil => exact .pure []
  | cons r rest ih => exact .bind (valueList_findsRows d ps r) fun _ => .bind ih fun _ => .pure _

theorem literalTable_findsRows {v : LiteralTable} (bound : v.Bound) : FindsRows (literalTable d ps v) := by
  have cells : FindsRows (literalCells d ps v) := by
    unfold literalCells
    split
    next rows _ => exact writtenRows_findsRows d ps rows
    next parameter pending => exact absurd pending (bound parameter)
    next parameter count _ =>
      split
      next => exact .throw rfl
      next rows _ => exact boundRows_findsRows parameter 0 _
  refine .bind cells fun _ => ?_
  split
  next => exact .pure _
  next => exact .pure _

/-! ## Selects -/

mutual

theorem select_findsRows {s : Select} (bound : s.Bound) (nested : Bool) : FindsRows (select d ps s nested) := by
  match s with
  | { source := from', joins := joined, predicate, groupBy, having, projection := columns, union, orderBy, limit,
      offset } =>
    obtain ⟨inSource, inJoins, conditions, -, -, -, -, inUnion, -, -, -⟩ := bound
    unfold select
    refine .bind (paging_findsRows d ps limit offset _) fun _ => .bind (projection_findsRows d ps columns) fun _ => ?_
    refine .bind (source_findsRows inSource) fun _ => ?_
    refine .bind (joins_findsRows fun j member => ⟨inJoins j member, conditions j member⟩) fun _ => ?_
    refine .bind (conditionLine_findsRows d ps _ predicate) fun _ => ?_
    refine .bind (valueList_findsRows d ps groupBy) fun _ => .bind (conditionLine_findsRows d ps _ having) fun _ => ?_
    refine .bind (unionLines_findsRows inUnion) fun _ => ?_
    dsimp only
    -- an ordering is left out of a nested select without paging
    split
    next => exact .bind (orderItems_findsRows d ps orderBy) fun _ => .bind (.pure _) fun _ => .pure _
    next => exact .bind (.pure _) fun _ => .pure _
termination_by structural s

theorem source_findsRows {s : Source} (bound : Source.Bound s) : FindsRows (source d ps s) := by
  match s with
  | .table ref => exact .pure _
  | .literal v =>
    cases bound with
    | literal holds => exact literalTable_findsRows d ps holds
  | .subquery inner label =>
    cases bound with
    | subquery _ below => exact .bind (select_findsRows below true) fun _ => .pure _
termination_by structural s

theorem joins_findsRows {js : List (Join Select)} (bound : Join.Bound js) : FindsRows (joins d ps js) := by
  match js with
  | [] => exact .pure []
  | j :: rest =>
    obtain ⟨⟨inSource, -⟩, behind⟩ := List.forall_mem_cons.1 bound
    exact .bind (join_findsRows inSource) fun _ => .bind (joins_findsRows behind) fun _ => .pure _
termination_by structural js

theorem join_findsRows {j : Join Select} (bound : Source.Bound j.source) : FindsRows (join d ps j) := by
  match j with
  | { kind, source := from', on } =>
    exact .bind (source_findsRows bound) fun _ => .bind (joinCondition_findsRows d ps kind on) fun _ => .pure _
termination_by structural j

theorem unionLines_findsRows {s : Option Select} (bound : ∀ u ∈ s, u.Bound) : FindsRows (unionLines d ps s) := by
  match s with
  | none => exact .pure []
  | some other => exact .bind (select_findsRows (bound other rfl) true) fun _ => .pure _
termination_by structural s

end

/-! ## Statements -/

theorem assignments_findsRows (label : Option String) (set : List Projection) :
    FindsRows (assignments d ps label set) := by
  induction set with
  | nil => exact .pure []
  | cons p rest ih => exact .bind (value_findsRows d ps p.value) fun _ => .bind ih fun _ => .pure _

theorem insertInto_findsRows (table : String) (schema : Option String) {rows : Select} (bound : rows.Bound) :
    FindsRows (insertInto d ps table schema rows) :=
  .bind (select_findsRows d ps bound false) fun _ => .pure _

theorem updateSources_findsRows {js : List (Join Select)} (bound : Join.Bound js) (condition : Option Scalar) :
    FindsRows (updateSources ps js condition) := by
  induction js generalizing condition with
  | nil => exact .pure _
  | cons j rest ih =>
    obtain ⟨⟨inSource, -⟩, behind⟩ := List.forall_mem_cons.1 bound
    have here (condition : Option Scalar) := FindsRows.bind (source_findsRows .sqlite ps inSource) fun f =>
      FindsRows.bind (ih behind condition) fun r => FindsRows.pure (f :: r.1, r.2)
    unfold updateSources
    dsimp only
    -- an outer join is refused, and its source is not written
    by_cases outer : j.kind = .leftOuter
    · rw [if_pos outer]
      exact .bind (.throw rfl) fun _ => here _
    · rw [if_neg outer]
      exact here _

theorem sqliteStatement_findsRows {s : Statement} (bound : s.Bound) : FindsRows (sqliteStatement ps s) := by
  cases bound with
  | @delete table predicate joined filter js =>
    cases joined with
    | nil => exact .bind (conditionLine_findsRows _ ps _ predicate) fun _ => .pure _
    | cons j rest =>
      exact .bind (joins_findsRows _ ps js) fun _ => .bind (conditionLine_findsRows _ ps _ predicate) fun _ => .pure _
  | update table values filter js =>
    refine .bind (assignments_findsRows _ ps none _) fun _ => .bind (updateSources_findsRows ps js none) fun _ => ?_
    exact .bind (conditionLine_findsRows _ ps _ _) fun _ => .pure _
  | insertInto table schema rows => exact insertInto_findsRows _ ps table schema rows
  | @upsert _ source inserted updated _ _ rows _ _ =>
    cases source with
    | none =>
      refine .bind (valueList_findsRows _ ps _) fun _ => .bind (.pure _) fun _ => ?_
      cases updated with
      | none => exact .bind (.pure _) fun _ => .pure _
      | some set => exact .bind (assignments_findsRows _ ps none set) fun _ => .bind (.pure _) fun _ => .pure _
    | some s =>
      have bound : (conflictSource s inserted).Bound := (rows s rfl).bound_of_same rfl rfl rfl
      refine .bind (select_findsRows _ ps bound false) fun _ => ?_
      cases updated with
      | none => exact .bind (.pure _) fun _ => .pure _
      | some set => exact .bind (assignments_findsRows _ ps none set) fun _ => .bind (.pure _) fun _ => .pure _
  -- a merge is refused for another reason than a missing row
  | merge => exact .throw rfl
  | truncate table => exact .pure _
  | noop => exact .pure _

theorem matchedLine_findsRows (label : String) (set : Option (List Projection)) :
    FindsRows (matchedLine ps label set) := by
  cases set with
  | none => exact .pure []
  | some set => exact .bind (assignments_findsRows _ ps (some label) set) fun _ => .pure _

theorem insertLine_findsRows (list : Option (List Projection)) : FindsRows (insertLine ps list) := by
  cases list with
  | none => exact .pure []
  | some list => exact .bind (valueList_findsRows _ ps _) fun _ => .pure _

theorem sqlServerStatement_findsRows {s : Statement} (bound : s.Bound) : FindsRows (sqlServerStatement ps s) := by
  cases bound with
  | delete table filter js =>
    exact .bind (joins_findsRows _ ps js) fun _ => .bind (conditionLine_findsRows _ ps _ _) fun _ => .pure _
  | update table values filter js =>
    refine .bind (assignments_findsRows _ ps _ _) fun _ => .bind (joins_findsRows _ ps js) fun _ => ?_
    exact .bind (conditionLine_findsRows _ ps _ _) fun _ => .pure _
  | insertInto table schema rows => exact insertInto_findsRows _ ps table schema rows
  | @upsert table source inserted updated _ _ rows _ _ =>
    have matched := matchedLine_findsRows ps table.label updated
    cases source with
    | none =>
      exact .bind (projection_findsRows _ ps inserted) fun _ => .bind (.pure _) fun _ => .bind matched fun _ => .pure _
    | some s =>
      have bound : ({ s with projection := inserted } : Select).Bound := (rows s rfl).bound_of_same rfl rfl rfl
      refine .bind (select_findsRows _ ps bound true) fun _ => ?_
      exact .bind (.pure _) fun _ => .bind matched fun _ => .pure _
  | merge target deleteUnmatched rows condition updates values =>
    refine .bind (source_findsRows _ ps rows) fun _ => .bind (condition_findsRows _ ps _) fun _ => ?_
    exact .bind (matchedLine_findsRows ps target.label _) fun _ => .bind (insertLine_findsRows ps _) fun _ => .pure _
  | truncate table => exact .pure _
  | noop => exact .pure _

/-- A block whose literal tables are bound is written with its rows, in either dialect. -/
theorem block_findsRows {b : Block} (bound : b.Bound) : FindsRows (block d ps b) := by
  cases bound with
  | select rows => exact select_findsRows d ps rows false
  | affected write =>
    cases d with
    | sqlite => exact sqliteStatement_findsRows ps write
    | sqlServer => exact sqlServerStatement_findsRows ps write

end Writer

theorem Command.ofBlock_bound {b : Block} (bound : b.Bound)
    (d : Dialect) (ps : Parameters) (max : Option Nat) (name : String) :
    Command.ofBlock d b ps max ≠ .error (.unbound name) := by
  intro failed
  rcases bind_eq_error.1 failed with unwritten | ⟨⟨f, used⟩, -, failed⟩
  · cases Writer.block_findsRows d ps bound [] _ unwritten
  · dsimp only at failed
    split at failed
    next => cases failed
    next => cases failed

end Sql

/-! ## Binding -/

namespace Relational

theorem LiteralTable.Resolves.bound {ps : Parameters} {v w : LiteralTable} (h : Resolves ps v w) : w.Bound := by
  cases h with
  | kept settled => exact settled
  | counted => rintro _ ⟨⟩

theorem Plan.bind_bound {plan : Plan} {ps : Parameters} {b : Block} (bound : plan.bind ps = .ok b) : b.Bound :=
  Plan.bind_everywhere plan.root.everywhere_true bound fun _ _ _ resolved =>
    (LiteralTable.resolves_of_resolve resolved).bound

end Relational

/-- Where no collection that feeds a plan is empty, binding gives the plan's root with every pending literal table, at
any depth, resolved to as many rows as its parameter holds, each with a value for every column, and everything else as
it is. It fails only with what is wrong with a parameter that the plan asks for. And no bound block, run in memory or
written in either dialect, ends with the error that some rows are not bound. -/
theorem binding_resolves_tables (plan : Plan) (ps : Parameters) :
    (∀ b, plan.bind ps = .ok b → (∀ feed ∈ plan.feeds, ps.find? feed.parameter ≠ some (.rows [])) →
      plan.root.Replaced (LiteralTable.Resolves ps) b) ∧
    (∀ e, plan.bind ps = .error e → plan.Defect ps e) ∧
    ∀ b, plan.bind ps = .ok b → ∀ (held : Parameters) (name : String),
      (∀ db, (Execution.run db b held).1 ≠ .error (.unbound name)) ∧
      ∀ d max, Sql.Command.ofBlock d b held max ≠ .error (.unbound name) := by
  refine ⟨fun _ bound filled => Plan.replaced_of_bind bound filled, fun _ => Plan.defect_of_bind, ?_⟩
  intro b bound held name
  have bound := Plan.bind_bound bound
  exact ⟨fun db => (Execution.run_bound bound db held).ne_unbound name,
    fun d max => Sql.Command.ofBlock_bound bound d held max name⟩

/-- Insert rows of the client, below a subquery, that are united with one written out, for each of some more. -/
def nestedPlan : Plan where
  root := .affected (.insertInto "Items" none {
    source := .subquery {
      source := .literal ⟨"v", ["Id"], .pending "rows"⟩
      union := some { source := .literal ⟨"w", ["Id"], .immediate [[.constant (.int 3)]]⟩ } } "s"
    joins := [⟨.cross, .literal ⟨"u", ["Key"], .pending "keys"⟩, none⟩]
    projection := [⟨"Id", .column "s" "Id"⟩] })
  feeds := [⟨"rows", .skip⟩]

/-- With two rows and one key, the tables on both levels are resolved; a key with two values is refused. -/
theorem nestedPlan_bound :
    (∃ ps b, nestedPlan.bind ps = .ok b ∧ nestedPlan.root.Replaced (LiteralTable.Resolves ps) b ∧
      b.literalTables = [⟨"v", ["Id"], .resolved "rows" 2⟩, ⟨"w", ["Id"], .immediate [[.constant (.int 3)]]⟩,
        ⟨"u", ["Key"], .resolved "keys" 1⟩] ∧
      ∀ db, (Execution.run db b {}).1 ≠ .error (.unbound "rows")) ∧
    ∃ ps, nestedPlan.bind ps = .error (.rowArity "keys" 0 1 2) ∧ nestedPlan.Defect ps (.rowArity "keys" 0 1 2) := by
  constructor
  · obtain ⟨ps, b, bound, filled, tables⟩ : ∃ ps b, nestedPlan.bind ps = .ok b ∧
        (∀ feed ∈ nestedPlan.feeds, ps.find? feed.parameter ≠ some (.rows [])) ∧
        b.literalTables = [⟨"v", ["Id"], .resolved "rows" 2⟩, ⟨"w", ["Id"], .immediate [[.constant (.int 3)]]⟩,
          ⟨"u", ["Key"], .resolved "keys" 1⟩] :=
      ⟨⟨[("rows", .rows [[.int 1], [.int 2]]), ("keys", .rows [[.int 7]])], by decide⟩, _, rfl, by decide, rfl⟩
    obtain ⟨replaced, -, finds⟩ := binding_resolves_tables nestedPlan ps
    exact ⟨ps, b, bound, replaced b bound filled, tables, fun db => (finds b bound {} "rows").1 db⟩
  · obtain ⟨ps, refused⟩ : ∃ ps, nestedPlan.bind ps = .error (.rowArity "keys" 0 1 2) :=
      ⟨⟨[("rows", .rows [[.int 1]]), ("keys", .rows [[.int 7, .int 8]])], by decide⟩, rfl⟩
    exact ⟨ps, refused, (binding_resolves_tables nestedPlan ps).2.1 _ refused⟩

end Setwise
