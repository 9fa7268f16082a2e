import Setwise.Proofs.PlannedMutations

/-!
What the expressions and the literal tables of a block have in common.

A predicate on expressions and one on literal tables hold everywhere in a block when they hold at every depth. What
replaces the literal tables leaves the expressions as they are, so that the first predicate still holds, and the second
one turns into what the replacements satisfy (`Block.Everywhere.replace`). Binding a plan is such a replacement
(`Plan.bind_everywhere`).
-/

set_option autoImplicit false

namespace Setwise.Relational

/-! ## Predicates at every depth -/

section

variable (P : Scalar → Prop) (L : LiteralTable → Prop)

mutual

/-- The predicates hold of the expressions and the literal tables of a select, at every depth. -/
inductive Select.Everywhere : Select → Prop
  | intro {s : Select} (source : Source.Everywhere s.source) (joins : ∀ j ∈ s.joins, Source.Everywhere j.source)
      (conditions : ∀ j ∈ s.joins, ∀ e ∈ j.on, P e) (predicate : ∀ e ∈ s.predicate, P e)
      (groupBy : ∀ e ∈ s.groupBy, P e) (having : ∀ e ∈ s.having, P e) (projection : ∀ p ∈ s.projection, P p.value)
      (union : ∀ u ∈ s.union, Select.Everywhere u) (orderBy : ∀ item ∈ s.orderBy, P item.key)
      (limit : ∀ e ∈ s.limit, P e) (offset : ∀ e ∈ s.offset, P e) : Select.Everywhere s

/-- The predicates hold of the expressions and the literal tables of a source, at every depth. -/
inductive Source.Everywhere : Source → Prop
  | table (t : StoredTable) : Source.Everywhere (.table t)
  | literal {v : LiteralTable} (holds : L v) : Source.Everywhere (.literal v)
  | subquery {s : Select} (label : String) (inner : Select.Everywhere s) : Source.Everywhere (.subquery s label)

end

/-- The predicates hold in some joins, conditions included. -/
def Join.Everywhere (js : List (Join Select)) : Prop :=
  ∀ j ∈ js, Source.Everywhere P L j.source ∧ ∀ e ∈ j.on, P e

/-- The predicates hold of the expressions and the literal tables of a statement. -/
inductive Statement.Everywhere : Statement → Prop
  | delete (table : StoredTable) {predicate : Option Scalar} {joins : List (Join Select)}
      (filter : ∀ e ∈ predicate, P e) (joined : Join.Everywhere P L joins) :
      Statement.Everywhere (.delete table predicate joins)
  | update (table : StoredTable) {set : List Projection} {predicate : Option Scalar} {joins : List (Join Select)}
      (values : ∀ p ∈ set, P p.value) (filter : ∀ e ∈ predicate, P e) (joined : Join.Everywhere P L joins) :
      Statement.Everywhere (.update table set predicate joins)
  | insertInto (table : String) (schema : Option String) {rows : Select} (select : Select.Everywhere P L rows) :
      Statement.Everywhere (.insertInto table schema rows)
  | upsert (table : StoredTable) {source : Option Select} {inserted : List Projection}
      {updated : Option (List Projection)} (constraint : String) (conflictColumns : List String)
      (rows : ∀ s ∈ source, Select.Everywhere P L s) (values : ∀ p ∈ inserted, P p.value)
      (updates : ∀ set ∈ updated, ∀ p ∈ set, P p.value) :
      Statement.Everywhere (.upsert table source inserted updated constraint conflictColumns)
  | merge (target : StoredTable) {source : Source} {on : Scalar} {matched inserted : Option (List Projection)}
      (deleteUnmatched : Bool) (rows : Source.Everywhere P L source) (condition : P on)
      (updates : ∀ set ∈ matched, ∀ p ∈ set, P p.value) (values : ∀ set ∈ inserted, ∀ p ∈ set, P p.value) :
      Statement.Everywhere (.merge target source on matched inserted deleteUnmatched)
  | truncate (table : StoredTable) : Statement.Everywhere (.truncate table)
  | noop : Statement.Everywhere .noop

/-- The predicates hold of the expressions and the literal tables of a block. -/
inductive Block.Everywhere : Block → Prop
  | select {s : Select} (rows : Select.Everywhere P L s) : Block.Everywhere (.select s)
  | affected {s : Statement} (write : Statement.Everywhere P L s) : Block.Everywhere (.affected s)

end

/-! ## Predicates that always hold -/

mutual

theorem Select.everywhere_true (s : Select) : s.Everywhere (fun _ => True) fun _ => True := by
  match s with
  | { source, joins, union, .. } =>
    have inJoins := Join.everywhere_true joins
    exact .intro (Source.everywhere_true source) (fun j member => (inJoins j member).1) (by simp) (by simp) (by simp)
      (by simp) (by simp) (Select.everywhere_true_option union) (by simp) (by simp) (by simp)
termination_by structural s

theorem Source.everywhere_true (s : Source) : Source.Everywhere (fun _ => True) (fun _ => True) s := by
  match s with
  | .table ref => exact .table ref
  | .literal v => exact .literal trivial
  | .subquery select label => exact .subquery label (Select.everywhere_true select)
termination_by structural s

theorem Join.everywhere_true (js : List (Join Select)) : Join.Everywhere (fun _ => True) (fun _ => True) js := by
  match js with
  | [] => exact List.forall_mem_nil _
  | j :: rest => exact List.forall_mem_cons.2 ⟨⟨Join.source_everywhere_true j, by simp⟩, Join.everywhere_true rest⟩
termination_by structural js

theorem Join.source_everywhere_true (j : Join Select) : Source.Everywhere (fun _ => True) (fun _ => True) j.source := by
  match j with
  | { source, .. } => exact Source.everywhere_true source
termination_by structural j

theorem Select.everywhere_true_option (s : Option Select) : ∀ u ∈ s, u.Everywhere (fun _ => True) fun _ => True := by
  match s with
  | none => simp
  | some select =>
    rintro _ ⟨⟩
    exact Select.everywhere_true select
termination_by structural s

end

theorem Statement.everywhere_true (s : Statement) : s.Everywhere (fun _ => True) fun _ => True := by
  cases s with
  | delete table predicate joins => exact .delete table (by simp) (Join.everywhere_true joins)
  | update table set predicate joins => exact .update table (by simp) (by simp) (Join.everywhere_true joins)
  | insertInto table schema select => exact .insertInto table schema select.everywhere_true
  | upsert table source inserted updated constraint conflictColumns =>
    exact .upsert table constraint conflictColumns (Select.everywhere_true_option source) (by simp) (by simp)
  | merge target source on matched inserted deleteUnmatched =>
    exact .merge target deleteUnmatched (Source.everywhere_true source) trivial (by simp) (by simp)
  | truncate table => exact .truncate table
  | noop => exact .noop

theorem Block.everywhere_true (b : Block) : b.Everywhere (fun _ => True) fun _ => True := by
  cases b with
  | select s => exact .select s.everywhere_true
  | affected s => exact .affected s.everywhere_true

/-! ## Replacing literal tables -/

section

variable {ε : Type} {P : Scalar → Prop} {L L' : LiteralTable → Prop} {f : LiteralTable → Except ε LiteralTable}

mutual

theorem Select.Everywhere.replace {s t : Select} (h : s.Everywhere P L) (found : s.mapLiteralTables f = .ok t)
    (tables : ∀ v w, L v → f v = .ok w → L' w) : t.Everywhere P L' := by
  match s with
  | { source, joins, predicate, groupBy, having, projection, union, orderBy, limit, offset } =>
    obtain ⟨inSource, inJoins, conditions, filter, keys, groups, values, inUnion, order, limited, skipped⟩ := h
    unfold Select.mapLiteralTables at found
    obtain ⟨source', first, found⟩ := bind_eq_ok.1 found
    obtain ⟨joins', second, found⟩ := bind_eq_ok.1 found
    obtain ⟨union', third, found⟩ := bind_eq_ok.1 found
    obtain rfl := pure_eq_ok.1 found
    have joined : Join.Everywhere P L joins := fun j member => ⟨inJoins j member, conditions j member⟩
    have joined' := Join.Everywhere.replace joined second tables
    exact .intro (Source.Everywhere.replace inSource first tables) (fun j member => (joined' j member).1)
      (fun j member => (joined' j member).2) filter keys groups values
      (Select.Everywhere.replaceOption inUnion third tables) order limited skipped
termination_by structural s

theorem Source.Everywhere.replace {s t : Source} (h : Source.Everywhere P L s)
    (found : Source.mapLiteralTables f s = .ok t) (tables : ∀ v w, L v → f v = .ok w → L' w) :
    Source.Everywhere P L' t := by
  match s with
  | .table ref =>
    obtain rfl := Except.ok.inj found
    exact .table ref
  | .literal v =>
    obtain ⟨w, replaced, found⟩ := bind_eq_ok.1 found
    obtain rfl := pure_eq_ok.1 found
    cases h with
    | literal holds => exact .literal (tables v w holds replaced)
  | .subquery select label =>
    obtain ⟨u, replaced, found⟩ := bind_eq_ok.1 found
    obtain rfl := pure_eq_ok.1 found
    cases h with
    | subquery _ inner => exact .subquery label (Select.Everywhere.replace inner replaced tables)
termination_by structural s

theorem Join.Everywhere.replace {js ks : List (Join Select)} (h : Join.Everywhere P L js)
    (found : Join.mapLiteralTablesAll f js = .ok ks) (tables : ∀ v w, L v → f v = .ok w → L' w) :
    Join.Everywhere P L' ks := by
  match js with
  | [] =>
    obtain rfl := Except.ok.inj found
    exact fun _ h => absurd h List.not_mem_nil
  | j :: rest =>
    obtain ⟨k, here, found⟩ := bind_eq_ok.1 found
    obtain ⟨others, later, found⟩ := bind_eq_ok.1 found
    obtain rfl := pure_eq_ok.1 found
    obtain ⟨⟨inSource, condition⟩, behind⟩ := List.forall_mem_cons.1 h
    exact List.forall_mem_cons.2
      ⟨Join.Everywhere.replaceOne inSource condition here tables, Join.Everywhere.replace behind later tables⟩
termination_by structural js

theorem Join.Everywhere.replaceOne {j k : Join Select} (inSource : Source.Everywhere P L j.source)
    (condition : ∀ e ∈ j.on, P e) (found : Join.mapLiteralTables f j = .ok k)
    (tables : ∀ v w, L v → f v = .ok w → L' w) : Source.Everywhere P L' k.source ∧ ∀ e ∈ k.on, P e := by
  match j with
  | { kind, source, on } =>
    obtain ⟨source', replaced, found⟩ := bind_eq_ok.1 found
    obtain rfl := pure_eq_ok.1 found
    exact ⟨Source.Everywhere.replace inSource replaced tables, condition⟩
termination_by structural j

theorem Select.Everywhere.replaceOption {s t : Option Select} (h : ∀ u ∈ s, u.Everywhere P L)
    (found : Select.mapLiteralTablesOption f s = .ok t) (tables : ∀ v w, L v → f v = .ok w → L' w) :
    ∀ u ∈ t, u.Everywhere P L' := by
  match s with
  | none =>
    obtain rfl := Except.ok.inj found
    simp
  | some select =>
    obtain ⟨u, replaced, found⟩ := bind_eq_ok.1 found
    obtain rfl := pure_eq_ok.1 found
    rintro _ ⟨⟩
    exact Select.Everywhere.replace (h select rfl) replaced tables
termination_by structural s

end

theorem Statement.Everywhere.replace {s t : Statement} (h : s.Everywhere P L) (found : s.mapLiteralTables f = .ok t)
    (tables : ∀ v w, L v → f v = .ok w → L' w) : t.Everywhere P L' := by
  cases h with
  | delete table filter joined =>
    obtain ⟨ks, replaced, found⟩ := bind_eq_ok.1 found
    obtain rfl := pure_eq_ok.1 found
    exact .delete table filter (joined.replace replaced tables)
  | update table values filter joined =>
    obtain ⟨ks, replaced, found⟩ := bind_eq_ok.1 found
    obtain rfl := pure_eq_ok.1 found
    exact .update table values filter (joined.replace replaced tables)
  | insertInto table schema select =>
    obtain ⟨u, replaced, found⟩ := bind_eq_ok.1 found
    obtain rfl := pure_eq_ok.1 found
    exact .insertInto table schema (select.replace replaced tables)
  | upsert table constraint conflictColumns rows values updates =>
    obtain ⟨u, replaced, found⟩ := bind_eq_ok.1 found
    obtain rfl := pure_eq_ok.1 found
    exact .upsert table constraint conflictColumns (Select.Everywhere.replaceOption rows replaced tables) values updates
  | merge target deleteUnmatched rows condition updates values =>
    obtain ⟨u, replaced, found⟩ := bind_eq_ok.1 found
    obtain rfl := pure_eq_ok.1 found
    exact .merge target deleteUnmatched (rows.replace replaced tables) condition updates values
  | truncate table =>
    obtain rfl := Except.ok.inj found
    exact .truncate table
  | noop =>
    obtain rfl := Except.ok.inj found
    exact .noop

/-- Replacing literal tables leaves the expressions of a block as they are. -/
theorem Block.Everywhere.replace {b c : Block} (h : b.Everywhere P L) (found : b.mapLiteralTables f = .ok c)
    (tables : ∀ v w, L v → f v = .ok w → L' w) : c.Everywhere P L' := by
  cases h with
  | select rows =>
    obtain ⟨u, replaced, found⟩ := bind_eq_ok.1 found
    obtain rfl := pure_eq_ok.1 found
    exact .select (rows.replace replaced tables)
  | affected write =>
    obtain ⟨u, replaced, found⟩ := bind_eq_ok.1 found
    obtain rfl := pure_eq_ok.1 found
    exact .affected (write.replace replaced tables)

end

theorem Fallback.everywhere (P : Scalar → Prop) (L : LiteralTable → Prop) (fallback : Fallback) :
    fallback.statement.Everywhere P L := by
  cases fallback with
  | skip => exact .noop
  | truncate table => exact .truncate table

/-- Binding a plan keeps a predicate on its expressions, and has the literal tables with counted rows in the place of
those of the plan. -/
theorem Plan.bind_everywhere {P : Scalar → Prop} {L L' : LiteralTable → Prop} {plan : Plan} {ps : Parameters}
    {b : Block} (h : plan.root.Everywhere P L) (bound : plan.bind ps = .ok b)
    (tables : ∀ v w, L v → v.resolve ps = .ok w → L' w) : b.Everywhere P L' := by
  rcases Plan.bind_cases bound with ⟨feed, -, -, rfl⟩ | counted
  · exact .affected (feed.whenEmpty.everywhere P L')
  · exact h.replace counted tables

end Setwise.Relational
