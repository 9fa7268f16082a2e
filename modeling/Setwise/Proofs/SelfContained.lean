import Setwise.Proofs.Registering

/-!
Commands are self-contained.

The statements of both dialects register what their parts register. So the parameters of a command are the placeholders in
its text (`commands_self_contained`).
-/

set_option autoImplicit false

namespace Setwise

open Relational Sql

namespace Sql

namespace Writer

/-! ## Statements -/

section

variable {d : Dialect} {ps : Parameters} {names names' : List String} {f : Fragment} {fs : List Fragment}

theorem registers_assignments (label : Option String) {set : List Projection}
    (named : ∀ p ∈ set, p.value.NamesPlaceholders) : Registers (assignments d ps label set) (AllCarried d) := by
  induction set with
  | nil => exact registers_pure allCarried_nil
  | cons p rest ih =>
    obtain ⟨first, others⟩ := List.forall_mem_cons.1 named
    refine registers_bind (registers_value first) fun f new carried => ?_
    refine registers_bind (ih others) fun fs more all => registers_pure ?_
    have assigned {column : Fragment} (legible : column.Legible d) (none : ∀ final, column.Uses final) :
        Carried d new (column ++ .word " = " ++ f) :=
      ⟨by simp [none, carried.uses], (legible.separated rfl).append_legible carried.legible⟩
    have column := Fragment.legible_identifier d p.name
    cases label with
    | none => simpa using (assigned column (by simp)).cons all
    | some l =>
      have qualified := ((Fragment.legible_identifier d l).separated (w := ".") rfl).append_legible column
      simpa using (assigned qualified (by simp)).cons all

theorem legible_nameList (d : Dialect) (list : List Projection) : (nameList list).Legible d :=
  Fragment.legible_list (List.forall_mem_map.2 fun p _ => Fragment.legible_identifier d p.name)

theorem legible_excludedColumn (d : Dialect) (name : String) : (excludedColumn name).Legible d :=
  Fragment.legible_value (by simp [Phrase.placeholders])

theorem legible_target (d : Dialect) (t : StoredTable) : ((Fragment.table t).labelled t.label).Legible d :=
  (Fragment.legible_table d t).labelled t.label

theorem registers_insertInto (table : String) (schema : Option String) {rows : Select}
    (tidy : rows.Everywhere Scalar.NamesPlaceholders (LiteralTable.Filled ps)) :
    Registers (insertInto d ps table schema rows) (Carried d) := by
  refine registers_bind (registers_select tidy false) fun f _ carried => registers_pure ⟨by simp [carried.uses], ?_⟩
  have target := ((Fragment.legible_table d ⟨table, schema, ""⟩).behind (w := "INSERT INTO ") rfl).separated
    (w := " ") rfl
  have lead := (target.append (legible_nameList d rows.projection).paren).legible
  exact Fragment.legible_lines (List.forall_mem_cons.2 ⟨lead, List.forall_mem_singleton.2 carried.legible⟩)

theorem legible_deleteAll (d : Dialect) (t : StoredTable) : (deleteAll t).Legible d :=
  (Fragment.legible_table d t).behind rfl

theorem registers_updateSources {js : List (Join Select)} {condition : Option Scalar}
    (tidy : Join.Everywhere Scalar.NamesPlaceholders (LiteralTable.Filled ps) js)
    (named : ∀ e ∈ condition, e.NamesPlaceholders) :
    Registers (updateSources ps js condition) fun new r =>
      AllCarried .sqlite new r.1 ∧ ∀ e ∈ r.2, e.NamesPlaceholders := by
  induction js generalizing condition with
  | nil => exact registers_pure ⟨allCarried_nil, named⟩
  | cons j rest ih =>
    obtain ⟨⟨inSource, on⟩, others⟩ := List.forall_mem_cons.1 tidy
    unfold updateSources
    by_cases outer : j.kind = .leftOuter
    · simp only [outer, if_true]
      exact registers_throw_bind
    · simp only [outer, if_false]
      refine registers_bind (registers_source inSource) fun f _ carried => ?_
      refine registers_bind (ih others ?_) fun r _ later => registers_pure ⟨?_, later.2⟩
      · split
        next c found =>
          rintro _ ⟨⟩
          exact .both named (on c found)
        next => exact named
      · simpa using carried.cons later.1

theorem everywhere_conflictSource {rows : Select} {inserted : List Projection}
    (tidy : rows.Everywhere Scalar.NamesPlaceholders (LiteralTable.Filled ps))
    (values : ∀ p ∈ inserted, p.value.NamesPlaceholders) :
    (conflictSource rows inserted).Everywhere Scalar.NamesPlaceholders (LiteralTable.Filled ps) := by
  obtain ⟨inSource, inJoins, conditions, filters, keys, groups, -, inUnion, order, limited, skipped⟩ := tidy
  refine .intro inSource inJoins conditions ?_ keys groups values inUnion order limited skipped
  rintro _ ⟨⟩
  cases found : rows.predicate with
  | none => exact fun _ h => absurd h List.not_mem_nil
  | some e => exact filters e found

theorem carried_upsert (table : StoredTable) (inserted : List Projection) (conflictColumns : List String)
    {rows action : Fragment} (read : Carried .sqlite names rows) (acts : Carried .sqlite names' action) :
    Carried .sqlite (names ++ names') (Fragment.lines [
      .word "INSERT INTO " ++ (Fragment.table table).labelled table.label ++ .word " " ++ .paren (nameList inserted),
      rows, .word "ON CONFLICT " ++ .paren (.list (conflictColumns.map .identifier)) ++ action]) := by
  refine ⟨fun final => ?_, Fragment.legible_lines ?_⟩
  · simp only [List.append_subset, ← read.uses, ← acts.uses]
    simp
  · have lead := (((legible_target .sqlite table).behind (w := "INSERT INTO ") rfl).separated (w := " ") rfl).append
      (legible_nameList .sqlite inserted).paren
    have columns : ∀ f ∈ conflictColumns.map Fragment.identifier, f.Legible .sqlite :=
      List.forall_mem_map.2 fun c _ => Fragment.legible_identifier _ c
    have conflict := (Fragment.finished_word (d := .sqlite) (w := "ON CONFLICT ") rfl).append
      (Fragment.legible_list columns).paren
    simp only [List.forall_mem_cons]
    exact ⟨lead.legible, read.legible, conflict.append_legible acts.legible, by simp⟩

theorem registers_sqliteDelete (table : StoredTable) {predicate : Option Scalar} {joined : List (Join Select)}
    (filter : ∀ e ∈ predicate, e.NamesPlaceholders) (js : Join.Everywhere Scalar.NamesPlaceholders (LiteralTable.Filled ps) joined) :
    Registers (sqliteStatement ps (.delete table predicate joined)) (Carried .sqlite) := by
  cases joined with
  | nil =>
    refine registers_bind (registers_conditionLine rfl filter) fun filter _ filtered => registers_pure ⟨?_, ?_⟩
    · simp [filtered.uses]
    · exact Fragment.legible_lines
        (List.forall_mem_cons.2 ⟨(legible_target _ table).behind rfl, filtered.legible⟩)
  | cons j rest =>
    -- the rows are selected by their number, because DELETE cannot join
    refine registers_bind (registers_joins js) fun joined _ joins => ?_
    refine registers_bind (registers_conditionLine rfl filter) fun filter _ filtered => registers_pure ⟨?_, ?_⟩
    · simp [joins.uses, filtered.uses]
    · have rows := ((Fragment.legible_identifier .sqlite table.label).behind (w := "SELECT ") rfl).separated
        (w := ".rowid") rfl
      have lead : ∀ f ∈ [Fragment.word "DELETE FROM " ++ .table table, .word "WHERE rowid IN (",
          .word "SELECT " ++ .identifier table.label ++ .word ".rowid",
          .word "FROM " ++ (Fragment.table table).labelled table.label], f.Legible .sqlite := by
        simp only [List.forall_mem_cons]
        exact ⟨(Fragment.legible_table _ table).behind rfl, (Fragment.finished_word rfl).legible, rows.legible,
          (legible_target _ table).behind rfl, by simp⟩
      refine Fragment.legible_lines ?_
      simp only [List.forall_mem_append]
      exact ⟨⟨⟨lead, joins.legible⟩, filtered.legible⟩,
        List.forall_mem_singleton.2 (Fragment.finished_word rfl).legible⟩

theorem registers_sqliteUpdate (table : StoredTable) {set : List Projection} {predicate : Option Scalar}
    {joined : List (Join Select)} (values : ∀ p ∈ set, p.value.NamesPlaceholders)
    (filter : ∀ e ∈ predicate, e.NamesPlaceholders) (js : Join.Everywhere Scalar.NamesPlaceholders (LiteralTable.Filled ps) joined) :
    Registers (sqliteStatement ps (.update table set predicate joined)) (Carried .sqlite) := by
  refine registers_bind (registers_assignments none values) fun set _ assigned => ?_
  refine registers_bind (registers_updateSources js (by simp)) fun r _ read => ?_
  refine registers_bind (registers_conditionLine rfl ?_) fun filter _ filtered => registers_pure ?_
  · split
    next c =>
      rintro _ ⟨⟩
      exact .both read.2 (filter c rfl)
    next => exact read.2
  have from' := allCarried_clause "FROM " rfl read.1
  refine ⟨fun final => ?_, Fragment.legible_lines ?_⟩
  · simp only [List.append_subset, ← assigned.uses, ← from'.uses, ← filtered.uses]
    simp
  · have lead : ∀ f ∈ [Fragment.word "UPDATE " ++ (Fragment.table table).labelled table.label,
        .word "SET " ++ .list set], f.Legible .sqlite :=
      List.forall_mem_cons.2 ⟨(legible_target _ table).behind rfl,
        List.forall_mem_singleton.2 ((Fragment.legible_list assigned.legible).behind rfl)⟩
    simp only [List.forall_mem_append]
    exact ⟨⟨lead, from'.legible⟩, filtered.legible⟩

theorem registers_sqliteUpsert (table : StoredTable) {source : Option Select} {inserted : List Projection}
    {updated : Option (List Projection)} (constraint : String) (conflictColumns : List String)
    (rows : ∀ s ∈ source, s.Everywhere Scalar.NamesPlaceholders (LiteralTable.Filled ps))
    (values : ∀ p ∈ inserted, p.value.NamesPlaceholders)
    (updates : ∀ set ∈ updated, ∀ p ∈ set, p.value.NamesPlaceholders) :
    Registers (sqliteStatement ps (.upsert table source inserted updated constraint conflictColumns))
      (Carried .sqlite) := by
  have row : Registers (valueList .sqlite ps (inserted.map Projection.value)) _ :=
    registers_valueList (List.forall_mem_map.2 values)
  -- a row of values, or a select; and nothing or an assignment on a conflict
  have single {new : List String} {fs : List Fragment} (all : AllCarried .sqlite new fs) :
      Carried .sqlite new (.word "VALUES " ++ .paren (.list fs)) :=
    ⟨by simp [all.uses], ((Fragment.finished_word rfl).append (Fragment.legible_list all.legible).paren).legible⟩
  have nothing : Carried .sqlite [] (.word " DO NOTHING") :=
    carried_legible (Fragment.finished_word rfl).legible (by simp)
  have updating {new : List String} {fs : List Fragment} (all : AllCarried .sqlite new fs) :
      Carried .sqlite new (.word " DO UPDATE SET " ++ .list fs) :=
    ⟨by simp [all.uses], (Fragment.legible_list all.legible).behind rfl⟩
  cases source with
  | none =>
    cases updated with
    | none =>
      refine registers_bind row fun fs _ all => registers_pure ?_
      exact carried_upsert table inserted conflictColumns (single all.1) nothing
    | some set =>
      simp only [sqliteStatement, pure_bind]
      refine registers_bind row fun fs _ all => ?_
      refine registers_bind (registers_assignments none (updates set rfl)) fun set _ assigned => registers_pure ?_
      simpa using carried_upsert table inserted conflictColumns (single all.1) (updating assigned)
  | some select =>
    have read : Registers (Writer.select .sqlite ps (conflictSource select inserted) false) (Carried .sqlite) :=
      registers_select (everywhere_conflictSource (rows select rfl) values) false
    cases updated with
    | none =>
      refine registers_bind read fun f _ carried => registers_pure ?_
      exact carried_upsert table inserted conflictColumns carried nothing
    | some set =>
      simp only [sqliteStatement, pure_bind]
      refine registers_bind read fun f _ carried => ?_
      refine registers_bind (registers_assignments none (updates set rfl)) fun set _ assigned => registers_pure ?_
      simpa using carried_upsert table inserted conflictColumns carried (updating assigned)

theorem registers_sqliteStatement {s : Statement}
    (tidy : s.Everywhere Scalar.NamesPlaceholders (LiteralTable.Filled ps)) :
    Registers (sqliteStatement ps s) (Carried .sqlite) := by
  cases tidy with
  | delete table filter js => exact registers_sqliteDelete table filter js
  | update table values filter js => exact registers_sqliteUpdate table values filter js
  | insertInto table schema select => exact registers_insertInto table schema select
  | upsert table constraint conflictColumns rows values updates =>
    exact registers_sqliteUpsert table constraint conflictColumns rows values updates
  | merge => exact registers_throw
  | truncate table => exact registers_pure (carried_legible (legible_deleteAll _ table) (by simp [deleteAll]))
  | noop => exact registers_pure (carried_legible (Fragment.finished_word rfl).legible (by simp))

theorem registers_matchedLine (label : String) {updated : Option (List Projection)}
    (named : ∀ set ∈ updated, ∀ p ∈ set, p.value.NamesPlaceholders) :
    Registers (matchedLine ps label updated) (AllCarried .sqlServer) := by
  cases updated with
  | none => exact registers_pure allCarried_nil
  | some set =>
    refine registers_bind (registers_assignments (some label) (named set rfl)) fun fs _ all => registers_pure ⟨?_, ?_⟩
    · simp [all.uses]
    · exact List.forall_mem_singleton.2 ((Fragment.legible_list all.legible).behind rfl)

theorem registers_insertLine {inserted : Option (List Projection)}
    (named : ∀ set ∈ inserted, ∀ p ∈ set, p.value.NamesPlaceholders) :
    Registers (insertLine ps inserted) (AllCarried .sqlServer) := by
  cases inserted with
  | none => exact registers_pure allCarried_nil
  | some list =>
    have values : Registers (valueList .sqlServer ps (list.map Projection.value)) _ :=
      registers_valueList (List.forall_mem_map.2 (named list rfl))
    refine registers_bind values fun fs _ all => registers_pure ⟨by simp [all.1.uses], ?_⟩
    have names := (Fragment.finished_word (d := .sqlServer) (w := "WHEN NOT MATCHED BY TARGET THEN INSERT ") rfl).append
      (legible_nameList _ list).paren
    have row := (names.append (Fragment.finished_word (w := " VALUES ") rfl)).append
      (Fragment.legible_list all.1.legible).paren
    exact List.forall_mem_singleton.2 row.legible

theorem legible_conflictFragment (label : String) (columns : List String) :
    (conflictFragment label columns).Legible .sqlServer := by
  refine Fragment.legible_separated rfl (List.forall_mem_map.2 fun c _ => ?_)
  have column := ((Fragment.legible_identifier .sqlServer label).separated (w := ".") rfl).append_legible
    (Fragment.legible_identifier _ c)
  exact (column.separated rfl).append_legible (legible_excludedColumn _ c)

theorem legible_insertedLine (inserted : List Projection) : (insertedLine inserted).Legible .sqlServer := by
  have values : ∀ f ∈ inserted.map (fun p => excludedColumn p.name), f.Legible .sqlServer :=
    List.forall_mem_map.2 fun p _ => legible_excludedColumn _ p.name
  have names := (Fragment.finished_word (d := .sqlServer) (w := "WHEN NOT MATCHED THEN INSERT ") rfl).append
    (legible_nameList _ inserted).paren
  have row := (names.append (Fragment.finished_word (w := " VALUES ") rfl)).append
    (Fragment.legible_list values).paren
  exact (row.append (Fragment.finished_word (w := ";") rfl)).legible

theorem carried_mergedUpsert (table : StoredTable) (inserted : List Projection) (conflictColumns : List String)
    {rows : Fragment} {matched : List Fragment} (read : Carried .sqlServer names rows)
    (updates : AllCarried .sqlServer names' matched) :
    Carried .sqlServer (names ++ names') (mergedUpsert table inserted conflictColumns rows matched) := by
  refine ⟨fun final => ?_, Fragment.legible_lines ?_⟩
  · simp only [List.append_subset, ← read.uses, ← updates.uses]
    simp [mergedUpsert, conflictFragment, insertedLine]
  · simp only [List.forall_mem_append, List.forall_mem_cons]
    exact ⟨⟨⟨(legible_target _ table).behind rfl, (read.legible.labelled _).behind rfl,
      (legible_conflictFragment _ _).behind rfl, by simp⟩, updates.legible⟩, legible_insertedLine inserted, by simp⟩

theorem registers_sqlServerUpsert (table : StoredTable) {source : Option Select} {inserted : List Projection}
    {updated : Option (List Projection)} (constraint : String) (conflictColumns : List String)
    (rows : ∀ s ∈ source, s.Everywhere Scalar.NamesPlaceholders (LiteralTable.Filled ps))
    (values : ∀ p ∈ inserted, p.value.NamesPlaceholders)
    (updates : ∀ set ∈ updated, ∀ p ∈ set, p.value.NamesPlaceholders) :
    Registers (sqlServerStatement ps (.upsert table source inserted updated constraint conflictColumns))
      (Carried .sqlServer) := by
  cases source with
  | none =>
    simp only [sqlServerStatement, pure_bind]
    refine registers_bind (registers_projection values) fun f new carried => ?_
    have row : Carried .sqlServer new (.paren (.word "SELECT " ++ f)) :=
      ⟨by simp [carried.uses], (carried.legible.behind rfl).paren.legible⟩
    refine registers_bind (registers_matchedLine table.label updates) fun matched _ all => registers_pure ?_
    rw [List.append_nil]
    exact carried_mergedUpsert table inserted conflictColumns row all
  | some select =>
    have assigned : ({ select with projection := inserted } : Select).Everywhere Scalar.NamesPlaceholders
        (LiteralTable.Filled ps) := by
      obtain ⟨inSource, inJoins, conditions, filters, keys, groups, -, inUnion, order, limited, skipped⟩ :=
        rows select rfl
      exact .intro inSource inJoins conditions filters keys groups values inUnion order limited skipped
    simp only [sqlServerStatement, pure_bind]
    refine registers_bind (registers_select assigned true) fun f new carried => ?_
    have read : Carried .sqlServer new (.word "(\n" ++ f ++ .word "\n)") :=
      ⟨by simp [carried.uses], ((carried.legible.behind rfl).separated rfl).legible⟩
    refine registers_bind (registers_matchedLine table.label updates) fun matched _ all => registers_pure ?_
    rw [List.append_nil]
    exact carried_mergedUpsert table inserted conflictColumns read all

theorem registers_sqlServerMerge (target : StoredTable) {source : Source} {on : Scalar}
    {matched inserted : Option (List Projection)} (deleteUnmatched : Bool)
    (rows : Source.Everywhere Scalar.NamesPlaceholders (LiteralTable.Filled ps) source) (condition : on.NamesPlaceholders)
    (updates : ∀ set ∈ matched, ∀ p ∈ set, p.value.NamesPlaceholders)
    (values : ∀ set ∈ inserted, ∀ p ∈ set, p.value.NamesPlaceholders) :
    Registers (sqlServerStatement ps (.merge target source on matched inserted deleteUnmatched))
      (Carried .sqlServer) := by
  refine registers_bind (registers_source rows) fun from' _ read => ?_
  refine registers_bind (registers_condition condition) fun on _ matches' => ?_
  refine registers_bind (registers_matchedLine target.label updates) fun matched _ updated => ?_
  refine registers_bind (registers_insertLine values) fun inserted _ row => registers_pure ⟨fun final => ?_, ?_⟩
  · split <;> simp [read.uses, matches'.uses, updated.uses, row.uses]
  · have deleted : ∀ f ∈ (if deleteUnmatched = true then [Fragment.word "WHEN NOT MATCHED BY SOURCE THEN DELETE"]
        else []), f.Legible .sqlServer := by
      split
      · exact List.forall_mem_singleton.2 (Fragment.finished_word rfl).legible
      · simp
    refine ((Fragment.legible_lines ?_).separated rfl).legible
    simp only [List.forall_mem_append, List.forall_mem_cons]
    exact ⟨⟨⟨⟨(legible_target _ target).behind rfl, read.legible.behind rfl, matches'.legible.behind rfl, by simp⟩,
      updated.legible⟩, row.legible⟩, deleted⟩

theorem registers_sqlServerStatement {s : Statement}
    (tidy : s.Everywhere Scalar.NamesPlaceholders (LiteralTable.Filled ps)) :
    Registers (sqlServerStatement ps s) (Carried .sqlServer) := by
  cases tidy with
  | @delete table predicate joined filter js =>
    refine registers_bind (registers_joins js) fun joined _ joins => ?_
    refine registers_bind (registers_conditionLine rfl filter) fun filter _ filtered => registers_pure ⟨?_, ?_⟩
    · simp [joins.uses, filtered.uses]
    · have target := Fragment.legible_identifier .sqlServer table.label
      refine Fragment.legible_lines ?_
      simp only [List.forall_mem_append, List.forall_mem_cons]
      exact ⟨⟨⟨target.behind rfl, (legible_target _ table).behind rfl, by simp⟩, joins.legible⟩, filtered.legible⟩
  | @update table set predicate joined values filter js =>
    refine registers_bind (registers_assignments (some table.label) values) fun set _ assigned => ?_
    refine registers_bind (registers_joins js) fun joined _ joins => ?_
    refine registers_bind (registers_conditionLine rfl filter) fun filter _ filtered => registers_pure ⟨?_, ?_⟩
    · simp [assigned.uses, joins.uses, filtered.uses]
    · have target := Fragment.legible_identifier .sqlServer table.label
      refine Fragment.legible_lines ?_
      simp only [List.forall_mem_append, List.forall_mem_cons]
      exact ⟨⟨⟨target.behind rfl, (Fragment.legible_list assigned.legible).behind rfl,
        (legible_target _ table).behind rfl, by simp⟩, joins.legible⟩, filtered.legible⟩
  | insertInto table schema select => exact registers_insertInto table schema select
  | upsert table constraint conflictColumns rows values updates =>
    exact registers_sqlServerUpsert table constraint conflictColumns rows values updates
  | merge target deleteUnmatched rows condition updates values =>
    exact registers_sqlServerMerge target deleteUnmatched rows condition updates values
  | truncate table => exact registers_pure (carried_legible (legible_deleteAll _ table) (by simp [deleteAll]))
  | noop => exact registers_pure (carried_legible (Fragment.finished_word rfl).legible (by simp))

theorem registers_block {b : Block} (tidy : b.Everywhere Scalar.NamesPlaceholders (LiteralTable.Filled ps)) :
    Registers (block d ps b) (Carried d) := by
  cases tidy with
  | select rows => exact registers_select rows false
  | affected write =>
    cases d with
    | sqlite => exact registers_sqliteStatement write
    | sqlServer => exact registers_sqlServerStatement write

end

end Writer

/-! ## Commands -/

/-- The parameters of a command are the placeholders in its text, each once, and no more than the limit allows. -/
theorem commands_self_contained (d : Dialect) {plan : Plan} {ps : Parameters} {b : Block} {max : Option Nat}
    {cmd : Command} (tidy : plan.root.Everywhere Scalar.NamesPlaceholders LiteralTable.Regular)
    (bound : plan.bind ps = .ok b) (made : Command.ofBlock d b ps max = .ok cmd) :
    (cmd.parameters.map Prod.fst).Nodup ∧
      (∀ name, name ∈ d.placeholdersIn cmd.sql.toList ↔ name ∈ cmd.parameters.map Prod.fst) ∧
      (d.placeholdersIn cmd.sql.toList).dedup.length ≤ max.getD d.maxParameters := by
  have filled : b.Everywhere Scalar.NamesPlaceholders (LiteralTable.Filled ps) :=
    Plan.bind_everywhere tidy bound fun _ _ regular => regular.resolve
  obtain ⟨⟨f, used⟩, run, made⟩ := bind_eq_ok.1 made
  dsimp only at made
  split at made
  next =>
    obtain ⟨_, refused, -⟩ := bind_eq_ok.1 made
    cases refused
  next within =>
    obtain rfl := pure_eq_ok.1 made
    obtain ⟨distinct, new, names, carried⟩ := Writer.registers_block filled [] f used run
    have distinct := distinct List.nodup_nil
    have read : d.placeholdersIn (f.text d).toList = f.placeholders := by
      simpa [placeholdersIn_nil] using carried.legible [] apart_nil
    -- what was registered is what the text uses, no more and no less
    have same (name : String) : name ∈ f.placeholders ↔ name ∈ used.map Prod.fst := by
      have inNew : name ∈ f.placeholders ↔ name ∈ new :=
        ⟨fun member => (carried.uses new).2 (List.Subset.refl _) name member,
          fun member => (carried.uses f.placeholders).1 (fun _ => id) member⟩
      simpa [inNew] using (names name).symm
    refine ⟨distinct, fun name => by rw [read, same], ?_⟩
    calc (d.placeholdersIn (f.text d).toList).dedup.length
        = f.placeholders.dedup.length := by rw [read]
      _ ≤ (used.map Prod.fst).length :=
        ((List.nodup_dedup _).subperm fun name member => (same name).1 (List.mem_dedup.1 member)).length_le
      _ = used.length := List.length_map _
      _ ≤ max.getD d.maxParameters := Nat.le_of_not_lt within

/-- Insert the records of the client below a limit, each with a text that looks like a placeholder. -/
def importPlan : Plan where
  root := .affected (.insertInto "Items" none {
    source := .literal ⟨"v", ["Id"], .pending "__rows_0"⟩
    predicate := some (.binary (.column "v" "Id") .less (.parameter "__limit_1"))
    projection := [⟨"Id", .column "v" "Id"⟩, ⟨"Name", .constant (.text "@none")⟩] })

theorem importPlan_tidy : importPlan.root.Everywhere Scalar.NamesPlaceholders LiteralTable.Regular := by
  have plain (e : Scalar) (none : e.parameters = []) : e.NamesPlaceholders := by simp [Scalar.NamesPlaceholders, none]
  have named : (Scalar.binary (.column "v" "Id") .less (.parameter "__limit_1")).NamesPlaceholders :=
    List.forall_mem_singleton.2 (by decide)
  refine .affected (.insertInto _ _ (.intro (.literal (.pending _ _ (by decide))) ?_ ?_ ?_ ?_ ?_ ?_ ?_ ?_ ?_ ?_))
  all_goals simp
  · exact named
  · exact ⟨plain _ rfl, plain _ rfl⟩

/-- The command for two records has one placeholder for each of them and one for the limit. -/
theorem importPlan_self_contained :
    ∃ ps b cmd, importPlan.bind ps = .ok b ∧ Command.ofBlock .sqlServer b ps none = .ok cmd ∧
      cmd.parameters = [("__rows_0_0_0", .int 1), ("__rows_0_1_0", .int 2), ("__limit_1", .int 5)] ∧
      ∀ name, name ∈ Dialect.sqlServer.placeholdersIn cmd.sql.toList ↔
        name ∈ ["__rows_0_0_0", "__rows_0_1_0", "__limit_1"] := by
  obtain ⟨ps, b, cmd, bound, made, parameters⟩ : ∃ ps b cmd, importPlan.bind ps = .ok b ∧
      Command.ofBlock .sqlServer b ps none = .ok cmd ∧
      cmd.parameters = [("__rows_0_0_0", .int 1), ("__rows_0_1_0", .int 2), ("__limit_1", .int 5)] :=
    ⟨⟨[("__rows_0", .rows [[.int 1], [.int 2]]), ("__limit_1", .scalar (.int 5))], by decide⟩, _, _, rfl, rfl, rfl⟩
  obtain ⟨-, placeholders, -⟩ := commands_self_contained .sqlServer importPlan_tidy bound made
  refine ⟨ps, b, cmd, bound, made, parameters, fun name => ?_⟩
  rw [placeholders name, parameters]
  rfl

end Sql

end Setwise
