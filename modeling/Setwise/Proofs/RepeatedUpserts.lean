import Setwise.Proofs.ConflictKeys

/-!
Upserts without an update, once more.

What a select gives depends on the tables that it names at some depth (`selectRows_congr`), so an upsert whose source
does not name its target has the same incoming rows after it has run. Each of these equals a row that it was stored as,
that was stored before it for an earlier incoming row, or that was there already, as long as no conflict column rounds
its values and no value is missing. The second run therefore writes nothing
(`insert_only_upserts_idempotent`).
-/

set_option autoImplicit false

namespace Setwise

namespace Relational

mutual

def Select.readTables (s : Select) : List String :=
  match s with
  | { source, joins, union, .. } => Source.readTables source ++ Join.readTables joins ++ Select.readTablesOption union

def Source.readTables (s : Source) : List String :=
  match s with
  | .table ref => [ref.name]
  | .literal _ => []
  | .subquery select _ => select.readTables

def Join.readTables (js : List (Join Select)) : List String :=
  match js with
  | [] => []
  | { source, .. } :: rest => Source.readTables source ++ Join.readTables rest

def Select.readTablesOption (s : Option Select) : List String :=
  match s with
  | none => []
  | some select => select.readTables

end

end Relational

namespace Execution

open Client Relational

/-! ## Databases that agree on what is read -/

section

variable {db db' : Database} {env : Environment}

mutual

theorem selectRows_congr {s : Select} (same : ∀ name ∈ s.readTables, db'.find? name = db.find? name) :
    selectRows db' env s = selectRows db env s := by
  match s with
  | { source, joins, predicate, groupBy, having, projection, union, orderBy, limit, offset } =>
    unfold Select.readTables at same
    rw [List.forall_mem_append, List.forall_mem_append] at same
    obtain ⟨⟨first, others⟩, more⟩ := same
    unfold selectRows
    rw [sourceRows_congr first]
    simp only [joinAll_congr others]
    cases union with
    | none => rfl
    | some other =>
      unfold Select.readTablesOption at more
      simp only [selectRows_congr more]

theorem sourceRows_congr {s : Source} (same : ∀ name ∈ Source.readTables s, db'.find? name = db.find? name) :
    sourceRows db' env s = sourceRows db env s := by
  match s with
  | .table ref =>
    unfold Source.readTables at same
    unfold sourceRows Database.get
    rw [same ref.name (List.mem_singleton_self _)]
  | .literal v =>
    unfold sourceRows
    rfl
  | .subquery select label =>
    unfold Source.readTables at same
    unfold sourceRows
    rw [selectRows_congr same]

theorem joinAll_congr {js : List (Join Select)} (same : ∀ name ∈ Join.readTables js, db'.find? name = db.find? name)
    (frames : List Frame) : joinAll db' env js frames = joinAll db env js frames := by
  match js with
  | [] =>
    unfold joinAll
    rfl
  | { kind, source, on } :: rest =>
    unfold Join.readTables at same
    rw [List.forall_mem_append] at same
    obtain ⟨here, behind⟩ := same
    unfold joinAll joinOne
    rw [sourceRows_congr here]
    simp only [joinAll_congr behind]

end

theorem selectFrames_congr {s : Select} (same : ∀ name ∈ s.readTables, db'.find? name = db.find? name) :
    selectFrames db' env s = selectFrames db env s := by
  cases s
  unfold Select.readTables at same
  rw [List.forall_mem_append, List.forall_mem_append] at same
  obtain ⟨⟨first, others⟩, -⟩ := same
  unfold selectFrames
  simp only [sourceRows_congr first, joinAll_congr others]

theorem incomingRows_congr {source : Option Select} {inserted : List Projection}
    (same : ∀ s, source = some s → ∀ name ∈ s.readTables, db'.find? name = db.find? name) :
    incomingRows db' env source inserted = incomingRows db env source inserted := by
  cases source with
  | none => rfl
  | some s =>
    simp only [incomingRows, selectFrames_congr (same s rfl)]

end

/-! ## Second runs -/

/-- An upsert reads other tables than its own, rounds no value of a conflict column, and has values in all of them. -/
structure Repeatable (db : Database) (ps : Parameters) (table : StoredTable) (source : Option Select)
    (inserted : List Projection) (columns : List String) : Prop where
  elsewhere : ∀ s, source = some s → table.name ∉ s.readTables
  exact : ∀ t, db.find? table.name = some t → ∀ c ∈ columns, ∀ i column, t.columnIndex c = .ok i →
    t.columns[i]? = some column → column.type ≠ .real
  present : ∀ rows, incomingRows db { parameters := ps } source inserted = .ok rows → ∀ r ∈ rows, ∀ c ∈ columns,
    columnValue "excluded" (assignedColumns inserted) r c ≠ .ok .null

section

variable {db after : Database} {ps : Parameters} {table : StoredTable} {source : Option Select}
  {inserted : List Projection} {constraint : String} {columns : List String} {outcome : Outcome}

theorem upsert_again (included : columns ⊆ assignedColumns inserted) (distinct : (assignedColumns inserted).Nodup)
    (repeatable : Repeatable db ps table source inserted columns)
    (succeeds : run db (.affected (.upsert table source inserted none constraint columns)) ps = (.ok outcome, after)) :
    ∃ n t u, outcome = .affected n ∧ db.find? table.name = some t ∧ after.find? table.name = some u ∧
      u.rows.length = t.rows.length + n ∧
      run after (.affected (.upsert table source inserted none constraint columns)) ps = (.ok (.affected 0), after) := by
  obtain ⟨n, written, rfl⟩ := run_affected_eq_ok.1 succeeds
  rcases runWrite_leaves db (.upsert table source inserted none constraint columns) ps with
    ⟨e, failed⟩ | ⟨k, none, -⟩ | ⟨k, t, u, target, stored, changed, finished⟩
  · cases (Prod.mk.inj (failed.symm.trans written)).1
  · cases none
  obtain ⟨same, rfl⟩ := Prod.mk.inj (finished.symm.trans written)
  obtain rfl := Except.ok.inj same
  have named : table.name = u.name := Option.some.inj target
  rw [← named] at stored
  obtain ⟨writes, unique⟩ := writeChecked_eq_ok.1 changed
  obtain ⟨rows, positions, incoming, found, inserts⟩ := write_upsert_eq_ok.1 writes
  obtain ⟨laid, ⟨added, grown, count⟩, covered⟩ := upsertAll_inserts ⟨found, included, distinct⟩
    (repeatable.exact t stored) (length_of_incomingRows incoming) (repeatable.present rows incoming) inserts
  have left : (db.put u).find? table.name = some u := named ▸ db.find?_put_self u
  refine ⟨k, t, u, rfl, stored, left, by rw [grown, List.length_append, count], ?_⟩
  -- the second run has the same incoming rows, each of which conflicts with a stored one by now
  have again : incomingRows (db.put u) { parameters := ps } source inserted = .ok rows := by
    rw [← incoming]
    refine incomingRows_congr fun s given name read => Database.find?_put_of_ne ?_ db
    rintro rfl
    exact repeatable.elsewhere s given (named ▸ read)
  have idle : (write (db.put u) { parameters := ps } (.upsert table source inserted none constraint columns)).run u =
      (.ok 0, u) :=
    write_upsert_eq_ok.2 ⟨rows, positions, again, (conflictPositions_laid laid _ _).trans found, upsertAll_idle covered⟩
  rw [run_of_write rfl left idle]
  unfold completion
  rw [unique]
  dsimp only
  rw [Database.put_of_find? left]

end

/-- An upsert that is prepared without an update does nothing when it runs once more, and its first run has inserted as
many rows as it has counted: if its source does not read its table, no conflict column is real, and no incoming row has
NULL in one. -/
theorem insert_only_upserts_idempotent {c : Planner} (honest : c.Honest) {target : String} {source : Option Query}
    {insert : Lambda} {update : Option Lambda} {b : Block} {ps : Parameters}
    (prepared : (c.prepare (.upsert target source insert update)).1 = .ok (b, ps)) {db : Database}
    (repeatable : ∀ table select inserted updated constraint columns,
      b = .affected (.upsert table select inserted updated constraint columns) →
        updated = none ∧ Repeatable db ps table select inserted columns)
    {outcome : Outcome} {after : Database} (succeeds : run db b ps = (.ok outcome, after)) :
    ∃ n, outcome = .affected n ∧ run after b ps = (.ok (.affected 0), after) ∧
      ∀ e t, c.model.entity? target = some e → db.find? e.table = some t →
        ∃ u, after.find? e.table = some u ∧ u.rows.length = t.rows.length + n := by
  obtain ⟨body, e, key, table, inserted, updated, columns, inferred, rfl | ⟨select, rfl⟩⟩ :=
    Planning.upsert_prepared honest prepared
  · -- the collection at the source is empty
    obtain ⟨same, rfl⟩ := Prod.mk.inj succeeds
    obtain rfl := Except.ok.inj same
    exact ⟨0, rfl, rfl, fun e t _ stored => ⟨t, stored, rfl⟩⟩
  · obtain ⟨rfl, upsert⟩ := repeatable _ _ _ _ _ _ rfl
    obtain ⟨n, t, u, rfl, stored, left, grown, again⟩ :=
      upsert_again inferred.included inferred.distinct upsert succeeds
    refine ⟨n, rfl, again, fun e' t' known stored' => ?_⟩
    obtain rfl := Option.some.inj (known.symm.trans inferred.known)
    rw [inferred.mapped.2] at stored left
    obtain rfl := Option.some.inj (stored.symm.trans stored')
    exact ⟨u, left, grown⟩

def repeatedNumbers : List Value :=
  [.bool true, .int 1, .int 3, .int 3]

def storeRepeated : Statement :=
  .upsert ⟨"Items", none, "i"⟩ (some { source := .literal ⟨"v", ["Number"], .resolved "__rows_0" 4⟩ })
    [⟨"Id", .column "v" "Number"⟩] none "PK_Items" ["Id"]

theorem storeRepeated_repeatable {ps : Parameters} (held : ps.rows "__rows_0" = .ok (repeatedNumbers.map ([·])))
    {db : Database} (integers : ∀ t, db.find? "Items" = some t → ∀ c ∈ t.columns, c.type = .integer) {table : StoredTable}
    {source : Option Select} {inserted : List Projection} {updated : Option (List Projection)} {constraint : String}
    {columns : List String} (same : storeRepeated = .upsert table source inserted updated constraint columns) :
    updated = none ∧ Repeatable db ps table source inserted columns := by
  obtain ⟨rfl, rfl, rfl, rfl, -, rfl⟩ := Statement.upsert.inj same
  refine ⟨rfl, ?_, fun t stored c _ i column _ here => not_real_of_integers (integers t stored) here, fun rows incoming => ?_⟩
  · rintro _ ⟨⟩
    decide
  · have taken : incomingRows db { parameters := ps }
        (some { source := .literal ⟨"v", ["Number"], .resolved "__rows_0" 4⟩ }) [⟨"Id", .column "v" "Number"⟩] =
          .ok (repeatedNumbers.map ([·])) := by
      unfold incomingRows selectFrames sourceRows literalRows
      simp only [held]
      rfl
    obtain rfl := Except.ok.inj (taken.symm.trans incoming)
    decide

/-- Two items are stored for the four numbers, and then none. -/
theorem storeNumbers_once :
    ∃ ps after u,
      (Planner.prepare { model := itemModel, capabilities := .inMemory } (storeNumbers repeatedNumbers)).1 =
          .ok (.affected storeRepeated, ps) ∧
        run (.ofTables [largeItems]) (.affected storeRepeated) ps = (.ok (.affected 2), after) ∧
        run after (.affected storeRepeated) ps = (.ok (.affected 0), after) ∧
        after.find? "Items" = some u ∧ u.rows.length = 4 := by
  obtain ⟨ps, prepared, held, succeeds⟩ : ∃ ps,
      (Planner.prepare { model := itemModel, capabilities := .inMemory } (storeNumbers repeatedNumbers)).1 =
          .ok (.affected storeRepeated, ps) ∧
        ps.rows "__rows_0" = .ok (repeatedNumbers.map ([·])) ∧
        (run (.ofTables [largeItems]) (.affected storeRepeated) ps).1 = .ok (.affected 2) := ⟨_, rfl, rfl, rfl⟩
  have integers (t : Table) (stored : (Database.ofTables [largeItems]).find? "Items" = some t) :
      ∀ c ∈ t.columns, c.type = .integer := by
    obtain rfl : largeItems = t := Option.some.inj stored
    decide
  obtain ⟨n, same, again, grown⟩ := insert_only_upserts_idempotent (Planner.honest_of_no_plans rfl) prepared
    (fun _ _ _ _ _ _ same => storeRepeated_repeatable held integers (Block.affected.inj same)) (Prod.ext succeeds rfl)
  obtain rfl := Outcome.affected.inj same
  obtain ⟨u, found, length⟩ := grown itemType largeItems rfl rfl
  exact ⟨ps, _, u, prepared, Prod.ext succeeds rfl, again, found, length⟩

end Execution

end Setwise
