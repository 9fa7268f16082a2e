import Setwise.Proofs.Atomicity
import Setwise.Proofs.Feeding

/-!
What takes the place of a statement without rows.

Binding replaces a statement as soon as a collection that feeds it has no rows. A source that draws on such a
collection has no rows either (`sourceRows_empty`), whence the statement finds nothing to write; a merge that
deletes what has no match deletes everything. Where the statement itself would succeed, its replacement does
the same (`fallbacks_mean_statements`).
-/

set_option autoImplicit false

namespace Setwise

theorem Table.remove_all (t : Table) : t.remove (List.range' 0 t.rows.length) = { t with rows := [] } := by
  have below : ∀ r i, (r, i) ∈ t.rows.zipIdx → i < t.rows.length :=
    fun r i member => by simpa using List.snd_lt_add_of_mem_zipIdx member
  simpa [remove] using below

namespace Execution

open Client Relational Planning

variable {db : Database} {env : Environment} {parameter : String}

/-! ## Sources without rows -/

theorem frames_of_outputOf {ps : List Projection} {columns : List String} {output : Output}
    (h : outputOf env ps columns [] = .ok output) : output.rows = [] := by
  unfold outputOf at h
  split at h <;> obtain rfl := Except.ok.inj h <;> rfl

theorem joinAll_empty {js : List (Join Select)} {j : Join Select} {frames found : List Frame}
    {columns : List String} (member : j ∈ js) (kind : j.kind ≠ .leftOuter)
    (none : ∀ rs, sourceRows db env j.source = .ok rs → rs.rows = [])
    (h : joinAll db env js frames = .ok (found, columns)) : found = [] := by
  obtain ⟨before, after, rfl⟩ := List.append_of_mem member
  refine List.eq_nil_iff_forall_not_mem.2 fun g inside => ?_
  obtain ⟨rs, f, extension, rest, middle, seen, rows, -, -, extended, -, -⟩ := joinAll_split h inside
  rcases mem_extensions.1 extended with ⟨r, present, -⟩ | ⟨outer, -⟩
  · rw [none rs rows] at present
    cases present
  · exact kind outer

theorem joinAll_no_frames {js : List (Join Select)} {found : List Frame} {columns : List String}
    (h : joinAll db env js [] = .ok (found, columns)) : found = [] := by
  refine List.eq_nil_iff_forall_not_mem.2 fun g inside => ?_
  obtain ⟨f, member, -⟩ := joinAll_mem h inside
  cases member

theorem selectRows_empty {s : Select} {output : Output} (union : s.union = none)
    (none : ∀ frames, joinedFrames db env s = .ok frames → frames = [])
    (h : selectRows db env s = .ok output) : output.rows = [] := by
  obtain ⟨frames, columns, delivered, made⟩ := selectRows_eq_ok union h
  obtain ⟨all, joined, subset⟩ := deliveredFrames_eq_ok delivered
  obtain rfl := none all joined
  obtain rfl : frames = [] := List.eq_nil_iff_forall_not_mem.2 fun f member =>
    List.not_mem_nil (subset f member)
  exact frames_of_outputOf made

/-- A source that draws on a collection without rows has none. -/
theorem sourceRows_empty {source : Source} (drawn : DrawsOn parameter source)
    (empty : env.parameters.rows parameter = .ok []) {rs : RowSet} (h : sourceRows db env source = .ok rs) :
    rs.rows = [] := by
  induction drawn generalizing rs with
  | pending rows =>
    unfold sourceRows literalRows at h
    rw [rows] at h
    cases h
  | resolved rows =>
    unfold sourceRows literalRows at h
    rw [rows] at h
    simp only [empty] at h
    obtain rfl := Except.ok.inj h
    exact List.take_nil
  | first union source ih =>
    obtain ⟨output, selected, rfl⟩ := sourceRows_subquery h
    refine selectRows_empty union (fun frames joined => ?_) selected
    obtain ⟨first, columns, rows, joined⟩ := joinedFrames_eq_ok.1 joined
    rw [ih rows] at joined
    exact joinAll_no_frames joined
  | joined union member kind source ih =>
    obtain ⟨output, selected, rfl⟩ := sourceRows_subquery h
    refine selectRows_empty union (fun frames joined => ?_) selected
    obtain ⟨first, columns, rows, joined⟩ := joinedFrames_eq_ok.1 joined
    exact joinAll_empty member kind (fun _ => ih) joined

theorem joinedFrames_empty {s : Select} {frames : List Frame} (fed : s.FedBy parameter)
    (empty : env.parameters.rows parameter = .ok []) (h : joinedFrames db env s = .ok frames) :
    frames = [] := by
  obtain ⟨first, columns, rows, joined⟩ := joinedFrames_eq_ok.1 h
  rcases fed with drawn | ⟨j, member, kind, drawn⟩
  · rw [sourceRows_empty drawn empty rows] at joined
    exact joinAll_no_frames joined
  · exact joinAll_empty member kind (fun _ => sourceRows_empty drawn empty) joined

/-! ## Statements without rows -/

theorem satisfyingFrom_empty {rs : RowSet} {joins : List (Join Select)} {predicate : Option Scalar}
    (fed : FedByJoin parameter joins) (empty : env.parameters.rows parameter = .ok []) {position : Nat}
    {rows : List Row} {found : List (Nat × Frame)}
    (h : satisfyingFrom db env rs joins predicate position rows = .ok found) : found = [] := by
  induction rows generalizing position found with
  | nil => exact (Except.ok.inj h).symm
  | cons r rest ih =>
    obtain ⟨⟨frames, columns⟩, joined, h⟩ := bind_eq_ok.1 h
    obtain ⟨first, here, h⟩ := bind_eq_ok.1 h
    obtain ⟨others, later, h⟩ := bind_eq_ok.1 h
    obtain ⟨j, member, kind, drawn⟩ := fed
    obtain rfl := joinAll_empty member kind (fun _ => sourceRows_empty drawn empty) joined
    obtain rfl := Except.ok.inj here
    rw [← pure_eq_ok.1 h]
    exact ih later

theorem mergeChanges_unmatched {target source : RowSet} (none : source.rows = []) {on : Scalar}
    {set : Option (List Projection)} {delete : Bool} {position : Nat} {rows : List Row} {changes : MergeChanges}
    (h : mergeChanges env target source on set delete position rows = .ok changes) :
    changes = { deletes := if delete then List.range' position rows.length else [] } := by
  induction rows generalizing position changes with
  | nil =>
    obtain rfl := Except.ok.inj h
    cases delete <;> rfl
  | cons row rest ih =>
    unfold mergeChanges at h
    rw [none] at h
    obtain ⟨found, here, h⟩ := bind_eq_ok.1 h
    obtain rfl := Except.ok.inj here
    obtain ⟨update, unmatched, h⟩ := bind_eq_ok.1 h
    obtain rfl : [] = update := pure_eq_ok.1 unmatched
    obtain ⟨others, later, h⟩ := bind_eq_ok.1 h
    obtain rfl := ih later
    obtain rfl := pure_eq_ok.1 h
    cases delete <;> simp [List.range'_succ]

theorem merge_empty {target : StoredTable} {source : Source} {on : Scalar}
    {matched inserted : Option (List Projection)} {delete : Bool} (drawn : DrawsOn parameter source)
    (empty : env.parameters.rows parameter = .ok []) {n : Nat} {t u : Table}
    (h : (merge db env target source on matched inserted delete).run t = (.ok n, u)) :
    n = (if delete then t.rows.length else 0) ∧ u = if delete then { t with rows := [] } else t := by
  obtain ⟨_, _, stored, h⟩ := Write.bind_eq_ok.1 h
  obtain ⟨rfl, rfl⟩ := Write.get_eq_ok.1 stored
  obtain ⟨rs, _, read, h⟩ := Write.bind_eq_ok.1 h
  obtain ⟨rows, rfl⟩ := Write.ofResult_eq_ok.1 read
  have none := sourceRows_empty drawn empty rows
  obtain ⟨changes, _, compared, h⟩ := Write.bind_eq_ok.1 h
  obtain ⟨changed, rfl⟩ := Write.ofResult_eq_ok.1 compared
  -- no row of the target has a partner, and there is none to insert
  obtain rfl := mergeChanges_unmatched none changed
  obtain ⟨inserts, _, left, h⟩ := Write.bind_eq_ok.1 h
  obtain ⟨inserting, rfl⟩ := Write.ofResult_eq_ok.1 left
  obtain rfl : inserts = [] := by
    rw [none] at inserting
    cases inserted <;> exact (Except.ok.inj inserting).symm
  obtain ⟨_, _, assigned, h⟩ := Write.bind_eq_ok.1 h
  obtain ⟨-, rfl⟩ := Write.pure_eq_ok.1 assigned
  obtain ⟨_, _, removed, h⟩ := Write.bind_eq_ok.1 h
  obtain rfl := Write.modify_eq_ok.1 removed
  obtain ⟨_, _, added, h⟩ := Write.bind_eq_ok.1 h
  obtain ⟨-, rfl⟩ := Write.pure_eq_ok.1 added
  obtain ⟨rfl, rfl⟩ := Write.pure_eq_ok.1 h
  cases delete
  · exact ⟨rfl, Table.remove_none _⟩
  · exact ⟨by simp [RowSet.ofTable], Table.remove_all _⟩

theorem write_emptied {s : Statement} {f : Fallback} (h : s.EmptiedBy parameter f)
    (empty : env.parameters.rows parameter = .ok []) {n : Nat} {t u : Table}
    (run : (write db env s).run t = (.ok n, u)) : (write db env f.statement).run t = (.ok n, u) := by
  cases h with
  | update joined =>
    obtain ⟨found, _, first, run⟩ := Write.bind_eq_ok.1 run
    obtain ⟨satisfying, rfl⟩ := Write.ofResult_eq_ok.1 first
    obtain ⟨before, -, satisfying⟩ := bind_eq_ok.1 satisfying
    obtain rfl := satisfyingFrom_empty joined empty satisfying
    exact run
  | insertInto union fed =>
    obtain ⟨output, _, read, run⟩ := Write.bind_eq_ok.1 run
    obtain ⟨rows, rfl⟩ := Write.ofResult_eq_ok.1 read
    rw [selectRows_empty union (fun _ => joinedFrames_empty fed empty) rows] at run
    exact run
  | upsert fed =>
    obtain ⟨incoming, _, read, run⟩ := Write.bind_eq_ok.1 run
    obtain ⟨rows, rfl⟩ := Write.ofResult_eq_ok.1 read
    -- no frame is selected, so no row comes in, and nothing is looked for among the conflicts
    obtain ⟨frames, selected, projected⟩ := bind_eq_ok.1 rows
    obtain ⟨all, joined, restricted⟩ := selectFrames_eq_ok.1 selected
    obtain rfl := joinedFrames_empty fed empty joined
    obtain rfl : frames = [] := List.eq_nil_iff_forall_not_mem.2 fun f member =>
      List.not_mem_nil (mem_of_restrict restricted member)
    obtain rfl := Except.ok.inj projected
    obtain ⟨_, _, found, run⟩ := Write.bind_eq_ok.1 run
    obtain ⟨-, rfl⟩ := Write.get_eq_ok.1 found
    obtain ⟨positions, _, known, run⟩ := Write.bind_eq_ok.1 run
    obtain ⟨-, rfl⟩ := Write.ofResult_eq_ok.1 known
    exact run
  | @merge target _ _ _ _ delete drawn =>
    obtain ⟨rfl, rfl⟩ := merge_empty drawn empty run
    cases delete <;> rfl

theorem emptiedBy_target {s : Statement} {f : Fallback} (h : s.EmptiedBy parameter f) :
    f = .skip ∨ ∃ table, f = .truncate table ∧ targetTable? s = some table.name := by
  cases h with
  | update | insertInto | upsert => exact .inl rfl
  | @merge target _ _ _ _ delete drawn =>
    cases delete
    · exact .inl rfl
    · exact .inr ⟨target, rfl, rfl⟩

theorem runWrite_emptied {ps : Parameters} {s : Statement} {f : Fallback} (h : s.EmptiedBy parameter f)
    (empty : ps.rows parameter = .ok []) {n : Nat} {after : Database}
    (run : runWrite db s ps = (.ok n, after)) : runWrite db f.statement ps = (.ok n, after) := by
  rcases runWrite_leaves db s ps with ⟨e, failed⟩ | ⟨k, none, -⟩ | ⟨k, before, t, named, found, written, finished⟩
  · rw [failed] at run
    cases (Prod.mk.inj run).1
  · cases h <;> cases none
  · rw [finished] at run
    obtain ⟨count, rfl⟩ := Prod.mk.inj run
    obtain rfl := Except.ok.inj count
    obtain ⟨written, unique⟩ := writeChecked_eq_ok.1 written
    have same := write_emptied h empty written
    rcases emptiedBy_target h with rfl | ⟨table, rfl, own⟩
    · obtain ⟨rfl, rfl⟩ := Write.pure_eq_ok.1 same
      rw [Database.put_of_find? found]
      rfl
    · have own : table.name = t.name := Option.some.inj (own.symm.trans named)
      have stored : db.get table.name = .ok before := Database.get_eq_ok.2 (own ▸ found)
      have checked := writeChecked_eq_ok.2 ⟨same, unique⟩
      unfold runWrite
      simp only [Fallback.statement, targetTable?, stored] at checked ⊢
      rw [checked]

/-- Where a collection that feeds a plan has no rows, binding replaces the statement, and the replacement does
what the statement itself would do with its rows counted, if that succeeds: it reports the same number of rows
and leaves the same database. -/
theorem fallbacks_mean_statements {c : Planner} (honest : c.Honest) {m : Mutation} {plan : Plan}
    {kept ps : Parameters} (planned : (c.plan m).1 = .ok (plan, kept)) {feed : Feed}
    (member : feed ∈ plan.feeds) (empty : ps.rows feed.parameter = .ok []) {b : Block}
    (counted : plan.root.mapLiteralTables (LiteralTable.resolve ps) = .ok b) {db after : Database}
    {outcome : Outcome} (succeeds : run db b ps = (.ok outcome, after)) :
    let fallback := Block.affected feed.whenEmpty.statement
    plan.bind ps = .ok fallback ∧ run db fallback ps = (.ok outcome, after) := by
  obtain ⟨form, -, made⟩ := (honest.plan m).2 plan kept planned
  obtain ⟨folded, raw, w, -, run, rfl⟩ := planOf_eq_ok made
  rcases feeds_empty run with none | ⟨only, s, feeds, root, empties⟩
  · rw [none] at member
    cases member
  · rw [feeds] at member
    obtain rfl := List.mem_singleton.1 member
    rw [root] at counted
    obtain ⟨t, resolved, same⟩ := bind_eq_ok.1 counted
    obtain rfl := pure_eq_ok.1 same
    refine ⟨by simp [Plan.bind, feeds, emptyStatement?, empty, bind, Except.bind, pure, Except.pure], ?_⟩
    obtain ⟨affected, stored⟩ := Prod.mk.inj succeeds
    obtain ⟨n, written, rfl⟩ := map_eq_ok.1 affected
    have emptied := runWrite_emptied (empties.prune.resolve resolved) empty (Prod.ext written stored)
    simp only [Execution.run, emptied, Except.map]

def itemModel : Model where
  entities := [
    { name := "Item"
      table := "Items"
      properties := [⟨"Id", "Id", .integer, false, false⟩, ⟨"Value", "Value", .integer, true, false⟩]
      keys := [⟨"PK_Items", ["Id"], true⟩] }]

def mergeNothing : Mutation :=
  .merge "Item" (.rows (.records ["Number"] [])) ⟨["i"], .member (.param "i") "Id"⟩
    ⟨["r"], .member (.param "r") "Number"⟩ none
    (some ⟨["r"], .new (some "Item") [] [.assign "Id" (.member (.param "r") "Number")]⟩) true

/-- Merging nothing deletes both items, and so does what replaces the merge. -/
theorem mergeNothing_truncates :
    ∃ plan ps b, (Planner.plan { model := itemModel, capabilities := .inMemory } mergeNothing).1 = .ok (plan, ps) ∧
      plan.root.mapLiteralTables (LiteralTable.resolve ps) = .ok b ∧
      (run twoItems b ps).1 = .ok (.affected 2) ∧
      plan.bind ps = .ok (.affected (.truncate ⟨"Items", none, "i"⟩)) ∧
      run twoItems (.affected (.truncate ⟨"Items", none, "i"⟩)) ps = run twoItems b ps := by
  obtain ⟨plan, ps, b, planned, member, empty, counted, succeeds⟩ :
      ∃ plan ps b, (Planner.plan { model := itemModel, capabilities := .inMemory } mergeNothing).1 =
          .ok (plan, ps) ∧
        ⟨"__rows_0", .truncate ⟨"Items", none, "i"⟩⟩ ∈ plan.feeds ∧ ps.rows "__rows_0" = .ok [] ∧
        plan.root.mapLiteralTables (LiteralTable.resolve ps) = .ok b ∧
        (run twoItems b ps).1 = .ok (.affected 2) :=
    ⟨_, _, _, rfl, List.mem_singleton_self _, rfl, rfl, rfl⟩
  obtain ⟨bound, same⟩ := fallbacks_mean_statements (Planner.honest_of_no_plans rfl) planned member empty counted
    (Prod.ext succeeds rfl)
  exact ⟨plan, ps, b, planned, counted, succeeds, bound, same.trans (Prod.ext succeeds.symm rfl)⟩

end Execution

end Setwise
