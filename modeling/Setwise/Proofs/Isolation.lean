import Setwise.Proofs.Fallbacks
import Setwise.Proofs.Linking
import Setwise.Proofs.Origins

/-!
Which tables a mutation leaves alone.

A mutation is planned as a statement that writes to the table of its target, which is the entity type that it names or
that of the set at the root of its query, and what binding puts in the place of the statement writes to no other table
(`prepare_writesOnly`). So a session leaves every table of another name as it is (`execute_leaves`), in one operation and
in any number of them (`differently_named_tables_isolated`).

In memory a table goes by its name, whatever its schema. Tables of one name in two schemas are therefore one table there,
that of the entity type which comes last, and a mutation of the one type changes the rows of the other
(`namesakes_share_rows`).
-/

set_option autoImplicit false

namespace Setwise

open Client Relational

/-! ## Targets -/

namespace Client

/-- The entity type that a mutation writes to: the one that it names, or that of the set at the root of its query. -/
def Mutation.target? : Mutation → Option String
  | .delete q | .update q _ | .updateJoin q .. => q.rootSet?
  | .insertInto _ target | .upsert target .. | .merge target .. => some target

theorem Mutation.target?_of_rootQuery? {mutation : Mutation} {q : Query} (root : mutation.rootQuery? = some q) :
    mutation.target? = q.rootSet? := by
  cases mutation with
  | delete | update | updateJoin =>
    obtain rfl := Option.some.inj root
    rfl
  | insertInto | upsert | merge => cases root

theorem Mutation.rewrite_target? {f : Expr → Expr} {g : LocalRows → LocalRows} (mutation : Mutation) :
    (mutation.rewrite f g).target? = mutation.target? := by
  cases mutation with
  | delete q | update q | updateJoin q => exact Query.rewrite_rootSet? q
  | insertInto | upsert | merge => rfl

theorem Mutation.target?_of_skeleton {mutation mutation' : Mutation} (same : mutation'.skeleton = mutation.skeleton) :
    mutation'.target? = mutation.target? := by
  have targets := congrArg Mutation.target? same
  unfold skeleton at targets
  rwa [rewrite_target?, rewrite_target?] at targets

end Client

namespace Execution

open Planning

/-! ## Written tables -/

theorem targetTable?_prune (s : Statement) : targetTable? s.prune = targetTable? s := by
  cases s <;> rfl

theorem targetTable?_mapLiteralTables {ε : Type} {f : LiteralTable → Except ε LiteralTable} {s t : Statement}
    (h : s.mapLiteralTables f = .ok t) : targetTable? t = targetTable? s := by
  cases s with
  | delete | update | insertInto | upsert | merge =>
    obtain ⟨_, -, same⟩ := bind_eq_ok.1 h
    obtain rfl := pure_eq_ok.1 same
    rfl
  | truncate | noop =>
    obtain rfl := Except.ok.inj h
    rfl

theorem plan_target {m : Model} {capabilities : Capabilities} {mutation : Mutation} {plan : Plan} {w : Workspace}
    (h : Step.Yields (mutationPlan m capabilities mutation) {} plan w) :
    ∃ name e s, mutation.target? = some name ∧ m.entity? name = some e ∧ e.owned = false ∧ plan.root = .affected s ∧
      targetTable? s = some e.table := by
  -- deletes and updates write the table at the root of their query, the others the table of their target
  cases root : mutation.rootQuery? with
  | some q =>
    obtain ⟨s, v, table, e, statement, first, rooted, rooting, changes, -⟩ := rootQuery_planned root h
    obtain ⟨name, own, path, set, known, stored, named, -⟩ := rootTable_tells first rooted
    refine ⟨name, own, statement, (Mutation.target?_of_rootQuery? root).trans set, known, stored, rooting, ?_⟩
    rw [named] at changes
    rcases changes with ⟨p, js, rfl⟩ | ⟨set, p, js, rfl⟩ <;> rfl
  | none =>
    cases mutation with
    | delete | update | updateJoin => cases root
    | insertInto q target =>
      obtain ⟨input, selector, e, list, s, v, fields, select, -, targeted, -, -, -, rfl⟩ := insertInto_yields h
      obtain ⟨known, stored⟩ := targetEntity_eq_ok targeted
      exact ⟨target, e, _, rfl, known, stored, rfl, rfl⟩
    | upsert target source insert update =>
      obtain ⟨e, table, v, list, key, select, fields, x, updated, columns, targeted, new, -, -, -, -, -, rfl⟩ :=
        upsert_yields h
      obtain ⟨known, stored⟩ := targetEntity_eq_ok targeted
      obtain ⟨-, named, -⟩ := newTable_yields new
      exact ⟨target, e, _, rfl, known, stored, rfl, by rw [named]; rfl⟩
    | merge target source targetKey sourceKey update insert delete =>
      obtain ⟨e, table, v, s, u, rows, shape, x, l, y, r, z, on, matched, z', inserted, targeted, new, -, -, -, -, -, -,
        -, rfl⟩ := merge_yields h
      obtain ⟨known, stored⟩ := targetEntity_eq_ok targeted
      obtain ⟨-, named, -⟩ := newTable_yields new
      exact ⟨target, e, _, rfl, known, stored, rfl, by rw [named]; rfl⟩

def WritesOnly (name : String) (s : Statement) : Prop :=
  ∀ written, targetTable? s = some written → written = name

/-- Whatever binding makes of the plan of a mutation, it writes to the table of the target alone. -/
theorem prepare_writesOnly {c : Planner} (honest : c.Honest) {mutation : Mutation} {b : Block} {ps : Parameters}
    (prepared : (c.prepare mutation).1 = .ok (b, ps)) :
    ∃ name e s, mutation.target? = some name ∧ c.model.entity? name = some e ∧ b = .affected s ∧
      WritesOnly e.table s := by
  obtain ⟨plan, planned, bound⟩ := Planner.prepare_eq_ok prepared
  obtain ⟨form, folded, made, w, lifted, folds, run, rfl⟩ := honest.folded planned
  obtain ⟨name, e, s, target, known, -, root, written⟩ := plan_target run
  have target : mutation.target? = some name :=
    (Mutation.target?_of_skeleton (Mutation.skeleton_of_folded lifted folds)).symm.trans target
  rcases Plan.bind_cases bound with ⟨feed, member, -, rfl⟩ | counted
  · refine ⟨name, e, _, target, known, rfl, fun other writes => ?_⟩
    -- the collection feeds the statement, whose table is emptied if any
    rcases feeds_empty run with none | ⟨only, s', feeds, root', empties⟩
    · rw [show made.feeds = [] from none] at member
      cases member
    · rw [show made.feeds = [only] from feeds] at member
      obtain rfl := List.mem_singleton.1 member
      obtain rfl : s = s' := Block.affected.inj (root.symm.trans root')
      rcases emptiedBy_target empties with skip | ⟨table, truncate, own⟩
      · rw [skip] at writes
        cases writes
      · rw [truncate] at writes
        obtain rfl := Option.some.inj writes
        exact Option.some.inj (own.symm.trans written)
  · rw [show made.root = .affected s from root] at counted
    obtain ⟨t, resolved, same⟩ := bind_eq_ok.1 counted
    refine ⟨name, e, t, target, known, (pure_eq_ok.1 same).symm, fun other writes => ?_⟩
    rw [targetTable?_mapLiteralTables resolved, targetTable?_prune, written] at writes
    exact (Option.some.inj writes).symm

theorem runWrite_elsewhere {db : Database} {s : Statement} {ps : Parameters} {name other : String}
    (only : WritesOnly name s) (different : name ≠ other) : (runWrite db s ps).2.find? other = db.find? other := by
  rcases runWrite_leaves db s ps with ⟨e, failed⟩ | ⟨n, -, idle⟩ | ⟨n, before, after, target, -, -, finished⟩
  · rw [failed]
  · rw [idle]
  · rw [finished]
    exact Database.find?_put_of_ne (only _ target ▸ different) db

end Execution

/-! ## Sessions -/

namespace Session

structure Request where
  mutation : Mutation
  abandonable : Bool := false
  callerCancelled : Bool := false

/-- A session after it has been asked for some operations, one after the other, whether they succeed or fail. -/
def executeAll (s : Session Database) (requests : List Request) : Session Database :=
  requests.foldl (fun s r => (s.execute r.mutation r.abandonable r.callerCancelled).2) s

/-- An operation leaves a planner that may have planned, and the store as it is or as a block leaves it that the planner
has prepared. -/
theorem execute_leaves (s : Session Database) (mutation : Mutation) (abandonable callerCancelled : Bool) :
    ∃ planner, (planner = s.planner ∨ planner = (s.planner.plan mutation).2) ∧
      ((s.execute mutation abandonable callerCancelled).2 = { s with planner } ∨
        ∃ b ps, (s.planner.prepare mutation).1 = .ok (b, ps) ∧
          (s.execute mutation abandonable callerCancelled).2 =
            { s with planner, store := (Execution.run s.store b ps).2 }) := by
  obtain ⟨c, store, stopped, current⟩ := s
  cases current with
  | some phase => exact ⟨c, .inl rfl, .inl rfl⟩
  | none =>
    -- a session that is busy, stopped or cancelled does nothing; otherwise it prepares the mutation, and runs it on success
    by_cases cancelled : (callerCancelled || stopped) = true
    · refine ⟨c, .inl rfl, .inl ?_⟩
      simp only [execute, start, if_pos cancelled]
    · have planned : (c.prepare mutation).2 = (c.plan mutation).2 := rfl
      cases prepared : c.prepare mutation with
      | mk result planner =>
        rw [prepared] at planned
        refine ⟨planner, .inr planned, ?_⟩
        cases result with
        | error e =>
          left
          simp only [execute, start, if_neg cancelled, prepared]
        | ok made =>
          right
          refine ⟨made.1, made.2, rfl, ?_⟩
          simp only [execute, start, if_neg cancelled, prepared, runCurrent, release]

theorem execute_keeps {s : Session Database} (honest : s.planner.Honest) (r : Request) {table : String}
    (apart : ∀ name e, r.mutation.target? = some name → s.planner.model.entity? name = some e → e.table ≠ table) :
    let after := (s.execute r.mutation r.abandonable r.callerCancelled).2
    after.planner.Honest ∧ after.planner.model = s.planner.model ∧ after.store.find? table = s.store.find? table := by
  obtain ⟨planner, planned, left⟩ := execute_leaves s r.mutation r.abandonable r.callerCancelled
  have kept : planner.Honest ∧ planner.model = s.planner.model := by
    rcases planned with rfl | rfl
    · exact ⟨honest, rfl⟩
    · obtain ⟨plans, same⟩ := s.planner.plan_settings r.mutation
      exact ⟨(honest.plan r.mutation).1, by rw [same]⟩
  intro after
  rcases left with same | ⟨b, ps, prepared, same⟩
  · rw [show after = _ from same]
    exact ⟨kept.1, kept.2, rfl⟩
  · obtain ⟨name, e, statement, target, known, rfl, only⟩ := Execution.prepare_writesOnly honest prepared
    rw [show after = _ from same]
    exact ⟨kept.1, kept.2, Execution.runWrite_elsewhere only (apart name e target known)⟩

end Session

/-- Entity types of a model whose tables have different names are apart in memory. One whose table has a name that no
other type with a table of its own uses has the table that is made for it, with its columns and keys. And operations
leave a table as it is as long as those of their targets have other names. -/
theorem differently_named_tables_isolated {entities : List Entity} {m : Model}
    (accepted : Model.ofEntities entities = .ok m) :
    (∀ e ∈ m.entities, e.owned = false →
        (∀ f ∈ m.entities, f.owned = false → f.table = e.table → f = e) →
        m.database.find? e.table = some (m.tableOf e)) ∧
      ∀ (table : String) (s : Session Database) (requests : List Session.Request), s.planner.Honest →
        s.planner.model = m →
        (∀ r ∈ requests, ∃ a ∈ m.entities, r.mutation.target? = some a.name ∧ a.table ≠ table) →
        (s.executeAll requests).store.find? table = s.store.find? table := by
  constructor
  · intro e member stored alone
    refine Model.find?_ofTables_alone (List.mem_map_of_mem (Model.mem_roots.2 ⟨member, stored⟩)) ?_
    intro u inside same
    obtain ⟨f, root, rfl⟩ := List.mem_map.1 inside
    obtain ⟨member', stored'⟩ := Model.mem_roots.1 root
    rw [alone f member' stored' same]
  · intro table s requests honest plans apart
    have distinct := Model.linked_names_nodup accepted
    induction requests generalizing s with
    | nil => rfl
    | cons r rest ih =>
      obtain ⟨⟨a, known, target, different⟩, others⟩ := List.forall_mem_cons.1 apart
      -- names of entity types are unique, so that the target is the type at hand
      have elsewhere : ∀ name e, r.mutation.target? = some name → s.planner.model.entity? name = some e →
          e.table ≠ table := by
        intro name e target' known'
        obtain rfl := Option.some.inj (target.symm.trans target')
        rw [plans, Model.entity?_of_mem distinct known] at known'
        exact Option.some.inj known' ▸ different
      obtain ⟨honest', model, same⟩ := Session.execute_keeps honest r elsewhere
      exact (ih _ honest' (model.trans plans) others).trans same

/-- Persons have their own table, which stays as it is when all countries are deleted. -/
theorem countries_apart :
    let s : Session Database :=
      { planner := { model := Planning.people, capabilities := .inMemory }, store := Planning.emigrant }
    let after := s.executeAll [{ mutation := .delete (.set "Country") }]
    (∃ e, Planning.people.entity? "Person" = some e ∧
        Planning.people.database.find? "Persons" = some (Planning.people.tableOf e)) ∧
      (after.store.find? "Countries").map (·.rows.length) = some 0 ∧
      after.store.find? "Persons" = s.store.find? "Persons" := by
  obtain ⟨own, apart⟩ := differently_named_tables_isolated (show Model.ofEntities Planning.people.entities =
    .ok Planning.people from rfl)
  refine ⟨⟨_, rfl, own _ (.tail _ (.tail _ (.head _))) rfl ?_⟩, rfl, ?_⟩
  · decide
  · refine apart "Persons" _ _ (Planner.honest_of_no_plans rfl) rfl (List.forall_mem_singleton.2 ?_)
    exact ⟨_, .head _, rfl, by decide⟩

def namesakes : List Entity := [
  { name := "Old"
    table := "Items"
    schema := some "archive"
    properties := [⟨"Id", "Id", .integer, false, false⟩] },
  { name := "New"
    table := "Items"
    properties := [⟨"Id", "Id", .integer, false, false⟩] }]

def archiveItem : Mutation :=
  .insertInto (.map (.rows (.records ["Number"] [⟨none, [("Number", .int 1)]⟩]))
    ⟨["r"], .new (some "Old") [] [.assign "Id" (.member (.param "r") "Number")]⟩) "Old"

/-- The two entity types have one table in memory, whence deleting all new items deletes the old one. -/
theorem namesakes_share_rows :
    ∃ m, Model.ofEntities namesakes = .ok m ∧ m.database.tableNames = ["Items"] ∧
      let archived := (Session.inMemory m false).executeAll [{ mutation := archiveItem }]
      let deleted := archived.executeAll [{ mutation := .delete (.set "New") }]
      (archived.store.find? "Items").map (·.rows.length) = some 1 ∧
        (deleted.store.find? "Items").map (·.rows.length) = some 0 :=
  ⟨_, rfl, rfl, rfl, rfl⟩

end Setwise
