import Setwise.Proofs.Atomicity
import Setwise.Proofs.Combining
import Setwise.Proofs.FilteredSets
import Setwise.Proofs.Pruning
import Setwise.Proofs.SoundModels

/-!
Updates of filtered sets affect the rows that satisfy the predicates.

An update of a filtered set runs on the table of the set, joined to what the assigned values refer to
(`update_planned`). The joins leave one frame of every row, in which the predicates hold if they hold of the row alone;
so the positions that are found are those of the rows that satisfy the predicates (`satisfying_positions`), and these
rows alone are assigned to (`navigation_joins_keep_rows`).
-/

set_option autoImplicit false

namespace Setwise

open Client Relational Planning

/-! ## Rows that are assigned to -/

namespace Table

theorem assign_beside {t v : Table} {i j : Nat} {stored : Row} {values : List (String × Value)} (other : i ≠ j)
    (h : ({ t with rows := t.rows.set i stored } : Table).assign j values = .ok v) :
    ∃ u, t.assign j values = .ok u ∧ u.rows[j]? = v.rows[j]? := by
  unfold assign at h ⊢
  simp only [List.getElem?_set_ne other] at h
  cases here : t.rows[j]? with
  | none =>
    rw [here] at h
    cases h
  | some row =>
    rw [here] at h
    obtain ⟨changed, named, h⟩ := bind_eq_ok.1 h
    obtain ⟨kept, valid, h⟩ := bind_eq_ok.1 h
    obtain rfl := pure_eq_ok.1 h
    rw [setNamed_rows] at named
    refine ⟨{ t with rows := t.rows.set j kept }, bind_eq_ok.2 ⟨changed, named, bind_eq_ok.2 ⟨kept, valid, rfl⟩⟩, ?_⟩
    simp [List.getElem?_set]

/-- Rows of a table have been assigned to, each at its position alone. -/
structure Reassigned (t u : Table) (columns : List String) (changes : List (Nat × Row)) : Prop where
  name : u.name = t.name
  length : u.rows.length = t.rows.length
  others : ∀ i, i ∉ changes.map Prod.fst → u.rows[i]? = t.rows[i]?
  changed : ∀ c ∈ changes, ∃ v, t.assign c.1 (columns.zip c.2) = .ok v ∧ u.rows[c.1]? = v.rows[c.1]?

end Table

namespace Execution

theorem assignAll_reassigns {columns : List String} {changes : List (Nat × Row)} {t u : Table}
    (once : (changes.map Prod.fst).Nodup) (h : (Write.assignAll columns changes).run t = (.ok (), u)) :
    t.Reassigned u columns changes := by
  induction changes generalizing t with
  | nil =>
    obtain ⟨-, rfl⟩ := Write.pure_eq_ok.1 h
    exact ⟨rfl, rfl, fun _ _ => rfl, fun _ member => nomatch member⟩
  | cons c rest ih =>
    obtain ⟨i, row⟩ := c
    -- no row is assigned twice, so the later changes find this row as it is now, and leave it
    obtain ⟨new, later⟩ := List.nodup_cons.1 once
    obtain ⟨_, v, first, last⟩ := Write.bind_eq_ok.1 h
    rw [Write.run_change] at first
    cases assigned : t.assign i (columns.zip row) with
    | error e =>
      rw [assigned] at first
      cases (Prod.mk.inj first).1
    | ok v' =>
      rw [assigned] at first
      obtain rfl : v' = v := (Prod.mk.inj first).2
      obtain ⟨name, length, others, changed⟩ := ih later last
      obtain ⟨_, _, stored, -, -, -, rfl⟩ := Table.assign_eq_ok assigned
      refine ⟨name, by simpa using length, fun j outside => ?_, List.forall_mem_cons.2 ⟨?_, fun d member => ?_⟩⟩
      · simp only [List.map_cons, List.mem_cons, not_or] at outside
        rw [others j outside.2, List.getElem?_set_ne (Ne.symm outside.1)]
      · exact ⟨_, assigned, others i new⟩
      · obtain ⟨w, found, same⟩ := changed d member
        have apart : i ≠ d.1 := fun same => new (List.mem_map.2 ⟨d, member, same.symm⟩)
        obtain ⟨w', found', same'⟩ := Table.assign_beside apart found
        exact ⟨w', found', same.trans same'.symm⟩

/-! ## Rows that satisfy a condition -/

section

variable {db : Database} {env : Environment} {joins : List (Join Select)} {condition : Option Scalar}

/-- Where the joins leave one frame of every row, and do not matter to the condition, the positions that are found are
those of the rows that satisfy the condition. -/
theorem satisfyingFrom_positions {rs : RowSet} {position : Nat} {rows : List Row} {found : List (Nat × Frame)}
    (alike : ∀ r more, passes env condition ([rs.visible r] ++ more) = passes env condition [rs.visible r])
    (single : ∀ r ∈ rows, ∀ frames columns, joinAll db env joins [[rs.visible r]] = .ok (frames, columns) →
      ∃ f, frames = [f] ∧ [rs.visible r] <+: f)
    (h : satisfyingFrom db env rs joins condition position rows = .ok found) :
    found.map Prod.fst =
      ((rows.zipIdx position).filter fun p => passes env condition [rs.visible p.1]).map Prod.snd := by
  induction rows generalizing position found with
  | nil =>
    obtain rfl := Except.ok.inj h
    rfl
  | cons r rest ih =>
    obtain ⟨first, later⟩ := List.forall_mem_cons.1 single
    obtain ⟨⟨frames, columns⟩, joined, h⟩ := bind_eq_ok.1 h
    obtain ⟨f, rfl, more, rfl⟩ := first frames columns joined
    obtain ⟨best, here, h⟩ := bind_eq_ok.1 h
    obtain ⟨others, behind, h⟩ := bind_eq_ok.1 h
    obtain rfl := pure_eq_ok.1 h
    obtain ⟨keep, value, here⟩ := bind_eq_ok.1 here
    -- the condition reads the row alone, so its only frame passes exactly if the row does
    have alone : passes env condition [rs.visible r] = keep := by
      rw [← alike r more]
      exact passes_of_eq_ok value
    have rest := ih later behind
    rw [List.zipIdx_cons, List.filter_cons, alone]
    cases keep with
    | true =>
      obtain rfl := pure_eq_ok.1 here
      exact congrArg (position :: ·) rest
    | false =>
      obtain rfl := Except.ok.inj here
      exact rest

theorem positions_changesOf {set : List Projection} {found : List (Nat × Frame)} {changes : List (Nat × Row)}
    (h : changesOf env set found = .ok changes) : changes.map Prod.fst = found.map Prod.fst := by
  induction found generalizing changes with
  | nil =>
    obtain rfl := Except.ok.inj h
    rfl
  | cons p rest ih =>
    obtain ⟨i, f⟩ := p
    obtain ⟨values, -, h⟩ := bind_eq_ok.1 h
    obtain ⟨others, later, h⟩ := bind_eq_ok.1 h
    obtain rfl := pure_eq_ok.1 h
    exact congrArg (i :: ·) (ih later)

theorem mem_positions {t : Table} {i : Nat} {r : Row} (here : t.rows[i]? = some r) (p : Row → Bool) :
    i ∈ (t.rows.zipIdx.filter fun q => p q.1).map Prod.snd ↔ p r = true := by
  simp only [List.mem_map, List.mem_filter, Prod.exists, exists_eq_right, List.mem_zipIdx_iff_getElem?]
  constructor
  · rintro ⟨s, found, kept⟩
    obtain rfl := Option.some.inj (here.symm.trans found)
    exact kept
  · exact fun kept => ⟨r, here, kept⟩

theorem positions_nodup (rows : List Row) (p : Row × Nat → Bool) :
    ((rows.zipIdx.filter p).map Prod.snd).Nodup := by
  have all : (rows.zipIdx.map Prod.snd).Nodup := by
    rw [List.zipIdx_map_snd]
    exact List.nodup_range'
  exact (List.filter_sublist.map _).nodup all

end

end Execution

/-! ## Planned updates -/

namespace Relational

theorem pruneAll_of_tables {js : List (Join Select)} (tables : ∀ j ∈ js, ∃ ref, j.source = .table ref) :
    Join.pruneAll js = js := by
  induction js with
  | nil => rfl
  | cons j rest ih =>
    obtain ⟨⟨ref, source⟩, later⟩ := List.forall_mem_cons.1 tables
    obtain ⟨kind, _, on⟩ := j
    obtain rfl : _ = RowSource.table ref := source
    unfold Join.pruneAll Join.prune Source.prune
    rw [ih later]

theorem mapLiteralTablesAll_of_tables {ε : Type} {f : LiteralTable → Except ε LiteralTable} {js : List (Join Select)}
    (tables : ∀ j ∈ js, ∃ ref, j.source = .table ref) : Join.mapLiteralTablesAll f js = .ok js := by
  induction js with
  | nil => rfl
  | cons j rest ih =>
    obtain ⟨⟨ref, source⟩, later⟩ := List.forall_mem_cons.1 tables
    obtain ⟨kind, _, on⟩ := j
    obtain rfl : _ = RowSource.table ref := source
    unfold Join.mapLiteralTablesAll Join.mapLiteralTables Source.mapLiteralTables
    rw [ih later]
    rfl

end Relational

namespace Planning

theorem FollowsReferences.tables {m : Model} {root : StoredTable} {js : List (Join Select)}
    (h : FollowsReferences m root js) : ∀ j ∈ js, ∃ ref, j.source = .table ref := by
  induction h with
  | none => exact fun _ member => nomatch member
  | another _ _ _ _ own ih =>
    obtain ⟨_, _, _, _, _, -, -, -, shape⟩ := own
    exact List.forall_mem_append.2 ⟨ih, List.forall_mem_singleton.2 ⟨_, congrArg Join.source shape⟩⟩

/-- What an update of a filtered set is planned as: its table, joined along references, and the conjunction of the
conditions that the predicates are planned as, which read the table alone. -/
structure PlannedUpdate (m : Model) (name : String) (predicates : List Lambda) (table : StoredTable)
    (cs : List Scalar) (joins : List (Join Select)) : Prop where
  entity : ∃ e, m.entity? name = some e ∧ e.table = table.name
  alone : List.Forall₂ (PlannedAlone m { entity := name, label := table.label }) predicates cs
  reads : ∀ e ∈ conjunction cs, ∀ l ∈ e.sources, l = table.label
  follows : FollowsReferences m table joins
  distinct : (table.label :: joinLabels joins).Nodup

theorem update_planned {m : Model} (targets : m.TargetsAgree) {capabilities : Capabilities} {form : Mutation}
    {name : String} {predicates : List Lambda} {set : Lambda}
    (folds : form.fold = .ok (.update (.filtered name predicates) set))
    (none : ∀ p ∈ predicates, FollowsNone m name p) {plan : Plan} (planned : planOf m capabilities form = .ok plan) :
    ∃ table cs fields joins, PlannedUpdate m name predicates table cs joins ∧
      plan = { root := .affected (.update table fields ((conjunction cs).bind Scalar.prune) joins) } := by
  obtain ⟨folded, made, w, same, run, rfl⟩ := planOf_eq_ok planned
  obtain rfl := Except.ok.inj (folds.symm.trans same)
  obtain ⟨s, v, table, e, list, fields, select, first, root, -, against, rfl⟩ := update_yields run
  have fresh := query_planned (w := {}) nofun first
  obtain ⟨e', table', cs, known, mapped, -, alone, rfl, labels, navigations⟩ := filtered_planned none first
  obtain ⟨source, -, -, -⟩ := rootTable_eq_ok root
  obtain rfl : table' = table := RowSource.table.inj source
  obtain ⟨assigns, rfl⟩ := against_yields.1 against
  -- the predicates follow no navigation, so the assignments start from the table alone
  have traced : Traced m table' { v with joins := [] } := by
    refine ⟨.none, List.nodup_singleton _, List.forall_mem_singleton.2 ?_, fun entry member => ?_⟩
    · exact labels ▸ List.mem_append_right _ (List.mem_singleton_self _)
    · rw [show Workspace.navigations _ = [] from navigations] at member
      cases member
  have resides : ∀ p ∈ set.params.zip [Shape.entity { entity := name, label := table'.label }],
      ∀ r ∈ p.2.views, Resides m table' [] r := by
    intro p member r seen
    rw [List.mem_singleton.1 (List.of_mem_zip member).2] at seen
    obtain rfl := List.mem_singleton.1 seen
    exact ⟨rfl, table'.name, .inl ⟨rfl, rfl⟩, .mapped known mapped.symm⟩
  have traced := assignedFields_traced targets traced resides assigns
  refine ⟨table', cs, fields, w.joins, ⟨⟨e', known, mapped.symm⟩, alone, fun c member l inside => ?_, traced.joins,
    traced.distinct⟩, ?_⟩
  · exact List.mem_singleton.1 (fresh.clauses c (mem_clauses.2 (.inl member)) l inside)
  · simp only [writePlan, Block.prune, Statement.prune, pruneAll_of_tables traced.joins.tables]

end Planning

/-! ## What an update affects -/

namespace Relational

def Block.joins : Block → List (Join Select)
  | .affected (.update _ _ _ joins) => joins
  | _ => []

theorem bind_of_tables {table : StoredTable} {set : List Projection} {condition : Option Scalar}
    {js : List (Join Select)} (tables : ∀ j ∈ js, ∃ ref, j.source = .table ref) (ps : Parameters) :
    Plan.bind { root := .affected (.update table set condition js) } ps =
      .ok (.affected (.update table set condition js)) := by
  have same : Join.mapLiteralTablesAll (LiteralTable.resolve ps) js = .ok js := mapLiteralTablesAll_of_tables tables
  simp only [Plan.bind, Block.mapLiteralTables, Statement.mapLiteralTables, same]
  rfl

end Relational

namespace Execution

/-- The positions are those of the rows that satisfy all predicates: the conditions that these are planned as hold of
the row alone, and plain ones are true of the entity that the row is. -/
structure Satisfied (m : Model) (db : Database) (ps : Parameters) (name : String) (predicates : List Lambda) (t : Table)
    (positions : List Nat) : Prop where
  once : positions.Nodup
  within : ∀ i ∈ positions, i < t.rows.length
  alone : ∃ label cs, List.Forall₂ (PlannedAlone m { entity := name, label }) predicates cs ∧
    ∀ i r, t.rows[i]? = some r →
      (i ∈ positions ↔ ∀ c ∈ cs, passes { parameters := ps } (some c) [⟨label, t.columnNames, r⟩] = true)
  plain : (∀ p ∈ predicates, p.body.plain = true) → ∀ i r, t.rows[i]? = some r →
    (i ∈ positions ↔ ∀ p ∈ predicates, p.accepts m db ps (.ofRow m name t.columnNames r) = true)

theorem forall_iff_of_forall₂ {α β : Type} {R : α → β → Prop} {P : α → Prop} {Q : β → Prop} {as : List α} {bs : List β}
    (h : List.Forall₂ R as bs) (same : ∀ a ∈ as, ∀ b, R a b → (Q b ↔ P a)) : (∀ b ∈ bs, Q b) ↔ ∀ a ∈ as, P a := by
  induction h with
  | nil => simp
  | cons first _ ih =>
    obtain ⟨here, later⟩ := List.forall_mem_cons.1 same
    rw [List.forall_mem_cons, List.forall_mem_cons, here _ first, ih later]

section

variable {m : Model} {db : Database} {ps : Parameters} {name : String} {predicates : List Lambda}

theorem satisfied_positions (sound : m.SoundReferences) (values : m.ValuesPresent db) (intact : m.ReferencesIntact db)
    (none : ∀ p ∈ predicates, FollowsNone m name p) {table : StoredTable} {cs : List Scalar} {joins : List (Join Select)}
    (planned : PlannedUpdate m name predicates table cs joins) (uninterrupted : Uninterrupted joins) {t : Table}
    (stored : db.find? table.name = some t) {found : List (Nat × Frame)}
    (h : satisfyingRows db { parameters := ps } table joins ((conjunction cs).bind Scalar.prune) = .ok found) :
    Satisfied m db ps name predicates t (found.map Prod.fst) := by
  obtain ⟨_, same, h⟩ := bind_eq_ok.1 h
  obtain rfl := Option.some.inj (stored.symm.trans (Database.get_eq_ok.1 (mapError_eq_ok.1 same)))
  -- the predicates read the row itself and nothing that is joined behind it
  have alike : ∀ r more, passes { parameters := ps } ((conjunction cs).bind Scalar.prune)
      ([(RowSet.ofTable t table.label).visible r] ++ more) =
        passes { parameters := ps } ((conjunction cs).bind Scalar.prune) [(RowSet.ofTable t table.label).visible r] := by
    intro r more
    rw [passes_pruned, passes_pruned]
    refine passes_append (fun e inside l source => ?_) more
    exact List.mem_singleton.2 (planned.reads e inside l source)
  have positions := satisfyingFrom_positions alike (fun r member frames columns joined => by
    obtain ⟨f, single, start, -⟩ := joined_once sound values intact planned.follows planned.distinct uninterrupted
      stored member joined
    exact ⟨f, single, start⟩) h
  have holds (i : Nat) (r : Row) (here : t.rows[i]? = some r) : i ∈ found.map Prod.fst ↔
      ∀ c ∈ cs, passes { parameters := ps } (some c) [⟨table.label, t.columnNames, r⟩] = true := by
    -- the positions found are those of the rows that pass all conditions
    let accepted := fun s => passes { parameters := ps } ((conjunction cs).bind Scalar.prune)
      [(RowSet.ofTable t table.label).visible s]
    have row : accepted r = cs.all fun c => passes { parameters := ps } (some c) [⟨table.label, t.columnNames, r⟩] :=
      (passes_pruned _ _ _).trans (passes_conjunction _ _ _)
    rw [positions, mem_positions here accepted, row, List.all_eq_true]
  refine ⟨positions ▸ positions_nodup _ _, fun i member => ?_, ⟨table.label, cs, planned.alone, holds⟩, fun plain => ?_⟩
  · rw [positions] at member
    obtain ⟨⟨r, j⟩, inside, rfl⟩ := List.mem_map.1 member
    exact (List.getElem?_eq_some_iff.1 (List.mem_zipIdx_iff_getElem?.1 (List.mem_of_mem_filter inside))).1
  · intro i r here
    rw [holds i r here]
    refine forall_iff_of_forall₂ planned.alone fun p member c alone => ?_
    rw [passes_alone alone rfl (none p member) (plain p member) db]

/-- An update of the set of an entity type, filtered by predicates that follow no reference, affects exactly the rows
that satisfy the predicates, whatever references the assigned values follow: if referential integrity holds, and no
required reference is read behind an optional one. -/
theorem navigation_joins_keep_rows {c : Planner} (honest : c.Honest) {mutation form : Mutation} {plan : Plan}
    (lifted : mutation.lift = .ok (form, ps)) {set : Lambda}
    (folds : form.fold = .ok (.update (.filtered name predicates) set))
    (none : ∀ p ∈ predicates, FollowsNone c.model name p) (planned : (c.plan mutation).1 = .ok (plan, ps))
    (uninterrupted : Uninterrupted plan.root.joins) {b : Block} (bound : plan.bind ps = .ok b)
    (sound : c.model.SoundReferences) (values : c.model.ValuesPresent db) (intact : c.model.ReferencesIntact db)
    {outcome : Outcome} {after : Database} (ran : run db b ps = (.ok outcome, after)) :
    ∃ e t u columns changes, c.model.entity? name = some e ∧ db.find? e.table = some t ∧ after = db.put u ∧
      t.Reassigned u columns changes ∧ outcome = .affected changes.length ∧
      Satisfied c.model db ps name predicates t (changes.map Prod.fst) := by
  obtain ⟨form', lifted', made⟩ := (honest.plan mutation).2 plan ps planned
  obtain rfl := (Prod.mk.inj (Except.ok.inj (lifted.symm.trans lifted'))).1
  obtain ⟨table, cs, fields, joins, update, rfl⟩ := update_planned sound.targets folds none made
  obtain rfl := Except.ok.inj ((bind_of_tables update.follows.tables ps).symm.trans bound)
  obtain ⟨n, written, rfl⟩ := run_affected_eq_ok.1 ran
  obtain ⟨e, known, mapped⟩ := update.entity
  rcases runWrite_leaves db (.update table fields ((conjunction cs).bind Scalar.prune) joins) ps with
    ⟨error, fails⟩ | ⟨_, untargeted, -⟩ | ⟨k, t, u, target, found, checked, result⟩
  · cases fails.symm.trans written
  · cases untargeted
  obtain ⟨reported, stored⟩ := Prod.mk.inj (result.symm.trans written)
  obtain rfl := Except.ok.inj reported
  have here : u.name = table.name := (Option.some.inj target).symm
  -- the write finds its rows, evaluates what is assigned, and assigns it
  obtain ⟨wrote, -⟩ := writeChecked_eq_ok.1 checked
  obtain ⟨rows, _, first, wrote⟩ := Write.bind_eq_ok.1 wrote
  obtain ⟨satisfying, rfl⟩ := Write.ofResult_eq_ok.1 first
  obtain ⟨changes, _, second, wrote⟩ := Write.bind_eq_ok.1 wrote
  obtain ⟨assigned, rfl⟩ := Write.ofResult_eq_ok.1 second
  obtain ⟨_, _, third, last⟩ := Write.bind_eq_ok.1 wrote
  obtain ⟨rfl, rfl⟩ := Write.pure_eq_ok.1 last
  rw [here] at found
  have satisfied := satisfied_positions sound values intact none update uninterrupted found satisfying
  rw [← positions_changesOf assigned] at satisfied
  exact ⟨e, t, _, _, changes, known, mapped ▸ found, stored.symm, assignAll_reassigns satisfied.once third, rfl,
    satisfied⟩

end

/-! ## Members of teams -/

def declaredStaff : List Entity := [
  ((((Entity.mapped "Team" "Teams").withProperty ⟨"Id", "Id", .integer, false, false⟩).withProperty
    ⟨"ParentId", "ParentId", .integer, true, false⟩).withProperty ⟨"Name", "Name", .text, false, false⟩).referencing
      "Parent" "Team" ["ParentId"] ["Id"],
  ((((((Entity.mapped "Person" "Persons").withProperty ⟨"Id", "Id", .integer, false, false⟩).withProperty
    ⟨"BossId", "BossId", .integer, true, false⟩).withProperty ⟨"TeamId", "TeamId", .integer, false, false⟩).withProperty
      ⟨"Note", "Note", .text, true, false⟩).referencing "Boss" "Person" ["BossId"] ["Id"]).referencing
        "Team" "Team" ["TeamId"] ["Id"]]

def staff : Model :=
  ⟨declaredStaff⟩

def twoTeams : Database :=
  Database.ofTables [
    { name := "Teams"
      columns := [⟨"Id", .integer, false⟩, ⟨"ParentId", .integer, true⟩, ⟨"Name", .text, false⟩]
      rows := [[.int 1, .null, .text "all"], [.int 2, .int 1, .text "design"]] },
    { name := "Persons"
      columns := [⟨"Id", .integer, false⟩, ⟨"BossId", .integer, true⟩, ⟨"TeamId", .integer, false⟩,
        ⟨"Note", .text, true⟩]
      rows := [[.int 1, .null, .int 1, .null], [.int 2, .int 1, .int 2, .null]] }]

def numbered : Lambda :=
  ⟨["x"], .binary (.member (.param "x") "Id") .greater (.constant (.int 0))⟩

def noteAll (of : Expr) : Mutation :=
  .update (.filtered "Person" [numbered]) ⟨["x"], .new (some "Person") [] [.assign "Note" (.member of "Name")]⟩

theorem staff_unowned : ∀ e ∈ staff.entities, ∀ n ∈ e.navigations, n.isOwned = false := by decide

theorem staff_wellDeclared : WellDeclared declaredStaff staff where
  embedded e member owned _ := by
    have none : ∀ e ∈ declaredStaff, e.owned = false := by decide
    rw [none e member] at owned
    cases owned
  mapped := by decide
  accepted := rfl
  distinct := by decide
  acyclic name cycle := by
    obtain ⟨_, ⟨e, member, -, n, navigation, owned, -⟩, -⟩ := Relation.TransGen.head'_iff.1 cycle
    rw [staff_unowned e member n navigation] at owned
    cases owned
  linked := by decide
  targets := by
    have all : ∀ e ∈ staff.entities, ∀ n ∈ e.navigations, ∀ e' ∈ staff.entities, ∀ n' ∈ e'.navigations,
        n.name = n'.name → n.target = n'.target := by decide
    rintro _ _ _ ⟨e, member, n, navigation, -, rfl, rfl⟩ ⟨e', member', n', navigation', -, same, rfl⟩
    exact all e member n navigation e' member' n' navigation' same.symm

theorem staff_sound : staff.SoundReferences := by
  refine Model.soundReferences staff_wellDeclared.accepted ?_ (Model.targetsAgree staff_wellDeclared.targets)
  refine List.forall_mem_cons.2 ⟨?_, List.forall_mem_singleton.2 ?_⟩
  · exact ((((Entity.Assembled.mapped _ _).property _).property _).property _).referencing _ _ _ _
  · exact (((((Entity.Assembled.mapped _ _).property _).property _).property _).property _).referencing _ _ _ _
      |>.referencing _ _ _ _

theorem twoTeams_wellFormed : twoTeams.WellFormed := by
  refine Database.wellFormed_of_tables fun t member => ⟨fun r stored => ?_, Table.keysUnique_of_checkUnique ?_⟩
  · have holds : ∀ t ∈ twoTeams.tables, ∀ r ∈ t.rows, List.Forall₂
        (fun c v => if v = .null then c.nullable = true else v.type? = some c.type) t.columns r := by decide
    exact holds t member r stored
  · revert t
    decide

theorem twoTeams_present : staff.ValuesPresent twoTeams := by
  refine Model.valuesPresent staff_wellDeclared ?_ twoTeams_wellFormed fun e member => ?_
  · unfold Model.ColumnsAgree
    decide
  have all : ∀ e ∈ Model.roots staff.entities, ∃ t ∈ twoTeams.tables, twoTeams.find? e.table = some t ∧
      t.columns = (staff.tableOf e).columns := by decide
  obtain ⟨t, -, found⟩ := all e member
  exact ⟨t, found⟩

def keysOf (n : Navigation) : List (String × String) :=
  match n.kind with
  | .owned => []
  | .reference foreignKey principalKey _ => foreignKey.zip principalKey

theorem twoTeams_intact : staff.ReferencesIntact twoTeams := by
  have all : ∀ owner ∈ staff.entities, ∀ n ∈ owner.navigations, ∀ target ∈ staff.entities, n.target = target.name →
      ∀ t ∈ twoTeams.tables, t.name = owner.table → ∀ u ∈ twoTeams.tables, u.name = target.table →
        ∀ pairs ∈ keyPairs? owner target (keysOf n), ∀ r ∈ t.rows,
          (∀ p ∈ pairs, Model.Present ((staff.rowOf owner.name t.columnNames r).lookup p.1).join) →
            (referencedRows (staff.rowOf owner.name t.columnNames r) pairs u).length = 1 := by decide
  rintro name required pairs table t u ⟨owner, n, foreignKey, principalKey, target, known, navigation, kind,
    targetKnown, same, keys⟩ stored found found' r member complete
  obtain ⟨owner', known', own⟩ := Model.mapped_of_storedIn staff_unowned stored
  obtain rfl := Option.some.inj (known.symm.trans known')
  obtain rfl := name_of_entity? known
  have reached : target.name = n.target := name_of_entity? targetKnown
  refine all owner (List.mem_of_find?_eq_some known) n navigation target (List.mem_of_find?_eq_some targetKnown)
    reached.symm t (Database.mem_of_find? found) ((Database.name_of_find? found).trans own.symm) u (Database.mem_of_find? found')
    same.symm pairs ?_ r member complete
  rw [keysOf, kind]
  exact keys

/-- A team is there, and the team that it is part of is optional: both persons get a note. -/
theorem parentTeams_noted : ∃ plan ps b t u columns changes,
    (Planner.plan { model := staff, capabilities := .inMemory }
        (noteAll (.member (.member (.param "x") "Team") "Parent"))).1 = .ok (plan, ps) ∧
      plan.bind ps = .ok b ∧ run twoTeams b ps = (.ok (.affected 2), twoTeams.put u) ∧
      twoTeams.find? "Persons" = some t ∧ t.Reassigned u columns changes ∧
      Satisfied staff twoTeams ps "Person" [numbered] t (changes.map Prod.fst) := by
  obtain ⟨form, plan, ps, b, lifted, folds, planned, bound, uninterrupted, affected⟩ : ∃ form plan ps b,
      (noteAll (.member (.member (.param "x") "Team") "Parent")).lift = .ok (form, ps) ∧
        form.fold = .ok (noteAll (.member (.member (.param "x") "Team") "Parent")) ∧
        (Planner.plan { model := staff, capabilities := .inMemory }
          (noteAll (.member (.member (.param "x") "Team") "Parent"))).1 = .ok (plan, ps) ∧
        plan.bind ps = .ok b ∧ Uninterrupted plan.root.joins ∧ (run twoTeams b ps).1 = .ok (.affected 2) := by
    refine ⟨_, _, _, _, rfl, rfl, rfl, rfl, ?_, rfl⟩
    decide
  have unreferring : ∀ p ∈ [numbered], FollowsNone staff "Person" p := List.forall_mem_singleton.2 rfl
  obtain ⟨e, t, u, columns, changes, known, found, stored, reassigned, outcome, satisfied⟩ :=
    navigation_joins_keep_rows (Planner.honest_of_no_plans rfl) lifted folds unreferring planned uninterrupted bound
      staff_sound twoTeams_present twoTeams_intact (Prod.ext affected rfl)
  obtain rfl := Option.some.inj known
  exact ⟨plan, ps, b, t, u, columns, changes, planned, bound, Prod.ext affected stored, found, reassigned, satisfied⟩

theorem bossTeams_dropped : ∃ plan ps b t,
    (Planner.plan { model := staff, capabilities := .inMemory }
        (noteAll (.member (.member (.param "x") "Boss") "Team"))).1 = .ok (plan, ps) ∧
      plan.bind ps = .ok b ∧ (run twoTeams b ps).1 = .ok (.affected 1) ∧ twoTeams.find? "Persons" = some t ∧
      t.rows.length = 2 ∧
      ∀ r ∈ t.rows, numbered.accepts staff twoTeams ps (.ofRow staff "Person" t.columnNames r) = true := by
  refine ⟨_, _, _, _, rfl, rfl, rfl, rfl, rfl, ?_⟩
  decide

end Execution

end Setwise
