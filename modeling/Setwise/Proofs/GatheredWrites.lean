import Setwise.Proofs.GatheredRows
import Setwise.Proofs.InitialisedColumns
import Setwise.Proofs.Origins

/-!
What the statements of mutations read.

A statement reads the database before it writes: it finds rows, computes the values that they are to have, and takes the
rows of another query. `Mutation.Reaches` says, kind by kind, that all of this is what the queries and lambdas of the
mutation give, reading references navigation by navigation.
-/

set_option autoImplicit false

namespace Setwise

open Client Relational Execution Planning

namespace Client

section

variable (m : Model)

/-- Planned for the mutation, all lambdas read their references on joins of their own foreign keys. -/
def Mutation.ReadsOwn : Mutation → Prop
  | .delete q => q.ReadsOwn m {}
  | .update q set | .insertInto (.map q set) _ => Query.ReadsOwn m (.map q (set.byColumn m)) {}
  | .insertInto _ _ => True
  | .updateJoin outer inner outerKey innerKey set condition =>
    Query.ReadsOwn m (.join outer inner outerKey innerKey (set.byColumn m)) {} ∧
      ∀ subject s i v x source shape y l select z r z' on fields select' w, ∀ c ∈ condition,
        Step.Yields (query m outer) {} s v → Step.Yields (query m inner) v i x →
        Step.Yields (asSource m subject i) x (source, shape) y →
        Step.Yields (against s.select (expr m (outerKey.params.zip [s.shape]) outerKey.body)) y (l, select) z →
        Step.Yields (standalone m (innerKey.params.zip [shape]) subject innerKey.body) z r z' →
        Shape.equality m subject l r = .ok on →
        Step.Yields (against { select with joins := select.joins ++ [⟨.inner, source, some on⟩] }
          (assignedFields m (set.params.zip [s.shape, shape]) (set.leaves m))) z' (fields, select') w →
        c.ReadsOwn m [s.shape, shape] select' w
  | .upsert target source insert _ =>
    ∀ e table v, m.entity? target = some e → Step.Yields (newTable e) {} table v →
      ∀ q ∈ source, Query.ReadsOwn m (.map q (insert.byColumn m)) v
  | .merge target source .. =>
    ∀ e table v, m.entity? target = some e → Step.Yields (newTable e) {} table v → source.ReadsOwn m v

variable (db : Database) (ps : Parameters)

/-- The elements of another query, with the NULL constants in them. A subquery passes none of these on. -/
def Query.Provides (q : Query) (nulls : Nulls) (ys : List Element) : Prop :=
  ∃ d, q.Gathers m db ps d ∧ d.delivered? = some ys ∧ (nulls = d.nulls ∨ nulls = Nulls.none)

/-- What an initialiser gives for an element and those of its partners for which the condition holds. -/
def pairedElements (outerKey innerKey set : Lambda) (condition : Option Lambda) (nulls nulls' : Nulls) (ys : List Element)
    (x : Element) : List Element :=
  let values (y : Element) :=
    ((set.byColumn m).gives m db ps [nulls, nulls'] [x, y]).bind fun z =>
      match condition with
      | none => some z
      | some c => (c.gives m db ps [nulls, nulls'] [x, y]).bind fun b => if b.holds then some z else none
  (outerKey.gives m db ps [nulls] [x]).toList.flatMap fun key =>
    (partnersOf m (fun y => innerKey.gives m db ps [nulls'] [y]) ys key).filterMap values

/-- The rows that an upsert inserts: those that the initialiser gives for what a query gathers, or one for no element. -/
def InsertedRows (insert : Lambda) : Option Query → List (Option Row) → Prop
  | some q, rows => ∃ c, Query.Gathers m db ps (.map q (insert.byColumn m)) c ∧ rows = c.entries.map fun x => x.2.row?
  | none, rows => rows = [insert.writes m db ps [] []]

/-- What the statement reads is what the lambdas of the mutation give, navigation by navigation. -/
def Mutation.Reaches : Mutation → Statement → Prop
  | .delete q, .delete table predicate joins =>
    ∀ found, satisfyingRows db { parameters := ps } table joins predicate = .ok found →
      ∃ name t, q.rootSet? = some name ∧ db.find? table.name = some t ∧ found.map Prod.fst =
        positions (fun row => (q.through? m db ps (.ofRow m name t.columnNames row)).isSome) 0 t.rows
  | .update q set, .update table fields predicate joins =>
    assignedColumns fields = set.columns m ∧
      ∀ found changes, satisfyingRows db { parameters := ps } table joins predicate = .ok found →
        changesOf { parameters := ps } fields found = .ok changes →
        ∃ name t, q.rootSet? = some name ∧ db.find? table.name = some t ∧ changes =
          located (fun row => (q.through? m db ps (.ofRow m name t.columnNames row)).bind fun x =>
            set.writes m db ps [q.rootNulls] [x]) 0 t.rows
  | .updateJoin outer inner outerKey innerKey set condition, .update table fields predicate joins =>
    assignedColumns fields = set.columns m ∧
      ∀ found changes, satisfyingRows db { parameters := ps } table joins predicate = .ok found →
        changesOf { parameters := ps } fields found = .ok changes →
        ∃ name t nulls ys, outer.rootSet? = some name ∧ db.find? table.name = some t ∧
          (t.rows ≠ [] → inner.Provides m db ps nulls ys) ∧ changes =
            located (fun row => (outer.through? m db ps (.ofRow m name t.columnNames row)).bind fun x =>
              (pairedElements m db ps outerKey innerKey set condition outer.rootNulls nulls ys x).head?.bind
                Element.row?) 0 t.rows
  | .insertInto (.map q selector) _, .insertInto _ _ select =>
    ∀ output, selectRows db { parameters := ps } select = .ok output → output.columns = selector.columns m ∧
      ∃ xs, Query.Delivers m db ps (.map q (selector.byColumn m)) xs ∧ output.rows.map some = xs.map Element.row?
  | .upsert target source insert update', .upsert table select fields updated _ _ =>
    assignedColumns fields = insert.columns m ∧
      (∀ incoming, incomingRows db { parameters := ps } select fields = .ok incoming →
        InsertedRows m db ps insert source (incoming.map some)) ∧
      Option.Rel (fun l set => ∀ (t : Table) row incoming,
        l.Assigns m db { parameters := ps, incoming := some (insert.columns m, incoming) }
          [(RowSet.ofTable t table.label).visible row] [Nulls.none, Nulls.none]
          [.ofRow m target t.columnNames row, .ofRow m target (insert.columns m) incoming] set)
        (effectiveUpdate? update') updated
  | .merge target source targetKey sourceKey update' insert _, .merge table rows on matched inserted _ =>
    ∀ rs, sourceRows db { parameters := ps } rows = .ok rs → ∃ nulls, ∃ element : Row → Element,
      source.Provides m db ps nulls (rs.rows.map element) ∧
      (∀ (t : Table) row r, ∃ k k', targetKey.gives m db ps [Nulls.none] [.ofRow m target t.columnNames row] = some k ∧
        sourceKey.gives m db ps [nulls] [element r] = some k' ∧
        passes { parameters := ps } (some on) [(RowSet.ofTable t table.label).visible row, rs.visible r] =
          ((Element.equality m k k').map Value.isTrue).getD false) ∧
      Option.Rel (fun l set => ∀ (t : Table) row r,
        l.Assigns m db { parameters := ps } [(RowSet.ofTable t table.label).visible row, rs.visible r] [Nulls.none, nulls]
          [.ofRow m target t.columnNames row, element r] set)
        (effectiveUpdate? update') matched ∧
      Option.Rel (fun l set => ∀ r, l.Assigns m db { parameters := ps } [rs.visible r] [nulls] [element r] set) insert inserted
  | _, _ => False

end

end Client

theorem rel_imp {α β : Type} {R S : α → β → Prop} (imp : ∀ a b, R a b → S a b) {a : Option α} {b : Option β}
    (h : Option.Rel R a b) : Option.Rel S a b := by
  cases h with
  | none => exact .none
  | some related => exact .some (imp _ _ related)

theorem located_congr {α : Type} {g h : Row → Option α} {n : Nat} {rows : List Row} (same : ∀ row ∈ rows, g row = h row) :
    located g n rows = located h n rows := by
  induction rows generalizing n with
  | nil => rfl
  | cons row rest ih =>
    obtain ⟨here, later⟩ := List.forall_mem_cons.1 same
    rw [located_cons, located_cons, here, ih later]

theorem positions_congr {p p' : Row → Bool} {n : Nat} {rows : List Row} (same : ∀ row ∈ rows, p row = p' row) :
    positions p n rows = positions p' n rows := by
  induction rows generalizing n with
  | nil => rfl
  | cons row rest ih =>
    obtain ⟨here, later⟩ := List.forall_mem_cons.1 same
    rw [positions_cons, positions_cons, here, ih later]

namespace Planning

section

variable {m : Model} {db : Database} {ps : Parameters} {u v w : Workspace} {s : Planned} {q : Query} {e : Entity}
  {table : StoredTable} {mutation : Mutation} {capabilities : Capabilities} {plan : Plan} {b : Block}

/-- The rows of the table of a delete or an update are entities that can be met. -/
theorem root_met (db : Database) (run : Step.Yields (query m q) {} s v) (rooted : rootTable m mutation s = .ok (table, e)) :
    (∀ r ∈ q.chain, r.rearranges = false) ∧ ∃ name, q.rootSet? = some name ∧
      ∀ t, db.find? table.name = some t → ∀ row ∈ t.rows, (Element.ofRow m name t.columnNames row).Within (Met m db) := by
  obtain ⟨name, root, _, set, known, -, same, -⟩ := rootTable_tells run rooted
  refine ⟨query_operators run (rootTable_operators rooted), name, set, fun t held row member => ?_⟩
  have held : db.find? root.table = some t := by
    rw [same] at held
    exact held
  exact .entity (.stored known held member)

theorem delete_reaches (leads : LeadsOn m db) (own : q.ReadsOwn m {})
    (h : Step.Yields (mutationPlan m capabilities (.delete q)) {} plan w)
    (bound : plan.root.prune.Replaced (LiteralTable.Resolves ps) b) :
    ∃ s, b = .affected s ∧ (Mutation.delete q).Reaches m db ps s := by
  obtain ⟨s, table, e, run, rooted, rfl⟩ := delete_yields h
  obtain ⟨plain, name, set, met⟩ := root_met db run rooted
  obtain ⟨source, -⟩ := rootTable_eq_ok rooted
  cases bound with
  | affected write =>
    cases write with
    | delete _ _ joins =>
      obtain rfl := JoinsResolve.tables (chain_filters plain run).2 (Join.resolves_of_pruneAll joins)
      refine ⟨_, rfl, fun found here => ?_⟩
      obtain ⟨t, held, joined, rfl⟩ := satisfyingRows_eq_ok source here
      refine ⟨name, t, set, held, positions_of_located.trans (positions_congr fun row member => ?_)⟩
      obtain ⟨frames, joined⟩ := joined row member
      rw [← row_reached leads set plain (fun _ member => absurd member List.not_mem_nil) own run (met t held row member) joined,
        framesOn, joined, Option.isSome_map]
      rfl

/-- The values that are assigned in a frame, if there is one, are the row of the element that the frame shows. -/
theorem assigned_row {fields : List Projection} {hit : Option Frame} {env : Environment} :
    (hit.bind fun f => (project env f fields).toOption) =
      (hit.map ((fieldsShape fields).element m env)).bind Element.row? := by
  cases hit with
  | none => rfl
  | some f => exact (fieldsShape_row env f).symm

theorem update_reaches (leads : LeadsOn m db) {set : Lambda} (own : Query.ReadsOwn m (.map q (set.byColumn m)) {})
    (h : Step.Yields (mutationPlan m capabilities (.update q set)) {} plan w)
    (bound : plan.root.prune.Replaced (LiteralTable.Resolves ps) b) :
    ∃ s, b = .affected s ∧ (Mutation.update q set).Reaches m db ps s := by
  obtain ⟨s, v, table, e, list, fields, select, run, rooted, assigns, planned, rfl⟩ := update_yields h
  obtain ⟨plain, name, root, met⟩ := root_met db run rooted
  obtain ⟨source, -, known, -⟩ := rootTable_eq_ok rooted
  have leaves := leaves_of_assigned assigns known
  have names := assignedFields_names (against_yields.1 planned).1
  have planned := byColumn_against leaves planned
  cases bound with
  | affected write =>
    cases write with
    | update _ _ _ joins =>
      obtain rfl := JoinsResolve.tables (joins_tables planned (chain_filters plain run).2) (Join.resolves_of_pruneAll joins)
      refine ⟨_, rfl, by rw [assignedColumns, names, Lambda.columns, leaves], fun found changes here changed => ?_⟩
      have source : select.source = .table table := by
        rw [(against_yields.1 planned).2]
        exact source
      obtain ⟨t, held, joined, rfl⟩ := satisfyingRows_eq_ok source here
      obtain ⟨-, rfl⟩ := changesOf_located.1 changed
      refine ⟨name, t, root, held, located_congr fun row member => ?_⟩
      obtain ⟨frames, joined⟩ := joined row member
      -- the first frame of the row is the one that its assignment reads
      have reached := row_mapped leads root plain (fun _ member => absurd member List.not_mem_nil) own.1 run
        (met t held row member) (own.2 _ _ run) planned joined
      rw [assignedValues, assigned_row (m := m), framesOn, joined]
      exact (congrArg (Option.bind · Element.row?) reached).trans (Option.bind_assoc ..)

theorem projectAll_rows {fields : List Projection} {env : Environment} {frames : List Frame} {rows : List Row}
    (h : projectAll env fields frames = .ok rows) :
    rows.map some = frames.map fun f => ((fieldsShape fields).element m env f).row? := by
  induction frames generalizing rows with
  | nil =>
    obtain rfl := Except.ok.inj h
    rfl
  | cons f rest ih =>
    obtain ⟨row, here, h⟩ := bind_eq_ok.1 h
    obtain ⟨others, later, h⟩ := bind_eq_ok.1 h
    obtain rfl := Except.ok.inj h
    rw [List.map_cons, List.map_cons, ih later, fieldsShape_row, here]
    rfl

theorem insertInto_reaches (leads : LeadsOn m db) {target : String} (own : (Mutation.insertInto q target).ReadsOwn m)
    (h : Step.Yields (mutationPlan m capabilities (.insertInto q target)) {} plan w)
    (bound : plan.root.prune.Replaced (LiteralTable.Resolves ps) b) :
    ∃ s, b = .affected s ∧ (Mutation.insertInto q target).Reaches m db ps s := by
  obtain ⟨input, selector, e, list, s, v, fields, select, rfl, targeted, assigns, run, planned, rfl⟩ := insertInto_yields h
  obtain ⟨known, -⟩ := targetEntity_eq_ok targeted
  obtain rfl := name_of_entity? known
  have leaves := leaves_of_assigned assigns known
  have names := assignedFields_names (against_yields.1 planned).1
  have nonempty : fields ≠ [] := fun none => (assigned_eq_ok assigns).2.2 (by simpa [none] using names)
  -- the leaves of the initialiser are planned as a record of columns, like the lambda of a map
  have planned := byColumn_against leaves planned
  have sound : ({} : Workspace).Sound := fun _ member => absurd member List.not_mem_nil
  have gathering := map_gathered { parameters := ps } leads sound
    (query_gathered leads sound own.1 run) run (own.2 _ _ run) planned
  cases bound with
  | affected write =>
    cases write with
    | insertInto _ _ rows =>
      have single : select.union = none := by
        rw [(against_yields.1 planned).2]
        exact query_union run
      have compiled : ({ select with projection := fields } : Select).Compiles ps _ := Select.compiles_of_prune rows
      refine ⟨_, rfl, fun output selected => ?_⟩
      obtain ⟨frames, columns, delivered, made⟩ := selectRows_eq_ok (compiled.union single) selected
      obtain ⟨resolved⟩ := compiled
      have bound := Select.Resolves.of_clauses (s := select) resolved rfl rfl rfl
      rw [resolved.same] at delivered made
      obtain ⟨projected, named⟩ := outputOf_eq_ok nonempty made
      obtain ⟨_, _, c, -, gathers, -, found⟩ := gathering.delivered (.intro bound) delivered
      refine ⟨by rw [named, names, Lambda.columns, leaves], _, ⟨c, gathers, found⟩, ?_⟩
      rw [projectAll_rows (m := m) projected, List.map_map]
      rfl

/-! ## Upserts -/

theorem element_excluded (name : String) (columns : List String) (row : Row) (f : Frame) :
    (Shape.excluded name columns).element m { parameters := ps, incoming := some (columns, row) } f =
      .ofRow m name columns row := by
  unfold Shape.element Element.ofRow
  refine congrArg (Element.entity name) (List.map_congr_left fun c _ => congrArg (Prod.mk c) ?_)
  by_cases inside : c ∈ columns
  · rw [if_pos (List.contains_iff_mem.2 inside), eval]
    exact columnValue_toOption _ _ _ _ _
  · have none : columns.findIdx? (fun other => other == c) = none :=
      List.findIdx?_eq_none_iff.2 fun other member => beq_false_of_ne fun same => inside (same ▸ member)
    rw [if_neg (by simpa using inside), columnValue, none]
    rfl

theorem element_stored (env : Environment) (type : String) (t : Table) (label : String) (row : Row) (rest : Frame) :
    (Shape.entity { entity := type, label }).element m env ((RowSet.ofTable t label).visible row :: rest) =
      .ofRow m type t.columnNames row :=
  element_joined m env type (f := []) (b := (RowSet.ofTable t label).visible row) List.not_mem_nil rest

/-- The label of a table that is planned first is the start of no navigation that is remembered later. -/
theorem unread_table {x : Workspace} {e : Entity} (new : Step.Yields (newTable e) {} table v) (grows : v.Grows [] x) :
    ∀ entry ∈ x.navigations, entry.1.1 ∉ [table.label] := by
  obtain ⟨-, -, rfl⟩ := newTable_yields new
  intro entry member inside
  rcases grows.navigations entry member with before | none | fresh
  · exact absurd before List.not_mem_nil
  · exact absurd none List.not_mem_nil
  · exact fresh (List.mem_singleton.1 inside ▸ List.mem_append_right _ (List.mem_singleton_self _))

theorem sound_of_newTable {e : Entity} (new : Step.Yields (newTable e) {} table v) : v.Sound := by
  obtain ⟨-, -, rfl⟩ := newTable_yields new
  exact fun _ member => absurd member List.not_mem_nil

theorem incoming_reaches (leads : LeadsOn m db) {list : List Assignment} {insert : Lambda} {source : Option Query}
    {select bound : Option Select} {fields : List Projection} (sound : v.Sound)
    (leaves : insert.leaves m = list) (own : ∀ q ∈ source, Query.ReadsOwn m (.map q (insert.byColumn m)) v)
    (h : Step.Yields (upsertSource m mutation list insert source) v (select, fields) w)
    (rows : Option.Rel (Select.Compiles ps) select bound) {incoming : List Row}
    (found : incomingRows db { parameters := ps } bound fields = .ok incoming) :
    InsertedRows m db ps insert source (incoming.map some) := by
  rcases upsertSource_yields h with ⟨q, s, x, t, rfl, rfl, run, planned⟩ | ⟨rfl, rfl, run⟩
  · cases rows with
    | some rows =>
      obtain ⟨resolved⟩ := rows
      obtain ⟨fromQuery, mapped⟩ := own q rfl
      have planned := byColumn_against leaves planned
      obtain ⟨frames, selected, found⟩ := bind_eq_ok.1 found
      obtain ⟨all, keeps⟩ := keeps_of_selectFrames selected
      obtain ⟨c, gathers, represents⟩ := map_gathered { parameters := ps } leads sound
        (query_gathered leads sound fromQuery run) run (mapped _ _ run) planned _ _ _ resolved keeps.of_sift
      refine ⟨c, gathers, ?_⟩
      rw [projectAll_rows (m := m) found, represents.entries, List.map_map]
      rfl
  · cases rows with
    | none =>
      obtain ⟨row, projected, found⟩ := bind_eq_ok.1 found
      obtain rfl := Except.ok.inj found
      have unread : ∀ entry ∈ v.navigations, entry.1.1 ∉ ([] : List String) := fun _ _ => List.not_mem_nil
      -- without a source there is one row, which the initialiser writes on its own
      have written := standaloneFields_writes leads unread leaves
        (fun _ member => absurd member List.not_mem_nil) run { parameters := ps } []
      rw [projected] at written
      exact congrArg (fun row => [row]) written

theorem upsertSource_planned (leads : LeadsOn m db) {list : List Assignment} {insert : Lambda} {source : Option Query}
    {select : Option Select} {fields : List Projection} (sound : v.Sound) (leaves : insert.leaves m = list)
    (h : Step.Yields (upsertSource m mutation list insert source) v (select, fields) w) :
    assignedColumns fields = insert.columns m ∧ v.Grows [] w := by
  rw [assignedColumns, Lambda.columns, leaves]
  rcases upsertSource_yields h with ⟨q, s, x, t, rfl, rfl, run, planned⟩ | ⟨rfl, rfl, run⟩
  · have fromQuery := query_planned sound run
    have reads : Scope.Reads ((insert.byColumn m).params.zip [s.shape]) s.select.labels :=
      reads_zip (by simpa using fromQuery.shape)
    obtain ⟨behind, -⟩ := fromQuery.against reads (byColumn_against leaves planned)
    exact ⟨assignedFields_names (against_yields.1 planned).1, behind.planned.grows⟩
  · have unread : ∀ entry ∈ v.navigations, entry.1.1 ∉ ([] : List String) := fun _ _ => List.not_mem_nil
    obtain ⟨-, same⟩ := standaloneFields_record leads unread (reads_zip fun _ member => absurd member List.not_mem_nil) run insert.body
    rw [same]
    exact ⟨standaloneFields_names run, ⟨fun _ member => member, fun _ member => .inl member⟩⟩

theorem upsert_reaches (leads : LeadsOn m db) {target : String} {source : Option Query} {insert : Lambda}
    {update : Option Lambda} (own : (Mutation.upsert target source insert update).ReadsOwn m)
    (h : Step.Yields (upsert m mutation target source insert update) {} plan w)
    (bound : plan.root.prune.Replaced (LiteralTable.Resolves ps) b) :
    ∃ s, b = .affected s ∧ (Mutation.upsert target source insert update).Reaches m db ps s := by
  obtain ⟨e, table, v, list, key, select, fields, x, updated, columns, targeted, new, assigns, -, inserted, conflict, -, rfl⟩ :=
    upsert_yields h
  obtain ⟨known, -⟩ := targetEntity_eq_ok targeted
  obtain rfl := name_of_entity? known
  have leaves := leaves_of_assigned assigns known
  have own := own e table v known new
  have sound := sound_of_newTable new
  obtain ⟨named, grows⟩ := upsertSource_planned leads sound leaves inserted
  -- the conflict clause reads the stored row and the incoming one, and follows no navigation
  obtain ⟨clause, -⟩ := (conflictFields_yields conflict).writes leads (unread_table new grows) known (by simp [Shape.labels])
  cases bound with
  | affected write =>
    cases write with
    | upsert _ _ _ _ _ rows =>
      have compiled := Select.compiles_of_pruneOption rows
      refine ⟨_, rfl, named, fun incoming found => incoming_reaches leads sound leaves own inserted compiled found, ?_⟩
      refine rel_imp (fun l set assigns t row incoming => ?_) clause
      have assigns := assigns { parameters := ps, incoming := some (insert.columns m, incoming) }
        [(RowSet.ofTable t table.label).visible row]
      rw [show fields.map Projection.name = insert.columns m from named] at assigns
      -- neither row is a constant NULL
      have stored (r : EntityView) : (Shape.entity r).isNullAt = Nulls.none := isNullAt_of_nullFree trivial
      have excluded (e : String) (columns : List String) :
          (Shape.excluded e columns).isNullAt = Nulls.none := isNullAt_of_nullFree trivial
      simp only [List.map_cons, List.map_nil, element_stored, element_excluded, stored, excluded] at assigns
      exact assigns

/-! ## Merges -/

theorem merge_reaches (leads : LeadsOn m db) {target : String} {source : Query} {targetKey sourceKey : Lambda}
    {update insert : Option Lambda} {delete : Bool}
    (own : (Mutation.merge target source targetKey sourceKey update insert delete).ReadsOwn m)
    (h : Step.Yields (merge m capabilities mutation target source targetKey sourceKey update insert delete) {} plan w)
    (bound : plan.root.prune.Replaced (LiteralTable.Resolves ps) b) :
    ∃ s, b = .affected s ∧
      (Mutation.merge target source targetKey sourceKey update insert delete).Reaches m db ps s := by
  obtain ⟨e, table, v, s, u, rows, shape, x, left, y, right, z, on, matched, z', inserted, targeted, new, first, sourced, here,
    there, equality, updated, added, rfl⟩ := merge_yields h
  obtain ⟨known, -⟩ := targetEntity_eq_ok targeted
  obtain rfl := name_of_entity? known
  have sound := sound_of_newTable new
  have planned := (query_planned sound first).asSource sourced
  -- neither the labels of the table nor those of the rows start a navigation that is remembered
  have unread := unread_table new planned.grows
  have unreadRows : ∀ entry ∈ x.navigations, entry.1.1 ∉ [rows.label] := fun entry member inside =>
    planned.inScope.unread entry member (List.mem_singleton.1 inside)
  have unreadBoth : ∀ entry ∈ x.navigations, entry.1.1 ∉ [table.label, rows.label] := fun entry member inside =>
    (List.mem_pair.1 inside).elim (fun same => unread entry member (List.mem_singleton.2 same))
      (fun same => unreadRows entry member (List.mem_singleton.2 same))
  have apart : rows.label ≠ table.label := by
    obtain ⟨-, -, rfl⟩ := newTable_yields new
    exact fun same => planned.fresh _ (List.mem_singleton_self _) (same ▸ List.mem_append_right _ (List.mem_singleton_self _))
  have reads : ∀ k ∈ shape.labels, k = rows.label := fun k inside => List.mem_singleton.1 (planned.shape k inside)
  obtain ⟨still, -, targetKeys⟩ := standalone_gives leads here unread (by simp [Shape.labels])
  obtain ⟨still', -, sourceKeys⟩ := standalone_gives leads there (still ▸ unreadRows) (by simpa using reads)
  have same : z.navigations = x.navigations := still'.trans still
  obtain ⟨updates, still''⟩ := (clauseFields_yields updated).writes leads (same ▸ unreadBoth) known
    (by simpa [Shape.labels] using fun k inside => .inr (reads k inside))
  obtain ⟨inserts, -⟩ := (clauseFields_yields added).writes leads (still''.trans same ▸ unreadRows) known
    (by simpa using reads)
  cases bound with
  | affected write =>
    cases write with
    | merge _ _ _ _ _ given =>
      have given := Source.resolves_of_prune given
      refine ⟨_, rfl, fun rs found => ?_⟩
      obtain ⟨d, gathers, delivered, passed, -⟩ := asSource_elements { parameters := ps }
        (query_gathered leads sound (own e table v known new) first) (query_union first) sourced given found
      have label : rs.label = rows.label := (label_of_sourceRows found).trans (Source.Resolves.label given)
      have element (t : Table) (row r : Row) :
          shape.element m { parameters := ps } [(RowSet.ofTable t table.label).visible row, rs.visible r] =
            shape.element m { parameters := ps } [rs.visible r] :=
        element_last (f := [(RowSet.ofTable t table.label).visible row]) (b := rs.visible r)
          (fun inside => apart (label.symm.trans (List.mem_singleton.1 inside))) fun k inside => (reads k inside).trans label.symm
      have entity : (Shape.entity { entity := e.name, label := table.label }).isNullAt = Nulls.none :=
        isNullAt_of_nullFree trivial
      refine ⟨_, _, ⟨d, gathers, delivered, passed⟩, fun t row r => ?_, ?_, ?_⟩
      · let frame : Frame := [(RowSet.ofTable t table.label).visible row, rs.visible r]
        refine ⟨left.element m { parameters := ps } frame, right.element m { parameters := ps } frame, ?_, ?_, ?_⟩
        · have key := targetKeys { parameters := ps } frame
          simp only [List.map_cons, List.map_nil, frame, element_stored, entity] at key
          exact key
        · have key := sourceKeys { parameters := ps } frame
          simp only [List.map_cons, List.map_nil, frame, element] at key
          exact key
        · rw [passes_some, equality_value equality]
      · refine rel_imp (fun l set assigns t row r => ?_) updates
        have assigns := assigns { parameters := ps } [(RowSet.ofTable t table.label).visible row, rs.visible r]
        simp only [List.map_cons, List.map_nil, element_stored, element, entity] at assigns
        exact assigns
      · exact rel_imp (fun l set assigns r => assigns { parameters := ps } [rs.visible r]) inserts

end

end Planning

end Setwise
