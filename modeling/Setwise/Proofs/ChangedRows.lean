import Setwise.Proofs.Frames
import Setwise.Proofs.LocatedRows

/-!
The rows that deletes and updates change.

A select joins its sources to all rows of the first one at once; a delete and an update run the same joins again for
every row of their table, and stop at the first frame that satisfies the predicate. Joining is a nested loop whose outer
loops can be taken apart (`joinAll_flatMap`), so that the frames of the select are those of the rows one after the
other (`selectFrames_eq_flatMap`), and the row of a table is found with the first frame of the select that it starts
(`satisfyingFrom_located`). A delete removes exactly the rows that start a frame, and an update changes these in the
first such frame, before anything is written (`selected_rows_are_changed`).
-/

set_option autoImplicit false

namespace Setwise.Execution

open Relational

/-! ## Joins, one frame after the other -/

section

variable {db : Database} {env : Environment}

theorem extendFrame_of_mem {kind : JoinKind} {on : Option Scalar} {rs : RowSet} {frames found : List Frame}
    (h : extendFrames env kind on rs frames = .ok found) {f : Frame} (member : f ∈ frames) :
    extendFrame env kind on rs f = .ok (extensions env kind on rs f) := by
  induction frames generalizing found with
  | nil => cases member
  | cons g rest ih =>
    obtain ⟨here, first, h⟩ := bind_eq_ok.1 h
    obtain ⟨others, later, -⟩ := bind_eq_ok.1 h
    rcases List.mem_cons.1 member with rfl | behind
    · obtain ⟨rfl, -⟩ := extendFrame_eq_ok first
      exact first
    · exact ih later behind

theorem extendFrames_of_subset {kind : JoinKind} {on : Option Scalar} {rs : RowSet} {frames found some : List Frame}
    (h : extendFrames env kind on rs frames = .ok found) (subset : some ⊆ frames) :
    extendFrames env kind on rs some = .ok (some.flatMap (extensions env kind on rs)) := by
  induction some with
  | nil => rfl
  | cons f rest ih =>
    obtain ⟨inside, behind⟩ := List.cons_subset.1 subset
    exact bind_eq_ok.2 ⟨_, extendFrame_of_mem h inside, bind_eq_ok.2 ⟨_, ih behind, rfl⟩⟩

/-- Joins that succeed make frames of each frame on its own, whichever other frames there are. -/
theorem joinAll_flatMap {js : List (Join Select)} {frames found : List Frame} {columns : List String}
    (h : joinAll db env js frames = .ok (found, columns)) :
    ∃ joined : Frame → List Frame, ∀ some, some ⊆ frames →
      joinAll db env js some = .ok (some.flatMap joined, columns) := by
  induction js generalizing frames columns with
  | nil =>
    obtain ⟨rfl, rfl⟩ := joinAll_nil_eq_ok.1 h
    refine ⟨fun f => [f], fun some _ => joinAll_nil_eq_ok.2 ⟨?_, rfl⟩⟩
    simp
  | cons j rest ih =>
    obtain ⟨rs, middle, others, rows, extended, tail, rfl⟩ := joinAll_cons_eq_ok.1 h
    obtain ⟨joined, behind⟩ := ih tail
    refine ⟨fun f => (extensions env j.kind j.on rs f).flatMap joined, fun some subset => ?_⟩
    obtain ⟨rfl, -⟩ := extendFrames_eq_ok extended
    have within : some.flatMap (extensions env j.kind j.on rs) ⊆ frames.flatMap (extensions env j.kind j.on rs) := by
      intro g member
      obtain ⟨f, inside, made⟩ := List.mem_flatMap.1 member
      exact List.mem_flatMap.2 ⟨f, subset inside, made⟩
    have inner := behind _ within
    rw [List.flatMap_assoc] at inner
    exact joinAll_cons_eq_ok.2 ⟨rs, _, others, rows, extendFrames_of_subset extended subset, inner, rfl⟩

/-! ## The frames that rows start -/

def firstFrameOf (rs : RowSet) (frames : List Frame) (row : Row) : Option Frame :=
  frames.find? fun f => f.head? == some (rs.visible row)

def plainSelect (table : StoredTable) (joins : List (Join Select)) (predicate : Option Scalar) : Select :=
  { source := .table table, joins, predicate }

variable {table : StoredTable} {joins : List (Join Select)} {predicate : Option Scalar} {frames : List Frame}

/-- The frames of a select are those that satisfy its predicate behind the joins of one row after the other. -/
theorem selectFrames_eq_flatMap (h : selectFrames db env (plainSelect table joins predicate) = .ok frames) :
    ∃ t columns, ∃ joined : Row → List Frame, db.find? table.name = some t ∧
      (∀ row ∈ t.rows,
        joinAll db env joins [[(RowSet.ofTable t table.label).visible row]] = .ok (joined row, columns) ∧
        ∀ f ∈ joined row, holdsOption env f predicate = .ok (passes env predicate f)) ∧
      frames = t.rows.flatMap fun row => (joined row).filter (passes env predicate) := by
  obtain ⟨all, joinedAll, restricted⟩ := selectFrames_eq_ok.1 h
  obtain ⟨rs, columns, source, found⟩ := joinedFrames_eq_ok.1 joinedAll
  obtain ⟨t, stored, rfl⟩ := sourceRows_table source
  -- nothing is grouped, so that only the predicate restricts the frames
  obtain ⟨kept, filtered, rest⟩ := bind_eq_ok.1 restricted
  obtain ⟨_, same, rest⟩ := bind_eq_ok.1 rest
  obtain rfl := Except.ok.inj same
  obtain rfl := Except.ok.inj ((filterFrames_none kept).symm.trans rest)
  obtain ⟨rfl, evaluated⟩ := filterFrames_eq_ok filtered
  obtain ⟨joined, each⟩ := joinAll_flatMap found
  let heads := t.rows.map fun row => [(RowSet.ofTable t table.label).visible row]
  -- the joins are run once for all rows here, and once for each row by the statement
  have whole : all = heads.flatMap joined :=
    congrArg Prod.fst (Except.ok.inj (found.symm.trans (each heads (List.Subset.refl _))))
  refine ⟨t, columns, fun row => joined [(RowSet.ofTable t table.label).visible row], stored, fun row member => ?_, ?_⟩
  · have inside : [(RowSet.ofTable t table.label).visible row] ∈ heads := List.mem_map_of_mem member
    constructor
    · have alone := each [[(RowSet.ofTable t table.label).visible row]] (List.cons_subset.2 ⟨inside, List.nil_subset _⟩)
      rw [List.flatMap_singleton] at alone
      exact alone
    · intro f made
      apply evaluated
      rw [whole]
      exact List.mem_flatMap.2 ⟨_, inside, made⟩
  · rw [whole, List.filter_flatMap, List.flatMap_map]
    rfl

theorem firstFrame?_eq_find? (h : ∀ f ∈ frames, holdsOption env f predicate = .ok (passes env predicate f)) :
    firstFrame? env predicate frames = .ok (frames.find? (passes env predicate)) := by
  induction frames with
  | nil => rfl
  | cons f rest ih =>
    obtain ⟨here, later⟩ := List.forall_mem_cons.1 h
    unfold firstFrame?
    rw [here, List.find?_cons]
    cases passes env predicate f with
    | true => rfl
    | false => exact ih later

theorem firstFrameOf_flatMap {rs : RowSet} {own : Row → List Frame} {rows : List Row}
    (starts : ∀ row ∈ rows, ∀ f ∈ own row, f.head? = some (rs.visible row)) {row : Row} (member : row ∈ rows) :
    firstFrameOf rs (rows.flatMap own) row = (own row).head? := by
  unfold firstFrameOf
  induction rows with
  | nil => cases member
  | cons first rest ih =>
    obtain ⟨here, later⟩ := List.forall_mem_cons.1 starts
    rw [List.flatMap_cons, List.find?_append]
    by_cases same : first = row
    · -- the frames of the first row stand in front, and all of them start with it
      subst same
      have own? : (own first).find? (fun f => f.head? == some (rs.visible first)) = (own first).head? := by
        cases frames : own first with
        | nil => rfl
        | cons f _ =>
          rw [List.find?_cons_of_pos]
          · rfl
          · simpa using here f (by simp [frames])
      rw [own?]
      cases frames : own first with
      | cons f _ => rfl
      | nil =>
        -- the row starts no frame; neither does it where it stands again
        simp only [List.head?_nil, Option.none_or]
        by_cases again : first ∈ rest
        · rw [ih later again, frames]
          rfl
        · apply List.find?_eq_none.2
          intro g made starting
          obtain ⟨r, inside, made⟩ := List.mem_flatMap.1 made
          rw [later r inside g made] at starting
          have same : r = first := by simpa [RowSet.visible] using starting
          exact again (same ▸ inside)
    · have none : (own first).find? (fun f => f.head? == some (rs.visible row)) = none := by
        apply List.find?_eq_none.2
        intro f made starting
        rw [here f made] at starting
        exact same (by simpa [RowSet.visible] using starting)
      rw [none, Option.none_or]
      exact ih later ((List.mem_cons.1 member).resolve_left fun equal => same equal.symm)

theorem satisfyingRows_located (h : selectFrames db env (plainSelect table joins predicate) = .ok frames) :
    ∃ t, db.find? table.name = some t ∧
      satisfyingRows db env table joins predicate =
        .ok (located (firstFrameOf (.ofTable t table.label) frames) 0 t.rows) := by
  obtain ⟨t, columns, joined, stored, each, rfl⟩ := selectFrames_eq_flatMap h
  refine ⟨t, stored, ?_⟩
  let rs := RowSet.ofTable t table.label
  -- joins only put rows behind the one that a frame starts with
  have starts : ∀ row ∈ t.rows, ∀ f ∈ (joined row).filter (passes env predicate), f.head? = some (rs.visible row) := by
    intro row member f made
    obtain ⟨g, single, rest, rfl, -⟩ := joinAll_mem (each row member).1 (List.mem_of_mem_filter made)
    rw [List.mem_singleton.1 single]
    rfl
  have found (n : Nat) (rows : List Row) (inside : ∀ row ∈ rows, row ∈ t.rows) :
      satisfyingFrom db env rs joins predicate n rows = .ok (located (firstFrameOf rs
        (t.rows.flatMap fun row => (joined row).filter (passes env predicate))) n rows) := by
    induction rows generalizing n with
    | nil => rfl
    | cons row rest ih =>
      obtain ⟨member, behind⟩ := List.forall_mem_cons.1 inside
      obtain ⟨run, evaluated⟩ := each row member
      have first := firstFrameOf_flatMap starts member
      rw [List.head?_filter] at first
      unfold satisfyingFrom located
      rw [run, first]
      simp only [bind, Except.bind]
      rw [firstFrame?_eq_find? evaluated, ih (n + 1) behind]
      cases (joined row).find? (passes env predicate) <;> rfl
  unfold satisfyingRows
  rw [Database.get_eq_ok.2 stored]
  exact found 0 t.rows fun _ member => member

/-! ## What deletes and updates leave -/

/-- The row that an update leaves of a row: all assignments are evaluated in the frame that is found with the row, and
where none is found the row stays as it is. -/
def updatedRow (env : Environment) (t : Table) (set : List Projection) (found : Option Frame) (row : Row) :
    Except Error Row :=
  match found with
  | none => .ok row
  | some f => do
    let values ← project env f set
    (t.reassign (assignedColumns set) (some values) row).mapError .row

def UpdatedRows (env : Environment) (t : Table) (set : List Projection) (hit : Row → Option Frame)
    (rows rows' : List Row) : Prop :=
  List.Forall₂ (fun row row' => updatedRow env t set (hit row) row = .ok row') rows rows'

variable {t : Table} {set : List Projection} {hit : Row → Option Frame}

def assignedValues (env : Environment) (set : List Projection) (hit : Row → Option Frame) (row : Row) : Option Row :=
  (hit row).bind fun f => (project env f set).toOption

theorem changesOf_located {n : Nat} {rows : List Row} {changes : List (Nat × Row)} :
    changesOf env set (located hit n rows) = .ok changes ↔
      (∀ row ∈ rows, ∀ f, hit row = some f → ∃ values, project env f set = .ok values) ∧
        changes = located (assignedValues env set hit) n rows := by
  induction rows generalizing n changes with
  | nil =>
    unfold located changesOf
    simp [eq_comm]
  | cons row rest ih =>
    rw [List.forall_mem_cons]
    -- a row that is not hit changes nothing on either side
    cases found : hit row with
    | none =>
      have nothing : assignedValues env set hit row = none := by simp [assignedValues, found]
      rw [located_cons_none found, located_cons_none nothing, ih]
      simp
    | some f =>
      rw [located_cons_some found]
      constructor
      · intro h
        obtain ⟨values, here, h⟩ := bind_eq_ok.1 h
        obtain ⟨others, later, h⟩ := bind_eq_ok.1 h
        obtain rfl := pure_eq_ok.1 h
        obtain ⟨evaluated, rfl⟩ := ih.1 later
        have assigned : assignedValues env set hit row = some values := by
          simp [assignedValues, found, here, Except.toOption]
        rw [located_cons_some assigned]
        refine ⟨⟨?_, evaluated⟩, rfl⟩
        rintro _ ⟨⟩
        exact ⟨values, here⟩
      · rintro ⟨⟨here, evaluated⟩, rfl⟩
        obtain ⟨values, here⟩ := here f rfl
        have assigned : assignedValues env set hit row = some values := by
          simp [assignedValues, found, here, Except.toOption]
        rw [located_cons_some assigned]
        exact bind_eq_ok.2 ⟨values, here, bind_eq_ok.2 ⟨_, ih.2 ⟨evaluated, rfl⟩, rfl⟩⟩

theorem updatedRow_eq_ok {row row' : Row} :
    updatedRow env t set (hit row) row = .ok row' ↔
      (∀ f, hit row = some f → ∃ values, project env f set = .ok values) ∧
        t.reassign (assignedColumns set) (assignedValues env set hit row) row = .ok row' := by
  unfold updatedRow assignedValues
  cases hit row with
  | none => simp [Table.reassign]
  | some f =>
    cases projected : project env f set with
    | error e => simp [projected, bind, Except.bind]
    | ok values => simp [projected, bind, Except.bind, Except.toOption, mapError_eq_ok]

theorem updatedRows_iff {rows rows' : List Row} :
    UpdatedRows env t set hit rows rows' ↔
      (∀ row ∈ rows, ∀ f, hit row = some f → ∃ values, project env f set = .ok values) ∧
        List.Forall₂ (fun row row' =>
          t.reassign (assignedColumns set) (assignedValues env set hit row) row = .ok row') rows rows' := by
  unfold UpdatedRows
  simp only [updatedRow_eq_ok]
  exact List.forall₂_and_left _ _

end

section

variable {db : Database} {ps : Parameters} {table : StoredTable} {joins : List (Join Select)} {predicate : Option Scalar}
  {t : Table} {hit : Row → Option Frame}
variable (stored : db.find? table.name = some t)
variable (found : satisfyingRows db { parameters := ps } table joins predicate = .ok (located hit 0 t.rows))
include stored found

theorem delete_located :
    run db (.affected (.delete table predicate joins)) ps =
      completion db { t with rows := t.rows.filter fun row => (hit row).isNone }
        (t.rows.countP fun row => (hit row).isSome) := by
  have written := write_of_finds (t := t) (.delete found)
  rw [Changes.carryOut_assigned rfl, positions_of_located, Table.remove_positions] at written
  rw [run_of_write rfl stored written]
  simp [Changes.count, length_positions]

variable {set : List Projection} {rows : List Row}

theorem update_located (updated : UpdatedRows { parameters := ps } t set hit t.rows rows) :
    run db (.affected (.update table set predicate joins)) ps =
      completion db { t with rows } (t.rows.countP fun row => (hit row).isSome) := by
  obtain ⟨evaluated, changed⟩ := updatedRows_iff.1 updated
  have values : changesOf { parameters := ps } set (located hit 0 t.rows) =
      .ok (located (assignedValues { parameters := ps } set hit) 0 t.rows) := changesOf_located.2 ⟨evaluated, rfl⟩
  have counted : (t.rows.countP fun row => (assignedValues { parameters := ps } set hit row).isSome) =
      t.rows.countP fun row => (hit row).isSome := by
    apply List.countP_congr
    intro row member
    cases here : hit row with
    | none => simp [assignedValues, here]
    | some f =>
      obtain ⟨values, computed⟩ := evaluated row member f here
      simp [assignedValues, here, computed, Except.toOption]
  have written := write_of_finds (t := t) (.update found values)
  rw [Changes.carryOut_assigned (Table.assignEach_located.2 ⟨rows, changed, rfl⟩), Table.remove_none] at written
  rw [run_of_write rfl stored written]
  simp [Changes.count, length_located, counted]

theorem update_stuck (stuck : ¬∃ rows, UpdatedRows { parameters := ps } t set hit t.rows rows) :
    ∃ e, run db (.affected (.update table set predicate joins)) ps = (.error e, db) := by
  cases values : changesOf { parameters := ps } set (located hit 0 t.rows) with
  | error e =>
    refine ⟨e, run_of_failed_write rfl stored ?_⟩
    unfold write
    dsimp only
    rw [found, Write.ofResult_ok, pure_bind]
    apply Write.bind_fails
    rw [values]
    rfl
  | ok changes =>
    obtain ⟨evaluated, rfl⟩ := changesOf_located.1 values
    have written := write_of_finds (t := t) (.update found values)
    cases assigned : t.assignEach (assignedColumns set) (located (assignedValues { parameters := ps } set hit) 0 t.rows) with
    | error e =>
      refine ⟨.row e, run_of_failed_write rfl stored ?_⟩
      rw [written]
      exact Changes.carryOut_unassigned assigned
    | ok u =>
      obtain ⟨rows, changed, -⟩ := Table.assignEach_located.1 assigned
      exact absurd ⟨rows, updatedRows_iff.2 ⟨evaluated, changed⟩⟩ stuck

end

/-- Where the select over a table, joins and a predicate has frames, a delete removes exactly the rows of the table that
start one of them, and an update changes these, each by the first frame that it starts. Every such row counts once. An
update whose assignments cannot all be evaluated and stored leaves the database as it was. -/
theorem selected_rows_are_changed {db : Database} {ps : Parameters} {table : StoredTable} {joins : List (Join Select)}
    {predicate : Option Scalar} {frames : List Frame}
    (selected : selectFrames db { parameters := ps } (plainSelect table joins predicate) = .ok frames) :
    ∃ t, db.find? table.name = some t ∧
      let hit := firstFrameOf (.ofTable t table.label) frames
      let affected := t.rows.countP fun row => (hit row).isSome
      run db (.affected (.delete table predicate joins)) ps =
          completion db { t with rows := t.rows.filter fun row => (hit row).isNone } affected ∧
        ∀ set,
          (∀ rows, UpdatedRows { parameters := ps } t set hit t.rows rows →
            run db (.affected (.update table set predicate joins)) ps = completion db { t with rows } affected) ∧
          ((¬∃ rows, UpdatedRows { parameters := ps } t set hit t.rows rows) →
            ∃ e, run db (.affected (.update table set predicate joins)) ps = (.error e, db)) := by
  obtain ⟨t, stored, found⟩ := satisfyingRows_located selected
  refine ⟨t, stored, delete_located stored found, fun set => ⟨fun rows updated => ?_, fun stuck => ?_⟩⟩
  · exact update_located stored found updated
  · exact update_stuck stored found stuck

/-- The items to which amounts are delivered; to the first one twice, and to one that is not there. -/
def deliveries : Join Select :=
  { kind := .inner
    source := .literal ⟨"d", ["Item", "Amount"], .immediate [[.constant (.int 1), .constant (.int 7)],
      [.constant (.int 1), .constant (.int 8)], [.constant (.int 9), .constant (.int 6)]]⟩
    on := some (.binary (.column "i" "Id") .equal (.column "d" "Item")) }

/-- The first item has two deliveries. It is changed once, by the first one, and its new number is the value that it has
had before; the second item stays. -/
theorem delivered_item_changed_once :
    run twoItems (.affected (.update ⟨"Items", none, "i"⟩
        [⟨"Value", .column "d" "Amount"⟩, ⟨"Id", .column "i" "Value"⟩] none [deliveries])) {} =
      (.ok (.affected 1), twoItems.put { itemsTable with rows := [[.int 10, .int 7], [.int 2, .null]] }) := by
  let frame (amount : Int) : Frame :=
    [⟨"i", ["Id", "Value"], [.int 1, .int 10]⟩, ⟨"d", ["Item", "Amount"], [.int 1, .int amount]⟩]
  have selected : selectFrames twoItems { parameters := {} } (plainSelect ⟨"Items", none, "i"⟩ [deliveries] none) =
      .ok [frame 7, frame 8] := by decide
  obtain ⟨t, stored, -, updates⟩ := selected_rows_are_changed selected
  obtain rfl : itemsTable = t := Option.some.inj stored
  refine ((updates _).1 [[.int 10, .int 7], [.int 2, .null]] ?_).trans (by rfl)
  exact .cons (by rfl) (.cons (by rfl) .nil)

end Setwise.Execution
