import Mathlib.Data.List.Forall2
import Setwise.Model.Storage
import Setwise.Proofs.Comparison
import Setwise.Proofs.Results
import Setwise.Proofs.Writing

/-!
Integrity of databases held in memory.

Rows fit their columns after every single operation on a table, because each one validates what it stores.
Keys are another matter: assignments leave repetitions behind, and only the check at the end of a
statement, or the table put back in its place, restores their uniqueness. Both together hold after every
block (`run_wellFormed`), and so after every sequence of blocks (`blocks_keep_integrity`).
-/

set_option autoImplicit false

namespace Setwise

def Column.Holds (c : Column) (v : Value) : Prop :=
  if v = .null then c.nullable = true else v.type? = some c.type

def Table.RowsFit (t : Table) : Prop :=
  ∀ r ∈ t.rows, List.Forall₂ Column.Holds t.columns r

def Table.KeysUnique (t : Table) : Prop :=
  ∀ key ∈ t.keys, key.columns ≠ [] →
    ∀ (i j : Nat) (a b : Row), i ≠ j → t.rows[i]? = some a → t.rows[j]? = some b →
      Table.agreeOn key.columns a b = false

/-- The rows of a table fit its columns and repeat no key. -/
structure Table.WellFormed (t : Table) : Prop where
  rowsFit : t.RowsFit
  keysUnique : t.KeysUnique

/-- Every table is found under its own name and is well formed. -/
structure Database.WellFormed (db : Database) : Prop where
  ownName : ∀ t ∈ db.tables, db.find? t.name = some t
  tables : ∀ (name : String) (t : Table), db.find? name = some t → t.name = name ∧ t.WellFormed

/-! ## Rows fit their columns -/

theorem Value.type?_of_cast? {v stored : Value} {type : ColumnType} (h : v.cast? type = some stored)
    (present : stored ≠ .null) : stored.type? = some type := by
  cases v <;> cases type <;> grind [Value.cast?, Value.type?]

theorem Column.holds_of_accept {c : Column} {v stored : Value} (h : c.accept v = .ok stored) :
    c.Holds stored := by
  unfold Column.accept at h
  unfold Column.Holds
  split at h
  · cases h
  next allowed =>
    split at h
    next w cast =>
      obtain rfl := Except.ok.inj h
      split
      next absent =>
        -- only NULL is stored as NULL
        have null : v = .null := by cases v <;> cases hc : c.type <;> grind [Value.cast?, Value.type?]
        simpa [null, Value.isNull] using allowed
      next present => exact Value.type?_of_cast? cast present
    next => cases h

theorem holds_of_acceptAll {columns : List Column} {row stored : Row}
    (length : row.length = columns.length) (h : acceptAll columns row = .ok stored) :
    List.Forall₂ Column.Holds columns stored := by
  induction columns generalizing row stored with
  | nil =>
    obtain rfl := Except.ok.inj h
    exact .nil
  | cons c cs ih =>
    cases row with
    | nil => simp at length
    | cons v vs =>
      obtain ⟨w, accepted, h⟩ := bind_eq_ok.1 h
      obtain ⟨ws, others, h⟩ := bind_eq_ok.1 h
      obtain rfl := pure_eq_ok.1 h
      exact .cons (Column.holds_of_accept accepted) (ih (by simpa using length) others)

namespace Table

theorem holds_of_validate {t : Table} {row stored : Row} (h : t.validate row = .ok stored) :
    List.Forall₂ Column.Holds t.columns stored := by
  unfold validate acceptRow at h
  split at h
  next accepted result =>
    obtain rfl := Except.ok.inj h
    split at result
    next length => exact holds_of_acceptAll length result
    next => cases result
  next => cases h

/-! ## Operations on a table -/

theorem setNamed_rows (t : Table) (rows : List Row) (row : Row) (values : List (String × Value)) :
    ({ t with rows } : Table).setNamed row values = t.setNamed row values := by
  induction values generalizing row with
  | nil => rfl
  | cons v rest ih =>
    unfold setNamed
    simp only [ih]
    rfl

theorem insert_eq_ok {t u : Table} {values : List (String × Value)} (h : t.insert values = .ok u) :
    ∃ row, t.append row = .ok u := by
  obtain ⟨row, -, h⟩ := bind_eq_ok.1 h
  exact ⟨row, h⟩

theorem append_eq_ok {t u : Table} {row : Row} (h : t.append row = .ok u) :
    ∃ stored next, t.validate row = .ok stored ∧
      u = { t with rows := t.rows ++ [stored], nextIdentity := next } := by
  obtain ⟨stored, valid, h⟩ := bind_eq_ok.1 h
  split at h
  next => cases h
  next =>
    obtain ⟨next, -, h⟩ := bind_eq_ok.1 h
    exact ⟨stored, next, valid, (pure_eq_ok.1 h).symm⟩

theorem assign_eq_ok {t u : Table} {index : Nat} {values : List (String × Value)}
    (h : t.assign index values = .ok u) :
    ∃ row changed stored, t.rows[index]? = some row ∧ t.setNamed row values = .ok changed ∧
      t.validate changed = .ok stored ∧ u = { t with rows := t.rows.set index stored } := by
  unfold assign at h
  split at h
  next => cases h
  next row found =>
    obtain ⟨changed, named, h⟩ := bind_eq_ok.1 h
    obtain ⟨stored, valid, h⟩ := bind_eq_ok.1 h
    exact ⟨row, changed, stored, found, named, valid, (pure_eq_ok.1 h).symm⟩

theorem remove_none (t : Table) : t.remove [] = t := by
  simp [remove]

theorem mem_of_mem_remove {t : Table} {indices : List Nat} {r : Row} (h : r ∈ (t.remove indices).rows) :
    r ∈ t.rows := by
  obtain ⟨⟨r, i⟩, member, rfl⟩ := List.mem_map.1 h
  exact List.fst_mem_of_mem_zipIdx (List.mem_filter.1 member).1

theorem append_rowsFit {t u : Table} {row : Row} (h : t.append row = .ok u) (fit : t.RowsFit) : u.RowsFit := by
  obtain ⟨stored, next, valid, rfl⟩ := append_eq_ok h
  intro r member
  rcases List.mem_append.1 member with old | new
  · exact fit r old
  · obtain rfl := List.mem_singleton.1 new
    exact holds_of_validate valid

theorem rowsFit_kept (name : String) : KeptByWrites fun t => t.name = name ∧ t.RowsFit where
  insert := by
    rintro t u values h ⟨named, fit⟩
    obtain ⟨row, h⟩ := insert_eq_ok h
    have fit := append_rowsFit h fit
    obtain ⟨stored, next, -, rfl⟩ := append_eq_ok h
    exact ⟨named, fit⟩
  assign := by
    rintro t u index values h ⟨named, fit⟩
    obtain ⟨_, row, stored, -, -, valid, rfl⟩ := assign_eq_ok h
    refine ⟨named, fun r member => ?_⟩
    rcases List.mem_or_eq_of_mem_set member with old | rfl
    · exact fit r old
    · exact holds_of_validate valid
  remove := fun _ h => ⟨h.1, fun r member => h.2 r (mem_of_mem_remove member)⟩
  clear := fun h => ⟨h.1, fun _ member => nomatch member⟩

/-! ## Keys are unique once they have been checked -/

theorem agreeOn_comm (columns : List Nat) (a b : Row) : agreeOn columns a b = agreeOn columns b a := by
  unfold agreeOn
  congr 1
  funext c
  cases a[c]? <;> cases b[c]? <;> first | rfl | exact Value.equates_comm _ _

theorem pairwise_of_firstRepeat? {t : Table} {rows : List Row} (h : t.firstRepeat? rows = none) :
    rows.Pairwise fun a b => t.commonKey? a b = none := by
  induction rows with
  | nil => exact .nil
  | cons a rest ih =>
    simp only [firstRepeat?] at h
    split at h
    next => cases h
    next alone => exact .cons (List.findSome?_eq_none_iff.1 alone) (ih h)

theorem keysUnique_of_checkUnique {t : Table} (h : t.checkUnique = .ok ()) : t.KeysUnique := by
  have distinct : t.rows.Pairwise fun a b => t.commonKey? a b = none := by
    unfold checkUnique at h
    split at h
    next => cases h
    next none => exact pairwise_of_firstRepeat? none
  have apart {key : UniqueKey} (member : key ∈ t.keys) (columns : key.columns ≠ []) {i j : Nat}
      {a b : Row} (before : i < j) (first : t.rows[i]? = some a) (second : t.rows[j]? = some b) :
      agreeOn key.columns a b = false := by
    obtain ⟨hi, rfl⟩ := List.getElem?_eq_some_iff.1 first
    obtain ⟨hj, rfl⟩ := List.getElem?_eq_some_iff.1 second
    have none := List.pairwise_iff_getElem.1 distinct i j hi hj before
    have := List.find?_eq_none.1 none key member
    simpa [columns] using this
  intro key member columns i j a b different first second
  rcases Nat.lt_or_gt_of_ne different with before | after
  · exact apart member columns before first second
  · rw [agreeOn_comm]
    exact apart member columns after second first

end Table


/-! ## Databases -/

namespace Database

theorem name_of_find? {db : Database} {name : String} {t : Table} (h : db.find? name = some t) :
    t.name = name := by
  simpa using List.find?_some h

theorem mem_of_find? {db : Database} {name : String} {t : Table} (h : db.find? name = some t) :
    t ∈ db.tables :=
  List.mem_of_find?_eq_some h

theorem find?_of_mem {db : Database} {t : Table} (h : t ∈ db.tables) : db.find? t.name = some t := by
  have ascending := db.ascending
  unfold find?
  generalize db.tables = ts at h ascending
  induction ts with
  | nil => cases h
  | cons u rest ih =>
    obtain ⟨first, others⟩ := List.pairwise_cons.1 ascending
    rcases List.mem_cons.1 h with rfl | later
    · simp
    · have different : ¬ u.name = t.name := String.ne_of_lt (first t later)
      rw [List.find?_cons_of_neg (by simpa using different)]
      exact ih later others

theorem wellFormed_of_tables {db : Database} (h : ∀ t ∈ db.tables, t.WellFormed) : db.WellFormed where
  ownName := fun _ => find?_of_mem
  tables := fun _ _ found => ⟨name_of_find? found, h _ (mem_of_find? found)⟩

theorem WellFormed.table {db : Database} (h : db.WellFormed) {t : Table} (member : t ∈ db.tables) :
    t.WellFormed :=
  (h.tables _ t (h.ownName t member)).2

theorem WellFormed.put {db : Database} (h : db.WellFormed) {t : Table} (ht : t.WellFormed) :
    (db.put t).WellFormed := by
  refine wellFormed_of_tables fun u member => ?_
  rcases mem_insertSorted member with rfl | old
  · exact ht
  · exact h.table old

theorem mem_of_mem_ofTables {ts : List Table} {t : Table} (h : t ∈ (ofTables ts).tables) : t ∈ ts := by
  have folded (ts : List Table) (db : Database) (member : t ∈ (ts.foldl put db).tables) : t ∈ ts ∨ t ∈ db.tables := by
    induction ts generalizing db with
    | nil => exact .inr member
    | cons u rest ih =>
      rcases ih _ member with later | before
      · exact .inl (List.mem_cons_of_mem _ later)
      · rcases mem_insertSorted before with rfl | old
        · exact .inl List.mem_cons_self
        · exact .inr old
  exact (folded ts {} h).resolve_right fun member => nomatch member

theorem get_eq_ok {db : Database} {name : String} {t : Table} :
    db.get name = .ok t ↔ db.find? name = some t := by
  unfold get
  cases db.find? name <;> simp

theorem insertSorted_twice {t u : Table} (same : t.name = u.name) (ts : List Table) :
    insertSorted u (insertSorted t ts) = insertSorted u ts := by
  induction ts with
  | nil => simp [insertSorted, same]
  | cons v rest ih =>
    simp only [insertSorted, same]
    split
    · simp [insertSorted, same]
    · split
      · simp [insertSorted, same]
      · simp [insertSorted, *]

theorem put_put {t u : Table} (same : t.name = u.name) (db : Database) :
    (db.put t).put u = db.put u := by
  simp only [put, insertSorted_twice same]

end Database

theorem Model.wellFormed_tableOf (m : Model) (e : Entity) : (m.tableOf e).WellFormed where
  rowsFit := fun _ member => nomatch member
  keysUnique := fun _ _ _ _ _ _ _ _ found => nomatch found

theorem Model.wellFormed_database (m : Model) : m.database.WellFormed := by
  refine Database.wellFormed_of_tables fun t member => ?_
  obtain ⟨e, -, rfl⟩ := List.mem_map.1 (Database.mem_of_mem_ofTables member)
  exact m.wellFormed_tableOf e

namespace Execution

open Relational

theorem wellFormed_of_writeChecked {db : Database} {ps : Parameters} {s : Statement} {t u : Table}
    {n : Nat} (fit : t.RowsFit) (h : (writeChecked db ps s).run t = (.ok n, u)) : u.WellFormed := by
  have kept := writeChecked_keeps (Table.rowsFit_kept t.name) db ps s t ⟨rfl, fit⟩
  rw [h] at kept
  exact ⟨kept.2, Table.keysUnique_of_checkUnique (writeChecked_eq_ok.1 h).2⟩

theorem runWrite_wellFormed {db : Database} (h : db.WellFormed) (s : Statement) (ps : Parameters) :
    (runWrite db s ps).2.WellFormed := by
  unfold runWrite
  split
  next => exact h
  next name target =>
    split
    next => exact h
    next before found =>
      obtain ⟨_, wellFormed⟩ := h.tables name before (Database.get_eq_ok.1 found)
      have kept := writeChecked_keeps (Table.rowsFit_kept before.name) db ps s before
        ⟨rfl, wellFormed.rowsFit⟩
      cases result : (writeChecked db ps s).run before with
      | mk outcome after =>
        rw [result] at kept
        cases outcome with
        | ok n => exact h.put (wellFormed_of_writeChecked wellFormed.rowsFit result)
        | error e =>
          -- what the statement has left of its table is overwritten
          change ((db.put after).put before).WellFormed
          rw [Database.put_put kept.1]
          exact h.put wellFormed

/-- Every block leaves a well-formed database. -/
theorem run_wellFormed {db : Database} (h : db.WellFormed) (b : Block) (ps : Parameters) :
    (run db b ps).2.WellFormed := by
  cases b with
  | select s => exact h
  | affected s => exact runWrite_wellFormed h s ps

/-- The database after some blocks have run one after the other, each with its parameters, and whether
they succeed or fail. -/
def runAll (db : Database) (blocks : List (Block × Parameters)) : Database :=
  blocks.foldl (fun db (b, ps) => (run db b ps).2) db

/-- A block leaves a well-formed database as one, whether it succeeds or fails; therefore every database
is well formed that some blocks leave of the empty database of a model. -/
theorem blocks_keep_integrity :
    (∀ (db : Database) (b : Block) (ps : Parameters), db.WellFormed → (run db b ps).2.WellFormed) ∧
      ∀ (m : Model) (blocks : List (Block × Parameters)), (runAll m.database blocks).WellFormed := by
  refine ⟨fun _ b ps h => run_wellFormed h b ps, fun m blocks => ?_⟩
  have fold (db : Database) (h : db.WellFormed) : (runAll db blocks).WellFormed := by
    induction blocks generalizing db with
    | nil => exact h
    | cons step rest ih => exact ih _ (run_wellFormed h step.1 step.2)
  exact fold _ m.wellFormed_database

def twoItems : Database :=
  Database.ofTables [{
    name := "Items"
    columns := [⟨"Id", .integer, false⟩, ⟨"Value", .integer, true⟩]
    identity := some 0
    keys := [⟨"PK_Items", [0]⟩]
    nextIdentity := 3
    rows := [[.int 1, .int 10], [.int 2, .null]] }]

theorem twoItems_wellFormed : twoItems.WellFormed := by
  refine Database.wellFormed_of_tables fun t member => ?_
  obtain rfl := List.mem_singleton.1 member
  refine ⟨fun r stored => ?_, Table.keysUnique_of_checkUnique (by decide)⟩
  simp only [List.mem_cons, List.not_mem_nil, or_false] at stored
  rcases stored with rfl | rfl <;> simp [Column.Holds, Value.type?]

def collapseNumbers : Block :=
  .affected (.update ⟨"Items", none, "i"⟩ [⟨"Id", .constant (.bool true)⟩] none [])

/-- The assignments repeat a key, so the statement fails, and leaves what it has found. -/
theorem integrity_after_violation :
    twoItems.WellFormed ∧
      (run twoItems collapseNumbers {}).1 =
        .error (.row (.keyViolation "Items" "PK_Items" [.int 1])) ∧
      (run twoItems collapseNumbers {}).2.WellFormed :=
  ⟨twoItems_wellFormed, by decide,
    blocks_keep_integrity.1 twoItems collapseNumbers {} twoItems_wellFormed⟩

end Execution

end Setwise
