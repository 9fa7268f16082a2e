import Setwise.Proofs.Atomicity

/-!
Keys at the end of a statement.

A delete, an update, an insert of the rows of a select and a merge read everything before they write (`Finds`). What
they write comes in three parts: assignments, which check no key, removals, and insertions, which refuse a row that
repeats a key. Behind an insertion there are only further insertions, so that a row that is refused would repeat its key
in the end as well. Such a statement fails by its keys exactly when the table that its changes lead to without any check
(`Changes.apply`) repeats one (`keys_judged_in_the_end`).
-/

set_option autoImplicit false

namespace Setwise

namespace Table

/-! ## Writes that check no key -/

def insertUnchecked (t : Table) (values : List (String × Value)) : Except Error Table := do
  let row ← t.setNamed t.blankRow values
  let stored ← t.validate row
  let next ← t.identityAfter stored
  return { t with rows := t.rows ++ [stored], nextIdentity := next }

def insertEach (columns : List String) (t : Table) : List Row → Except Error Table
  | [] => .ok t
  | r :: rest => do
    let u ← t.insertUnchecked (columns.zip r)
    insertEach columns u rest

def assignEach (columns : List String) (t : Table) : List (Nat × Row) → Except Error Table
  | [] => .ok t
  | (i, r) :: rest => do
    let u ← t.assign i (columns.zip r)
    assignEach columns u rest

/-! ## Checked keys -/

variable {t u F : Table}

theorem commonKey?_eq_none {a b : Row} :
    t.commonKey? a b = none ↔ ∀ key ∈ t.keys, key.columns ≠ [] → agreeOn key.columns a b = false := by
  unfold commonKey?
  rw [List.find?_eq_none]
  refine forall₂_congr fun key _ => ?_
  simp

theorem keysUnique_iff_pairwise : t.KeysUnique ↔ t.rows.Pairwise fun a b => t.commonKey? a b = none := by
  rw [List.pairwise_iff_getElem]
  constructor
  · intro unique i j hi hj before
    apply commonKey?_eq_none.2
    intro key member columns
    exact unique key member columns i j _ _ (by omega) (List.getElem?_eq_getElem hi) (List.getElem?_eq_getElem hj)
  · intro apart key member columns i j a b different first second
    obtain ⟨hi, rfl⟩ := List.getElem?_eq_some_iff.1 first
    obtain ⟨hj, rfl⟩ := List.getElem?_eq_some_iff.1 second
    rcases Nat.lt_or_gt_of_ne different with before | after
    · exact commonKey?_eq_none.1 (apart i j hi hj before) key member columns
    · rw [agreeOn_comm]
      exact commonKey?_eq_none.1 (apart j i hj hi after) key member columns

theorem firstRepeat?_of_pairwise {rows : List Row} (h : rows.Pairwise fun a b => t.commonKey? a b = none) :
    t.firstRepeat? rows = none := by
  induction h with
  | nil => rfl
  | cons first _ ih =>
    unfold firstRepeat?
    rw [List.findSome?_eq_none_iff.2 first]
    exact ih

theorem checkUnique_cases (t : Table) :
    (t.KeysUnique ∧ t.checkUnique = .ok ()) ∨
      (¬t.KeysUnique ∧ ∃ key values, t.checkUnique = .error (.keyViolation t.name key values)) := by
  by_cases unique : t.KeysUnique
  · left
    refine ⟨unique, ?_⟩
    unfold checkUnique
    rw [firstRepeat?_of_pairwise (keysUnique_iff_pairwise.1 unique)]
  · right
    refine ⟨unique, ?_⟩
    cases repeated : t.firstRepeat? t.rows with
    | none => exact absurd (keysUnique_iff_pairwise.2 (pairwise_of_firstRepeat? repeated)) unique
    | some found =>
      have fails : t.checkUnique = .error (t.violation found.1 found.2) := by
        unfold checkUnique
        rw [repeated]
      exact ⟨_, _, fails⟩

/-! ## Checked insertions -/

theorem insertUnchecked_eq_ok {values : List (String × Value)} (h : t.insertUnchecked values = .ok u) :
    ∃ row stored next, t.setNamed t.blankRow values = .ok row ∧ t.validate row = .ok stored ∧
      t.identityAfter stored = .ok next ∧ u = { t with rows := t.rows ++ [stored], nextIdentity := next } := by
  obtain ⟨row, named, h⟩ := bind_eq_ok.1 h
  obtain ⟨stored, valid, h⟩ := bind_eq_ok.1 h
  obtain ⟨next, counter, h⟩ := bind_eq_ok.1 h
  exact ⟨row, stored, next, named, valid, counter, (pure_eq_ok.1 h).symm⟩

theorem keysUnique_of_insertUnchecked {values : List (String × Value)} (h : t.insertUnchecked values = .ok u)
    (unique : u.KeysUnique) : t.KeysUnique := by
  obtain ⟨_, stored, next, -, -, -, rfl⟩ := insertUnchecked_eq_ok h
  exact keysUnique_iff_pairwise.2 (List.pairwise_append.1 (keysUnique_iff_pairwise.1 unique)).1

theorem keysUnique_of_insertEach {columns : List String} {rows : List Row} (h : t.insertEach columns rows = .ok F)
    (unique : F.KeysUnique) : t.KeysUnique := by
  induction rows generalizing t with
  | nil =>
    obtain rfl := Except.ok.inj h
    exact unique
  | cons r rest ih =>
    obtain ⟨u, first, last⟩ := bind_eq_ok.1 h
    exact keysUnique_of_insertUnchecked first (ih last)

theorem insert_cases {values : List (String × Value)} (h : t.insertUnchecked values = .ok u) :
    t.insert values = .ok u ∨
      ((∃ key given, t.insert values = .error (.keyViolation t.name key given)) ∧ ¬u.KeysUnique) := by
  obtain ⟨row, stored, next, named, valid, counter, rfl⟩ := insertUnchecked_eq_ok h
  unfold insert append
  rw [named]
  change (t.validate row >>= _) = _ ∨ (∃ key given, (t.validate row >>= _) = _) ∧ _
  rw [valid]
  dsimp only [bind, Except.bind]
  rw [counter]
  cases common : t.rows.findSome? fun r => t.commonKey? r stored with
  | none =>
    left
    rfl
  | some key =>
    right
    refine ⟨⟨key.name, _, rfl⟩, ?_⟩
    intro unique
    -- the refused row stands behind the row that it shares the key with
    obtain ⟨r, member, shared⟩ := List.exists_of_findSome?_eq_some common
    have apart := (List.pairwise_append.1 (keysUnique_iff_pairwise.1 unique)).2.2 r member stored (by simp)
    have none : t.commonKey? r stored = none := apart
    rw [none] at shared
    cases shared

end Table

namespace Execution

open Relational

variable {t F : Table}

/-! ## Carrying out changes -/

theorem Write.run_get_bind {α : Type} (f : Table → Write α) (t : Table) : (get >>= f).run t = (f t).run t := by
  rw [run_bind, run_get]

theorem Write.bind_fails {α β : Type} {x : Write α} {f : α → Write β} {e : Error} (failed : (x.run t).1 = .error e) :
    ((x >>= f).run t).1 = .error e := by
  rw [run_bind]
  revert failed
  rcases x.run t with ⟨e | a, u⟩
  · rintro ⟨⟩
    rfl
  · intro succeeded
    cases succeeded

@[simp] theorem Write.ofResult_ok {α : Type} (a : α) : Write.ofResult (.ok a) = pure a :=
  rfl

@[simp] theorem Write.modify_id : (modify fun t => t : Write PUnit) = pure ⟨⟩ :=
  rfl

theorem change_eq_ok {f : Table → Except Table.Error Table} {u : Table} (h : f t = .ok u) :
    (Write.change f).run t = (.ok (), u) := by
  rw [Write.run_change, h]

theorem change_eq_error {f : Table → Except Table.Error Table} {e : Table.Error} (h : f t = .error e) :
    (Write.change f).run t = (.error (.row e), t) := by
  rw [Write.run_change, h]

theorem assignAll_eq_ok {columns : List String} {changes : List (Nat × Row)} {u : Table}
    (h : t.assignEach columns changes = .ok u) : (Write.assignAll columns changes).run t = (.ok (), u) := by
  induction changes generalizing t with
  | nil =>
    obtain rfl := Except.ok.inj h
    rfl
  | cons c rest ih =>
    obtain ⟨v, first, last⟩ := bind_eq_ok.1 h
    unfold Write.assignAll
    rw [Write.run_bind, change_eq_ok first]
    exact ih last

theorem assignAll_eq_error {columns : List String} {changes : List (Nat × Row)} {e : Table.Error}
    (h : t.assignEach columns changes = .error e) : ((Write.assignAll columns changes).run t).1 = .error (.row e) := by
  induction changes generalizing t with
  | nil => cases h
  | cons c rest ih =>
    unfold Write.assignAll
    rw [Write.run_bind]
    rcases bind_eq_error.1 h with first | ⟨v, first, later⟩
    · rw [change_eq_error first]
    · rw [change_eq_ok first]
      exact ih later

theorem insertAll_cases {columns : List String} {rows : List Row} (h : t.insertEach columns rows = .ok F) :
    (Write.insertAll columns rows).run t = (.ok (), F) ∨
      ((∃ table key values, ((Write.insertAll columns rows).run t).1 = .error (.row (.keyViolation table key values))) ∧
        ¬F.KeysUnique) := by
  induction rows generalizing t with
  | nil =>
    obtain rfl := Except.ok.inj h
    left
    rfl
  | cons r rest ih =>
    obtain ⟨u, first, last⟩ := bind_eq_ok.1 h
    unfold Write.insertAll
    rw [Write.run_bind]
    rcases Table.insert_cases first with inserted | ⟨⟨key, values, refused⟩, repeated⟩
    · rw [change_eq_ok inserted]
      exact ih last
    · right
      rw [change_eq_error refused]
      constructor
      · exact ⟨_, key, values, rfl⟩
      · -- later rows never take a repeated key away
        intro unique
        exact repeated (Table.keysUnique_of_insertEach last unique)

/-- What a statement does to the rows of its table: values that it assigns to rows by their positions, positions that it
removes, and rows that it inserts, each under the names of columns. -/
structure Changes where
  assigned : List String := []
  updates : List (Nat × Row) := []
  deletes : List Nat := []
  inserted : List String := []
  inserts : List Row := []

namespace Changes

def count (c : Changes) : Nat :=
  c.updates.length + c.deletes.length + c.inserts.length

def apply (c : Changes) (t : Table) : Except Table.Error Table := do
  let assigned ← t.assignEach c.assigned c.updates
  (assigned.remove c.deletes).insertEach c.inserted c.inserts

def carryOut (c : Changes) : Write Nat := do
  Write.assignAll c.assigned c.updates
  modify fun t => t.remove c.deletes
  Write.insertAll c.inserted c.inserts
  return c.count

variable {c : Changes}

theorem carryOut_assigned {u : Table} (assigned : t.assignEach c.assigned c.updates = .ok u) :
    c.carryOut.run t = (Write.insertAll c.inserted c.inserts >>= fun _ => pure c.count).run (u.remove c.deletes) := by
  unfold carryOut
  rw [Write.run_bind, assignAll_eq_ok assigned]
  dsimp only
  rw [Write.run_bind]
  rfl

theorem carryOut_unassigned {e : Table.Error} (failed : t.assignEach c.assigned c.updates = .error e) :
    (c.carryOut.run t).1 = .error (.row e) :=
  Write.bind_fails (assignAll_eq_error failed)

theorem carryOut_cases (h : c.apply t = .ok F) :
    c.carryOut.run t = (.ok c.count, F) ∨
      ((∃ table key values, (c.carryOut.run t).1 = .error (.row (.keyViolation table key values))) ∧ ¬F.KeysUnique) := by
  obtain ⟨assigned, first, last⟩ := bind_eq_ok.1 h
  rw [carryOut_assigned first]
  rcases insertAll_cases last with inserted | ⟨⟨table, key, values, refused⟩, repeated⟩
  · left
    rw [Write.run_bind, inserted]
    rfl
  · right
    exact ⟨⟨table, key, values, Write.bind_fails refused⟩, repeated⟩

theorem carryOut_ensures (c : Changes) : Write.Ensures (fun _ => True) (fun e => ∃ cause, e = .row cause) c.carryOut := by
  have change (f : Table → Except Table.Error Table) :
      Write.Ensures (fun _ => True) (fun e => ∃ cause, e = .row cause) (Write.change f) :=
    .change fun _ _ => ⟨fun _ _ => trivial, fun e _ => ⟨e, rfl⟩⟩
  have assigned (columns : List String) (changes : List (Nat × Row)) :
      Write.Ensures (fun _ => True) (fun e => ∃ cause, e = .row cause) (Write.assignAll columns changes) := by
    induction changes with
    | nil => exact .pure _
    | cons _ _ ih => exact .bind (change _) fun _ => ih
  have inserted (columns : List String) (rows : List Row) :
      Write.Ensures (fun _ => True) (fun e => ∃ cause, e = .row cause) (Write.insertAll columns rows) := by
    induction rows with
    | nil => exact .pure _
    | cons _ _ ih => exact .bind (change _) fun _ => ih
  exact .bind (assigned _ _) fun _ => .bind (.modify fun _ _ => trivial) fun _ => .bind (inserted _ _) fun _ => .pure _

end Changes

/-! ## What a statement finds before it writes -/

def clauseInserts (env : Environment) (source : RowSet) (matched : List Nat) :
    Option (List Projection) → Except Error (List Row)
  | none => .ok []
  | some ps => mergeInserts env source matched ps 0 source.rows

/-- The changes that a statement finds to make when all that it reads is read with success. Upserts are not among the
statements: they look for conflicts among the rows that they have written. -/
inductive Finds (db : Database) (env : Environment) (t : Table) : Statement → Changes → Prop where
  | delete {table : StoredTable} {predicate : Option Scalar} {joins : List (Join Select)} {found : List (Nat × Frame)}
      (rows : satisfyingRows db env table joins predicate = .ok found) :
      Finds db env t (.delete table predicate joins) { deletes := found.map Prod.fst }
  | update {table : StoredTable} {set : List Projection} {predicate : Option Scalar} {joins : List (Join Select)}
      {found : List (Nat × Frame)} {updates : List (Nat × Row)}
      (rows : satisfyingRows db env table joins predicate = .ok found) (values : changesOf env set found = .ok updates) :
      Finds db env t (.update table set predicate joins) { assigned := assignedColumns set, updates }
  | insertInto {table : String} {schema : Option String} {select : Select} {output : Output}
      (rows : selectRows db env select = .ok output) :
      Finds db env t (.insertInto table schema select) { inserted := output.columns, inserts := output.rows }
  | merge {target : StoredTable} {source : Source} {on : Scalar} {matched inserted : Option (List Projection)}
      {deleteUnmatched : Bool} {rs : RowSet} {changes : MergeChanges} {inserts : List Row}
      (rows : sourceRows db env source = .ok rs)
      (found : mergeChanges env (.ofTable t target.label) rs on matched deleteUnmatched 0 t.rows = .ok changes)
      (values : clauseInserts env rs changes.matched inserted = .ok inserts) :
      Finds db env t (.merge target source on matched inserted deleteUnmatched)
        { assigned := assignedColumns (matched.getD []), updates := changes.updates, deletes := changes.deletes,
          inserted := assignedColumns (inserted.getD []), inserts }

section

variable {db : Database} {ps : Parameters} {s : Statement} {c : Changes} {name : String}

theorem write_of_finds {env : Environment} (finds : Finds db env t s c) : (write db env s).run t = c.carryOut.run t := by
  cases finds with
  | delete rows =>
    simp [write, Changes.carryOut, Changes.count, Write.assignAll, Write.insertAll, rows]
  | update rows values =>
    simp [write, Changes.carryOut, Changes.count, Write.insertAll, rows, values, Table.remove_none]
  | insertInto rows =>
    simp [write, Changes.carryOut, Changes.count, Write.assignAll, rows, Table.remove_none]
  | @merge target _ _ _ inserted _ _ _ _ rows found values =>
    have targetRows : (RowSet.ofTable t target.label).rows = t.rows := rfl
    unfold write merge
    rw [Write.run_get_bind]
    cases inserted <;> unfold clauseInserts at values <;>
      simp [Changes.carryOut, Changes.count, targetRows, rows, found, values]

theorem run_affected (db : Database) (s : Statement) (ps : Parameters) :
    run db (.affected s) ps = ((runWrite db s ps).1.map .affected, (runWrite db s ps).2) :=
  rfl

def completion (db : Database) (u : Table) (n : Nat) : Except Error Outcome × Database :=
  match u.checkUnique with
  | .ok () => (.ok (.affected n), db.put u)
  | .error e => (.error (.row e), db)

theorem runWrite_on_target (target : targetTable? s = some name) (stored : db.find? name = some t) :
    runWrite db s ps = match (writeChecked db ps s).run t with
      | (.ok n, after) => (.ok n, db.put after)
      | (.error e, _) => (.error e, db) := by
  obtain rfl := Database.name_of_find? stored
  have kept := writeChecked_keeps (Table.name_kept t.name) db ps s t rfl
  unfold runWrite
  rw [target]
  dsimp only
  rw [Database.get_eq_ok.2 stored]
  dsimp only
  revert kept
  rcases (writeChecked db ps s).run t with ⟨e | n, after⟩
  · intro named
    dsimp only at named ⊢
    rw [Database.put_put named, Database.put_of_find? stored]
  · intro _
    rfl

variable (target : targetTable? s = some name) (stored : db.find? name = some t)

section

include target stored

theorem run_of_write {n : Nat} {u : Table} (written : (write db { parameters := ps } s).run t = (.ok n, u)) :
    run db (.affected s) ps = completion db u n := by
  rw [run_affected, runWrite_on_target target stored]
  unfold writeChecked completion
  rw [Write.run_bind, written]
  dsimp only
  rw [Write.run_get_bind]
  cases u.checkUnique <;> rfl

theorem writeChecked_of_failed_run {e : Error} (failed : (run db (.affected s) ps).1 = .error e) :
    ((writeChecked db ps s).run t).1 = .error e := by
  rw [run_affected, runWrite_on_target target stored] at failed
  revert failed
  rcases (writeChecked db ps s).run t with ⟨e' | n, after⟩
  · rintro ⟨⟩
    rfl
  · intro succeeded
    cases succeeded

theorem run_of_failed_write {e : Error} (failed : ((write db { parameters := ps } s).run t).1 = .error e) :
    run db (.affected s) ps = (.error e, db) := by
  have failed : ((writeChecked db ps s).run t).1 = .error e := Write.bind_fails failed
  rw [run_affected, runWrite_on_target target stored]
  revert failed
  rcases (writeChecked db ps s).run t with ⟨e | n, after⟩
  · rintro ⟨⟩
    rfl
  · intro succeeded
    cases succeeded

end

variable (finds : Finds db { parameters := ps } t s c)
include target stored finds

theorem error_of_finds {e : Error} (failed : (run db (.affected s) ps).1 = .error e) : ∃ cause, e = .row cause := by
  have carried := c.carryOut_ensures t trivial
  rw [← write_of_finds finds] at carried
  cases result : (write db { parameters := ps } s).run t with
  | mk outcome u =>
    rw [result] at carried
    cases outcome with
    | error e' =>
      rw [run_of_failed_write target stored (congrArg Prod.fst result)] at failed
      obtain rfl := Except.error.inj failed
      exact carried.2 _ rfl
    | ok n =>
      rw [run_of_write target stored result] at failed
      unfold completion at failed
      split at failed
      next => cases failed
      next cause _ => exact ⟨cause, (Except.error.inj failed).symm⟩

variable (changed : c.apply t = .ok F)
include changed

theorem run_of_finds (unique : F.KeysUnique) : run db (.affected s) ps = (.ok (.affected c.count), db.put F) := by
  rcases c.carryOut_cases changed with written | ⟨-, repeated⟩
  · rw [run_of_write target stored ((write_of_finds finds).trans written)]
    rcases F.checkUnique_cases with ⟨-, check⟩ | ⟨repeated, -⟩
    · unfold completion
      rw [check]
    · exact absurd unique repeated
  · exact absurd unique repeated

end

/-- A statement that reads before it writes fails by its keys exactly when two rows of the table that its changes lead
to agree on one. Where none do, it succeeds, whatever rows agree on keys in the meantime. -/
theorem keys_judged_in_the_end {db : Database} {ps : Parameters} {s : Statement} {c : Changes} {name : String} {t F : Table}
    (target : targetTable? s = some name) (stored : db.find? name = some t) (finds : Finds db { parameters := ps } t s c)
    (changed : c.apply t = .ok F) :
    ((∃ table key values, (run db (.affected s) ps).1 = .error (.row (.keyViolation table key values))) ↔
        ¬F.KeysUnique) ∧
      (F.KeysUnique → run db (.affected s) ps = (.ok (.affected c.count), db.put F)) := by
  refine ⟨⟨?_, fun repeated => ?_⟩, run_of_finds target stored finds changed⟩
  · rintro ⟨table, key, values, failed⟩ unique
    rw [run_of_finds target stored finds changed unique] at failed
    cases failed
  · rcases c.carryOut_cases changed with written | ⟨⟨table, key, values, refused⟩, -⟩
    · -- all rows are written, and the check at the end finds the repetition
      rw [run_of_write target stored ((write_of_finds finds).trans written)]
      rcases F.checkUnique_cases with ⟨unique, -⟩ | ⟨-, key, values, check⟩
      · exact absurd unique repeated
      · refine ⟨F.name, key, values, ?_⟩
        unfold completion
        rw [check]
    · -- an insertion is refused
      have failed := (congrArg Prod.fst (write_of_finds finds)).trans refused
      exact ⟨table, key, values, congrArg Prod.fst (run_of_failed_write target stored failed)⟩

/-! ### Keys that move -/

def itemsTable : Table where
  name := "Items"
  columns := [⟨"Id", .integer, false⟩, ⟨"Value", .integer, true⟩]
  identity := some 0
  keys := [⟨"PK_Items", [0]⟩]
  nextIdentity := 3
  rows := [[.int 1, .int 10], [.int 2, .null]]

def newNumbers : LiteralTable :=
  ⟨"s", ["Old", "New"],
    .immediate [[.constant (.int 1), .constant (.int 2)], [.constant (.int 9), .constant (.int 1)]]⟩

def hasOldNumber : Scalar :=
  .binary (.column "i" "Id") .equal (.column "s" "Old")

/-- Gives the first item the number of the second one, deletes the second one, and inserts an item under the number that
the first one had. -/
def renumberItems : Statement :=
  .merge ⟨"Items", none, "i"⟩ (.literal newNumbers) hasOldNumber (some [⟨"Id", .column "s" "New"⟩])
    (some [⟨"Id", .column "s" "New"⟩]) true

/-- Between the assignment and the removal two items have the number 2; in the end the numbers are unique. -/
theorem renumbered_items_agree_meanwhile :
    (itemsTable.assignEach ["Id"] [(0, [.int 2])]).map Table.checkUnique =
        .ok (.error (.keyViolation "Items" "PK_Items" [.int 2])) ∧
      run twoItems (.affected renumberItems) {} = (.ok (.affected 3),
        twoItems.put { itemsTable with rows := [[.int 2, .int 10], [.int 1, .null]] }) := by
  refine ⟨by decide, ?_⟩
  have finds : Finds twoItems { parameters := {} } itemsTable renumberItems
      { assigned := ["Id"], updates := [(0, [.int 2])], deletes := [1], inserted := ["Id"], inserts := [[.int 1]] } := by
    let numbers : RowSet := ⟨"s", ["Old", "New"], [[.int 1, .int 2], [.int 9, .int 1]]⟩
    have rows : sourceRows twoItems { parameters := {} } (.literal newNumbers) = .ok numbers := rfl
    have found : mergeChanges { parameters := {} } (.ofTable itemsTable "i") numbers hasOldNumber
        (some [⟨"Id", .column "s" "New"⟩]) true 0 itemsTable.rows = .ok ⟨[(0, [.int 2])], [1], [0]⟩ := rfl
    have inserts : clauseInserts { parameters := {} } numbers [0] (some [⟨"Id", .column "s" "New"⟩]) = .ok [[.int 1]] := rfl
    exact @Finds.merge _ _ itemsTable ⟨"Items", none, "i"⟩ _ _ _ _ _ _ _ _ rows found inserts
  exact (keys_judged_in_the_end rfl (by decide) finds (by decide)).2 (Table.keysUnique_of_checkUnique (by decide))

end Execution

end Setwise
