import Setwise.Proofs.Integrity

/-!
Atomicity of statements held in memory.

Writes leave their traces in a table also when a later one fails. What undoes them is the table that a
statement has read in the beginning: under whatever name the writes began they end, and so the old table
takes the place of what they have left, counter included. The tables of other names are never touched.
-/

set_option autoImplicit false

namespace Setwise

theorem Table.name_kept (name : String) : KeptByWrites fun t => t.name = name where
  insert := by
    intro t u values h named
    obtain ⟨row, h⟩ := insert_eq_ok h
    obtain ⟨stored, next, -, rfl⟩ := append_eq_ok h
    exact named
  assign := by
    intro t u index values h named
    obtain ⟨_, _, stored, -, -, -, rfl⟩ := assign_eq_ok h
    exact named
  remove := fun _ named => named
  clear := fun named => named

namespace Database

theorem insertSorted_of_mem {t : Table} {ts : List Table}
    (ascending : ts.Pairwise fun a b => a.name < b.name) (h : t ∈ ts) : insertSorted t ts = ts := by
  induction ts with
  | nil => cases h
  | cons u rest ih =>
    obtain ⟨first, others⟩ := List.pairwise_cons.1 ascending
    rcases List.mem_cons.1 h with rfl | later
    · simp [insertSorted]
    · have before := first t later
      have different : ¬ t.name = u.name := fun same => String.ne_of_lt before same.symm
      simp [insertSorted, String.lt_asymm before, different, ih others later]

theorem put_of_find? {db : Database} {name : String} {t : Table} (h : db.find? name = some t) :
    db.put t = db := by
  simp only [put, insertSorted_of_mem db.ascending (mem_of_find? h)]

theorem names_insertSorted {t u : Table} {ts : List Table}
    (ascending : ts.Pairwise fun a b => a.name < b.name) (h : u ∈ ts) (same : t.name = u.name) :
    (insertSorted t ts).map Table.name = ts.map Table.name := by
  induction ts with
  | nil => cases h
  | cons v rest ih =>
    obtain ⟨first, others⟩ := List.pairwise_cons.1 ascending
    rcases List.mem_cons.1 h with rfl | later
    · simp [insertSorted, same]
    · have before := first u later
      have different : ¬ u.name = v.name := fun same => String.ne_of_lt before same.symm
      simp [insertSorted, same, String.lt_asymm before, different, ih others later]

theorem tableNames_put {db : Database} {t u : Table} (h : db.find? t.name = some u) :
    (db.put t).tableNames = db.tableNames :=
  names_insertSorted db.ascending (mem_of_find? h) (name_of_find? h).symm

end Database

namespace Execution

open Relational

/-- What the running of a statement leaves: the database as it was where it fails, and otherwise a table
of the name that the statement writes to in the place of the one before. -/
theorem runWrite_leaves (db : Database) (s : Statement) (ps : Parameters) :
    (∃ e, runWrite db s ps = (.error e, db)) ∨
    (∃ n, targetTable? s = none ∧ runWrite db s ps = (.ok n, db)) ∨
    ∃ n before after, targetTable? s = some after.name ∧ db.find? after.name = some before ∧
      (writeChecked db ps s).run before = (.ok n, after) ∧ runWrite db s ps = (.ok n, db.put after) := by
  unfold runWrite
  split
  next target => exact .inr (.inl ⟨0, target, rfl⟩)
  next name target =>
    split
    next e missing => exact .inl ⟨_, rfl⟩
    next before found =>
      rw [Database.get_eq_ok] at found
      have named := Database.name_of_find? found
      have kept := writeChecked_keeps (Table.name_kept name) db ps s before named
      cases result : (writeChecked db ps s).run before with
      | mk outcome after =>
        rw [result] at kept
        obtain rfl : after.name = name := kept
        cases outcome with
        | ok n => exact .inr (.inr ⟨n, before, after, target, found, result, rfl⟩)
        | error e =>
          refine .inl ⟨e, ?_⟩
          change (Except.error e, (db.put after).put before) = _
          rw [Database.put_put named.symm, Database.put_of_find? found]

/-- A block that fails leaves the database as it was, wherever it fails. A block that succeeds keeps the
names of the tables, and each table but the one that it writes to; a select writes to none. -/
theorem blocks_are_atomic (db : Database) (b : Block) (ps : Parameters) :
    (∀ e, (run db b ps).1 = .error e → (run db b ps).2 = db) ∧
      (∀ s, b = .affected s →
        (run db b ps).2.tableNames = db.tableNames ∧
          ∀ name, targetTable? s ≠ some name → (run db b ps).2.find? name = db.find? name) ∧
      ∀ s, b = .select s → (run db b ps).2 = db := by
  cases b with
  | select s => exact ⟨fun _ _ => rfl, fun _ other => (by cases other), fun _ _ => rfl⟩
  | affected s =>
    rcases runWrite_leaves db s ps with ⟨e, result⟩ | ⟨n, -, result⟩ |
      ⟨n, before, after, target, found, -, result⟩
    case inl =>
      have unchanged : (run db (.affected s) ps).2 = db := by simp only [run, result]
      exact ⟨fun _ _ => unchanged, fun _ _ => by simp [unchanged], fun _ other => (by cases other)⟩
    case inr.inl =>
      have unchanged : (run db (.affected s) ps).2 = db := by simp only [run, result]
      exact ⟨fun _ _ => unchanged, fun _ _ => by simp [unchanged], fun _ other => (by cases other)⟩
    case inr.inr =>
      have succeeded : run db (.affected s) ps = (.ok (.affected n), db.put after) := by
        simp only [run, result, Except.map]
      rw [succeeded]
      refine ⟨fun _ failed => (by cases failed), ?_, fun _ other => (by cases other)⟩
      rintro _ ⟨⟩
      refine ⟨Database.tableNames_put found, fun name other => ?_⟩
      exact Database.find?_put_of_ne (fun same => other (target.trans (congrArg some same))) db

/-- Inserts an item under a new number, and then one under a number that is taken. -/
def secondNumberTaken : Statement :=
  .insertInto "Items" none {
    source := .literal ⟨"v", ["Number"], .immediate [[.constant (.int 9)], [.constant (.int 1)]]⟩
    projection := [⟨"Id", .column "v" "Number"⟩] }

/-- The first row is stored and moves the counter before the second one fails; both are undone. -/
theorem secondNumber_undone :
    (twoItems.find? "Items").map (fun t =>
        ((writeChecked twoItems {} secondNumberTaken).run t).2.nextIdentity) = some 10 ∧
    (run twoItems (.affected secondNumberTaken) {}).2 = twoItems :=
  ⟨by decide, (blocks_are_atomic twoItems (.affected secondNumberTaken) {}).1
    (.row (.keyViolation "Items" "PK_Items" [.int 1])) (by decide)⟩

end Execution

end Setwise
