import Setwise.Proofs.Evaluating
import Setwise.Proofs.Results

/-!
What the writes of a statement keep.

A statement changes its table by inserting, assigning, removing and clearing alone, under columns that can be told
beforehand (`insertedColumns`, `changedColumns`). A property that these four keep holds of the table after every
statement, whether it succeeds or fails half way, and what is known of their errors is known of the statement's
(`write_ensures`).
-/

set_option autoImplicit false

namespace Setwise

structure Table.KeptByWrites (P : Table → Prop) : Prop where
  insert : ∀ {t u : Table} {values : List (String × Value)}, t.insert values = .ok u → P t → P u
  assign : ∀ {t u : Table} {index : Nat} {values : List (String × Value)},
    t.assign index values = .ok u → P t → P u
  remove : ∀ {t : Table} (indices : List Nat), P t → P (t.remove indices)
  clear : ∀ {t : Table}, P t → P { t with rows := [] }

namespace Execution

open Relational

/-! ## Running a step -/

namespace Write

variable {α β : Type}

theorem run_bind (x : Write α) (f : α → Write β) (t : Table) :
    (x >>= f).run t = match x.run t with
      | (.ok a, u) => (f a).run u
      | (.error e, u) => (.error e, u) := by
  simp only [bind, ExceptT.run, ExceptT.bind, ExceptT.mk, StateT.bind, ExceptT.bindCont]
  rcases x t with ⟨_ | _, u⟩ <;> rfl

theorem run_get (t : Table) : (get : Write Table).run t = (.ok t, t) :=
  rfl

theorem run_change (f : Table → Except Table.Error Table) (t : Table) :
    (change f).run t = match f t with
      | .ok u => (.ok (), u)
      | .error e => (.error (.row e), t) := by
  unfold change
  rw [run_bind, run_get]
  dsimp only
  cases f t <;> rfl

theorem bind_eq_ok {x : Write α} {f : α → Write β} {t v : Table} {b : β} :
    (x >>= f).run t = (.ok b, v) ↔ ∃ a u, x.run t = (.ok a, u) ∧ (f a).run u = (.ok b, v) := by
  rw [run_bind]
  constructor
  · intro h
    split at h
    next a u first => exact ⟨a, u, first, h⟩
    next => cases (Prod.mk.inj h).1
  · rintro ⟨a, u, first, rest⟩
    rw [first]
    exact rest

theorem pure_eq_ok {a b : α} {t u : Table} : (pure a : Write α).run t = (.ok b, u) ↔ a = b ∧ t = u := by
  change (Except.ok a, t) = (Except.ok b, u) ↔ _
  simp

theorem ofResult_eq_ok {x : Except Error α} {a : α} {t u : Table} :
    (ofResult x).run t = (.ok a, u) ↔ x = .ok a ∧ t = u := by
  cases x with
  | error e =>
    change (Except.error e, t) = (Except.ok a, u) ↔ _
    simp
  | ok b =>
    change (Except.ok b, t) = (Except.ok a, u) ↔ _
    simp

theorem get_eq_ok {t u v : Table} : (get : Write Table).run t = (.ok u, v) ↔ t = u ∧ t = v := by
  change (Except.ok t, t) = (Except.ok u, v) ↔ _
  simp

theorem modify_eq_ok {f : Table → Table} {t v : Table} {a : PUnit} :
    (modify f : Write PUnit).run t = (.ok a, v) ↔ f t = v := by
  change (Except.ok PUnit.unit, f t) = (Except.ok a, v) ↔ _
  simp

end Write

/-! ## Keeping a property -/

/-- A step leaves a table with the property, also when it fails. -/
def Write.Keeps {α : Type} (P : Table → Prop) (x : Write α) : Prop :=
  ∀ t : Table, P t → P (x.run t).2

def Write.Ensures {α : Type} (P : Table → Prop) (Q : Error → Prop) (x : Write α) : Prop :=
  ∀ t : Table, P t → P (x.run t).2 ∧ ∀ e, (x.run t).1 = .error e → Q e

namespace Write.Ensures

variable {α β : Type} {P : Table → Prop} {Q : Error → Prop}

theorem of_run {x : Write α} (ensures : Write.Ensures P Q x) {t u : Table} (h : P t) {result : Except Error α}
    (run : x.run t = (result, u)) : P u := by
  have kept := (ensures t h).1
  rwa [run] at kept

theorem of_failed_run {x : Write α} (ensures : Write.Ensures P Q x) {t : Table} (h : P t) {e : Error}
    (failed : (x.run t).1 = .error e) : Q e :=
  (ensures t h).2 e failed

theorem pure (a : α) : Write.Ensures P Q (Pure.pure a : Write α) :=
  fun _ h => ⟨h, fun _ failed => nomatch failed⟩

theorem get : Write.Ensures P Q (MonadState.get : Write Table) :=
  fun _ h => ⟨h, fun _ failed => nomatch failed⟩

theorem bind {x : Write α} {f : α → Write β} (hx : Write.Ensures P Q x)
    (hf : ∀ a, Write.Ensures P Q (f a)) : Write.Ensures P Q (x >>= f) := by
  intro t h
  obtain ⟨kept, failure⟩ := hx t h
  rw [run_bind]
  revert kept failure
  rcases x.run t with ⟨e | a, u⟩
  · intro kept failure
    refine ⟨kept, ?_⟩
    rintro _ ⟨⟩
    exact failure e rfl
  · exact fun kept _ => hf a u kept

theorem get_bind {f : Table → Write β} (hf : ∀ t, P t → Write.Ensures P Q (f t)) :
    Write.Ensures P Q (MonadState.get >>= f) := by
  intro t h
  rw [run_bind, run_get]
  exact hf t h t h

theorem ofResult_bind {x : Except Error α} {f : α → Write β} (hx : ∀ e, x = .error e → Q e)
    (hf : ∀ a, x = .ok a → Write.Ensures P Q (f a)) : Write.Ensures P Q (Write.ofResult x >>= f) := by
  cases x with
  | ok a => exact hf a rfl
  | error e =>
    refine fun _ h => ⟨h, ?_⟩
    rintro _ ⟨⟩
    exact hx e rfl

theorem modify {f : Table → Table} (hf : ∀ t, P t → P (f t)) :
    Write.Ensures P Q (modify f : Write PUnit) :=
  fun t h => ⟨hf t h, fun _ failed => nomatch failed⟩

theorem change {f : Table → Except Table.Error Table}
    (hf : ∀ t, P t → (∀ u, f t = .ok u → P u) ∧ ∀ e, f t = .error e → Q (.row e)) :
    Write.Ensures P Q (Write.change f) := by
  intro t h
  obtain ⟨kept, failure⟩ := hf t h
  rw [run_change]
  cases result : f t with
  | ok u => exact ⟨kept u result, fun _ failed => nomatch failed⟩
  | error e =>
    refine ⟨h, ?_⟩
    rintro _ ⟨⟩
    exact failure e result

end Write.Ensures

def insertedColumns (db : Database) (env : Environment) : Statement → List String
  | .insertInto _ _ select =>
    match selectRows db env select with
    | .ok output => output.columns
    | .error _ => []
  | .upsert _ _ inserted .. => assignedColumns inserted
  | .merge _ _ _ _ inserted _ => assignedColumns (inserted.getD [])
  | _ => []

def changedColumns : Statement → List String
  | .update _ set _ _ => assignedColumns set
  | .upsert _ _ _ updated _ _ => assignedColumns (updated.getD [])
  | .merge _ _ _ matched _ _ => assignedColumns (matched.getD [])
  | _ => []

/-- What a statement does to its table, with the columns that it inserts under and assigns to: each operation keeps a
property of tables, and the error has another one where it fails, like all errors of reading. -/
structure Operates (inserted changed : List String) (P : Table → Prop) (Q : Error → Prop) : Prop where
  insert : ∀ {t : Table} {values : List (String × Value)}, (∀ v ∈ values, v.1 ∈ inserted) → P t →
    (∀ u, t.insert values = .ok u → P u) ∧ ∀ e, t.insert values = .error e → Q (.row e)
  assign : ∀ {t : Table} {index : Nat} {values : List (String × Value)}, (∀ v ∈ values, v.1 ∈ changed) → P t →
    (∀ u, t.assign index values = .ok u → P u) ∧ ∀ e, t.assign index values = .error e → Q (.row e)
  remove : ∀ {t : Table} (indices : List Nat), P t → P (t.remove indices)
  clear : ∀ {t : Table}, P t → P { t with rows := [] }
  check : ∀ {t : Table}, P t → ∀ e, t.checkUnique = .error e → Q (.row e)
  reading : ∀ e : Error, e.isViolation = false → Q e

section

variable {inserted changed : List String} {P : Table → Prop} {Q : Error → Prop}
variable (operates : Operates inserted changed P Q)
include operates

theorem reading_ensures {α β : Type} {x : Except Error α} {f : α → Write β} (h : Reads x)
    (rest : ∀ a, x = .ok a → Write.Ensures P Q (f a)) : Write.Ensures P Q (Write.ofResult x >>= f) :=
  .ofResult_bind (fun e failed => operates.reading e (h e failed)) rest

theorem insert_ensures (row : Row) : Write.Ensures P Q (Write.change fun t => t.insert (inserted.zip row)) :=
  .change fun _ h => operates.insert (fun _ member => (List.of_mem_zip member).1) h

theorem assign_ensures (index : Nat) (row : Row) :
    Write.Ensures P Q (Write.change fun t => t.assign index (changed.zip row)) :=
  .change fun _ h => operates.assign (fun _ member => (List.of_mem_zip member).1) h

theorem insertAll_ensures (rows : List Row) : Write.Ensures P Q (Write.insertAll inserted rows) := by
  induction rows with
  | nil => exact .pure _
  | cons r rest ih => exact .bind (insert_ensures operates r) fun _ => ih

theorem assignAll_ensures (changes : List (Nat × Row)) :
    Write.Ensures P Q (Write.assignAll changed changes) := by
  induction changes with
  | nil => exact .pure _
  | cons c rest ih => exact .bind (assign_ensures operates c.1 c.2) fun _ => ih

end

section

variable {P : Table → Prop} {Q : Error → Prop}

theorem upsertRow_ensures {columns : List String} {updated : Option (List Projection)}
    (operates : Operates columns (assignedColumns (updated.getD [])) P Q) (env : Environment) (label : String)
    (positions : List ConflictColumn) (incoming : Row) :
    Write.Ensures P Q (upsertRow env label columns updated positions incoming) := by
  refine .bind .get fun t => ?_
  split
  next => exact .bind (insert_ensures operates incoming) fun _ => .pure _
  next r i found =>
    cases updated with
    | none => exact .pure _
    | some set =>
      refine reading_ensures operates (project_reads _ _ set) fun values _ => ?_
      exact .bind (assign_ensures operates i values) fun _ => .pure _

theorem upsertAll_ensures {columns : List String} {updated : Option (List Projection)}
    (operates : Operates columns (assignedColumns (updated.getD [])) P Q) (env : Environment) (label : String)
    (positions : List ConflictColumn) (incoming : List Row) :
    Write.Ensures P Q (upsertAll env label columns updated positions incoming) := by
  induction incoming with
  | nil => exact .pure _
  | cons r rest ih =>
    exact .bind (upsertRow_ensures operates env label positions r) fun _ => .bind ih fun _ => .pure _

/-- What every operation of a statement ensures, the statement ensures, also where it fails half way. -/
theorem write_ensures {db : Database} {env : Environment} {s : Statement}
    (operates : Operates (insertedColumns db env s) (changedColumns s) P Q) :
    Write.Ensures P Q (write db env s) := by
  cases s with
  | delete table predicate joins =>
    refine reading_ensures operates (satisfyingRows_reads db env table joins predicate) fun _ _ => ?_
    exact .bind (.modify fun _ => operates.remove _) fun _ => .pure _
  | update table set predicate joins =>
    refine reading_ensures operates (satisfyingRows_reads db env table joins predicate) fun found _ => ?_
    refine reading_ensures operates (changesOf_reads env set found) fun changes _ => ?_
    exact .bind (assignAll_ensures operates changes) fun _ => .pure _
  | insertInto table schema select =>
    refine reading_ensures operates (selectRows_reads db env select) fun output result => ?_
    simp only [insertedColumns, result] at operates
    exact .bind (insertAll_ensures operates output.rows) fun _ => .pure _
  | upsert table source inserted updated constraint conflictColumns =>
    refine reading_ensures operates (incomingRows_reads db env source inserted) fun rows _ => ?_
    refine .bind .get fun t => ?_
    refine reading_ensures operates (conflictPositions_reads t _ conflictColumns) fun positions _ => ?_
    exact upsertAll_ensures operates env table.label positions rows
  -- assignments, removals and insertions, after everything has been read
  | merge target source on matched inserted deleteUnmatched =>
    refine .bind .get fun t => ?_
    refine reading_ensures operates (sourceRows_reads db env source) fun rows _ => ?_
    refine reading_ensures operates (mergeChanges_reads env _ rows on matched deleteUnmatched 0 _) fun changes _ => ?_
    refine reading_ensures operates ?_ fun inserts _ => ?_
    · cases inserted with
      | none => exact .ok _
      | some ps => exact mergeInserts_reads env rows changes.matched ps 0 rows.rows
    · refine .bind (assignAll_ensures operates changes.updates) fun _ => ?_
      refine .bind (.modify fun _ => operates.remove _) fun _ => ?_
      exact .bind (insertAll_ensures operates inserts) fun _ => .pure _
  | truncate table => exact fun _ h => ⟨operates.clear h, fun _ failed => nomatch failed⟩
  | noop => exact .pure _

theorem writeChecked_ensures (db : Database) (ps : Parameters) (s : Statement)
    (operates : Operates (insertedColumns db { parameters := ps } s) (changedColumns s) P Q) :
    Write.Ensures P Q (writeChecked db ps s) := by
  refine .bind (write_ensures operates) fun n t h => ?_
  have check := operates.check h
  rw [Write.run_bind, Write.run_get]
  dsimp only
  cases unique : t.checkUnique with
  | ok _ => exact ⟨h, fun _ failed => nomatch failed⟩
  | error e =>
    refine ⟨h, ?_⟩
    rintro _ ⟨⟩
    exact check e unique

theorem operates_of_kept (kept : Table.KeptByWrites P) (inserted changed : List String) :
    Operates inserted changed P fun _ => True where
  insert := fun _ h => ⟨fun _ result => kept.insert result h, fun _ _ => trivial⟩
  assign := fun _ h => ⟨fun _ result => kept.assign result h, fun _ _ => trivial⟩
  remove := kept.remove
  clear := kept.clear
  check := fun _ _ _ => trivial
  reading := fun _ _ => trivial

theorem writeChecked_keeps (kept : Table.KeptByWrites P) (db : Database) (ps : Parameters) (s : Statement) :
    Write.Keeps P (writeChecked db ps s) :=
  fun t h => (writeChecked_ensures db ps s (operates_of_kept kept _ _) t h).1

end

theorem writeChecked_eq_ok {db : Database} {ps : Parameters} {s : Statement} {n : Nat} {t u : Table} :
    (writeChecked db ps s).run t = (.ok n, u) ↔
      (write db { parameters := ps } s).run t = (.ok n, u) ∧ u.checkUnique = .ok () := by
  unfold writeChecked
  simp only [Write.bind_eq_ok, Write.get_eq_ok]
  constructor
  · rintro ⟨k, v, written, _, _, ⟨rfl, rfl⟩, h⟩
    cases unique : v.checkUnique with
    | ok =>
      rw [unique] at h
      obtain ⟨rfl, rfl⟩ := Write.pure_eq_ok.1 h
      exact ⟨written, unique⟩
    | error e =>
      rw [unique] at h
      cases (Prod.mk.inj h).1
  · rintro ⟨written, unique⟩
    refine ⟨n, u, written, u, u, ⟨rfl, rfl⟩, ?_⟩
    rw [unique]
    rfl

theorem run_affected_eq_ok {db after : Database} {s : Statement} {ps : Parameters} {outcome : Outcome} :
    run db (.affected s) ps = (.ok outcome, after) ↔
      ∃ n, runWrite db s ps = (.ok n, after) ∧ outcome = .affected n := by
  constructor
  · intro h
    obtain ⟨affected, stored⟩ := Prod.mk.inj h
    obtain ⟨n, written, rfl⟩ := map_eq_ok.1 affected
    exact ⟨n, Prod.ext written stored, rfl⟩
  · rintro ⟨n, written, rfl⟩
    simp only [run, written, Except.map]

end Execution

end Setwise
