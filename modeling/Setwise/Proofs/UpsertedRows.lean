import Setwise.Proofs.FinalKeys
import Setwise.Proofs.MergedRows

/-!
What the incoming rows of an upsert do to its table.

An upsert compares the values that come in with those that are stored, before any column has cast them, whereas keys
are checked among stored rows alone. Both tests agree, because a stored value equals what its column stores of a value
exactly when it equals that value (`Value.equates_of_held`): an incoming row conflicts with a stored one when what the
table stores of it agrees with the stored one on the conflict columns (`agreeOn_eq_conflicts`). So every incoming row
either is inserted beside rows that differ from it, or meets a row that equals it (`upsertRow_eq_ok`), and rows that were
apart on the conflict columns stay apart (`upsertAll_apart`).
-/

set_option autoImplicit false

namespace Setwise

/-- A value that a column holds equals what the column stores of a value when it equals that value. -/
theorem Value.equates_of_held {c : Column} {s v w : Value} (held : c.Holds s) (stored : v.cast? c.type = some w) :
    s.equates w = s.equates v := by
  unfold Column.Holds at held
  split at held
  next null =>
    subst null
    cases v <;> cases w <;> rfl
  next =>
    obtain ⟨name, type, nullable⟩ := c
    dsimp only at stored held
    -- casting changes a value only between numbers and truth values, which compare as numbers do
    cases v with
    | null => obtain rfl := Option.some.inj stored; rfl
    | text _ | blob _ | real _ => cases type <;> cases stored; rfl
    | int i =>
      cases type with
      | integer => obtain rfl := Option.some.inj stored; rfl
      | real =>
        obtain rfl := Option.some.inj stored
        cases s <;> first | rfl | cases held
      | boolean =>
        simp only [Value.cast?] at stored
        split at stored
        next zeroOrOne =>
          obtain rfl := Option.some.inj stored
          cases s <;> first | (rcases zeroOrOne with rfl | rfl <;> rfl) | cases held
        next => cases stored
      | text | blob => cases stored
    | bool b =>
      cases type with
      | integer =>
        obtain rfl := Option.some.inj stored
        cases s <;> first | rfl | cases held
      | boolean => obtain rfl := Option.some.inj stored; rfl
      | text | blob | real => cases stored

namespace Table

variable {t u : Table} {values : List (String × Value)}

theorem insertUnchecked_stores (h : t.insertUnchecked values = .ok u) :
    u.LaidOutAs t ∧ ∃ row, t.Stores values row ∧ u.rows = t.rows ++ [row] := by
  obtain ⟨changed, stored, next, named, valid, -, rfl⟩ := insertUnchecked_eq_ok h
  exact ⟨⟨_, next, rfl⟩, stored, ⟨t.blankRow, changed, length_blankRow t, named, valid⟩, rfl⟩

theorem insert_eq_error {e : Error} (h : t.insert values = .error e) :
    e.IsOther ∨ ∃ row, t.Stores values row ∧
      ∃ s ∈ t.rows, ∃ key, t.commonKey? s row = some key ∧ e = t.violation key row := by
  rcases bind_eq_error.1 h with unnamed | ⟨changed, named, refused⟩
  · exact .inl (isOther_of_setNamed unnamed)
  · refine (append_eq_error refused).imp id ?_
    rintro ⟨row, valid, conflict⟩
    exact ⟨row, ⟨t.blankRow, changed, length_blankRow t, named, valid⟩, conflict⟩

theorem agreeOn_of_subset {columns more : List Nat} {a b : Row} (fewer : columns ⊆ more) (h : agreeOn more a b = true) :
    agreeOn columns a b = true :=
  List.all_eq_true.2 fun i member => List.all_eq_true.1 h i (fewer member)

/-! ## Keys with given columns -/

def IsKeyOn (t : Table) (names : List String) (key : UniqueKey) : Prop :=
  ∀ i, i ∈ key.columns ↔ ∃ c ∈ names, t.columnIndex c = .ok i

def BlamesOtherKeys (t : Table) (names : List String) (e : Error) : Prop :=
  ∀ table key values, e = .keyViolation table key values →
    ∃ k ∈ t.keys, ¬ t.IsKeyOn names k ∧ ∃ row, e = t.violation k row

theorem blamesOtherKeys_of_other {names : List String} {e : Error} (h : e.IsOther) : t.BlamesOtherKeys names e :=
  fun table key values same => absurd same (h table key values)

/-- Rows with the layout of a table that fit its columns, no two of which agree in the columns of the given names if the
table has a key with just these. -/
structure ApartOn (t : Table) (names : List String) (u : Table) : Prop where
  laid : u.LaidOutAs t
  fit : u.RowsFit
  apart : ∀ key ∈ t.keys, key.columns ≠ [] → t.IsKeyOn names key →
    u.rows.Pairwise fun a b => agreeOn key.columns a b = false

theorem apartOn_self (wellFormed : t.WellFormed) (names : List String) : t.ApartOn names t where
  laid := .refl t
  fit := wellFormed.rowsFit
  apart := fun key member columns _ => List.pairwise_iff_getElem.2 fun i j hi hj before =>
    wellFormed.keysUnique key member columns i j _ _ (Nat.ne_of_lt before) (List.getElem?_eq_getElem hi)
      (List.getElem?_eq_getElem hj)

section

variable {names : List String} (h : t.ApartOn names u)
include h

/-- The check at the end reports no repetition of a key that rows have been kept apart on. -/
theorem ApartOn.checkUnique {e : Error} (failed : u.checkUnique = .error e) : t.BlamesOtherKeys names e := by
  obtain ⟨key, a, b, inside, shared, rfl⟩ := checkUnique_eq_error failed
  obtain ⟨laid, -, apart⟩ := h
  obtain ⟨rows, next, rfl⟩ := laid
  obtain ⟨member, columns, agree⟩ := commonKey?_eq_some shared
  refine fun _ _ _ _ => ⟨key, member, fun same => ?_, a, rfl⟩
  have differ := List.rel_of_pairwise_cons ((apart key member columns same).sublist inside) (List.mem_singleton_self b)
  rw [agree] at differ
  cases differ

theorem ApartOn.assign {v : Table} {index : Nat} (spared : ∀ value ∈ values, value.1 ∉ names)
    (assigned : u.assign index values = .ok v) : t.ApartOn names v := by
  obtain ⟨laid, fit, apart⟩ := h
  refine ⟨(laidOut_kept t).assign assigned laid, ((rowsFit_kept u.name).assign assigned ⟨rfl, fit⟩).2, ?_⟩
  intro key member columns isKey
  have kept (i : Nat) (inside : i ∈ key.columns) : v.rows.map (fun r => r[i]?) = u.rows.map fun r => r[i]? := by
    refine getElem?_of_assign fit assigned fun value given same => ?_
    obtain ⟨c, named, index⟩ := (isKey i).1 inside
    obtain ⟨rows, next, rfl⟩ := laid
    have assigns := spared value given
    rw [columnIndex_inj same index] at assigns
    exact assigns named
  refine pairwise_of_columns ?_ (apart key member columns isKey) kept
  obtain ⟨_, _, _, -, -, -, rfl⟩ := assign_eq_ok assigned
  exact List.length_set

variable (admitted : ∀ row, u.Stores values row → ∀ key, t.IsKeyOn names key →
  ∀ s ∈ u.rows, agreeOn key.columns s row = false)
include admitted

theorem ApartOn.insert {v : Table} (inserted : u.insert values = .ok v) : t.ApartOn names v := by
  obtain ⟨laid, fit, apart⟩ := h
  obtain ⟨-, row, stores, rows⟩ := insert_stores inserted
  refine ⟨(laidOut_kept t).insert inserted laid, ((rowsFit_kept u.name).insert inserted ⟨rfl, fit⟩).2, ?_⟩
  intro key member columns isKey
  rw [rows]
  refine List.pairwise_append.2 ⟨apart key member columns isKey, List.pairwise_singleton _ _, fun a old b last => ?_⟩
  obtain rfl := List.mem_singleton.1 last
  exact admitted b stores key isKey a old

theorem ApartOn.insert_eq_error {e : Error} (refused : u.insert values = .error e) : t.BlamesOtherKeys names e := by
  rcases Table.insert_eq_error refused with other | ⟨row, stores, s, member, key, shared, rfl⟩
  · exact blamesOtherKeys_of_other other
  · obtain ⟨rows, next, rfl⟩ := h.laid
    obtain ⟨declared, -, agree⟩ := commonKey?_eq_some shared
    refine fun _ _ _ _ => ⟨key, declared, fun isKey => ?_, row, rfl⟩
    rw [admitted row stores key isKey s member] at agree
    cases agree

end

end Table

namespace Execution

open Relational

variable {env : Environment} {label : String} {columns conflictColumns : List String}
  {updated : Option (List Projection)} {positions : List ConflictColumn} {t u : Table}

/-! ## Conflicts -/

theorem conflictPositions_eq_ok :
    conflictPositions t columns conflictColumns = .ok positions ↔
      List.Forall₂ (fun c p => t.columnIndex c = .ok p.1 ∧ p.2 = columns.findIdx? fun n => n == c) conflictColumns
        positions := by
  induction conflictColumns generalizing positions with
  | nil =>
    unfold conflictPositions
    rw [List.forall₂_nil_left_iff]
    exact ⟨fun h => (Except.ok.inj h).symm, fun h => by rw [h]⟩
  | cons c rest ih =>
    rw [List.forall₂_cons_left_iff]
    constructor
    · intro h
      obtain ⟨i, index, h⟩ := bind_eq_ok.1 h
      obtain ⟨others, later, h⟩ := bind_eq_ok.1 h
      obtain rfl := pure_eq_ok.1 h
      exact ⟨_, others, ⟨mapError_eq_ok.1 index, rfl⟩, ih.1 later, rfl⟩
    · rintro ⟨⟨i, j?⟩, others, ⟨index, rfl⟩, later, rfl⟩
      exact bind_eq_ok.2 ⟨i, mapError_eq_ok.2 index, bind_eq_ok.2 ⟨others, ih.2 later, rfl⟩⟩

theorem conflictPositions_laid (laid : u.LaidOutAs t) (columns conflictColumns : List String) :
    conflictPositions u columns conflictColumns = conflictPositions t columns conflictColumns := by
  obtain ⟨rows, next, rfl⟩ := laid
  induction conflictColumns with
  | nil => rfl
  | cons c rest ih =>
    unfold conflictPositions
    rw [ih]
    rfl

def EqualIn (t : Table) (columns : List String) (stored incoming : Row) (column : String) : Prop :=
  ∃ i v w, t.columnIndex column = .ok i ∧ stored[i]? = some v ∧
    columnValue "excluded" columns incoming column = .ok w ∧ v.equates w = true

theorem conflicts_iff (found : conflictPositions t columns conflictColumns = .ok positions) {stored incoming : Row} :
    conflicts positions stored incoming = true ↔ ∀ c ∈ conflictColumns, EqualIn t columns stored incoming c := by
  have pairs := conflictPositions_eq_ok.1 found
  clear found
  induction pairs with
  | nil => exact ⟨fun _ _ member => (nomatch member), fun _ => rfl⟩
  | @cons c p cs ps here _ ih =>
    obtain ⟨i, j?⟩ := p
    obtain ⟨index, rfl⟩ := here
    rw [List.forall_mem_cons]
    unfold conflicts
    rw [List.all_cons, Bool.and_eq_true]
    refine and_congr ?_ ih
    unfold EqualIn columnValue
    cases columns.findIdx? fun n => n == c with
    | none => simp
    | some j =>
      dsimp only [Option.bind_some]
      cases incoming[j]? with
      | none => simp
      | some w => cases here : stored[i]? <;> simp [index, here]

/-- What an upsert finds out about its conflict columns: where they are, and that every one of them is among the columns
that it inserts, which have different names. -/
structure ConflictTest (t : Table) (columns conflictColumns : List String) (positions : List ConflictColumn) : Prop where
  found : conflictPositions t columns conflictColumns = .ok positions
  inserted : conflictColumns ⊆ columns
  distinct : columns.Nodup

namespace ConflictTest

theorem laid (test : ConflictTest t columns conflictColumns positions) (same : u.LaidOutAs t) :
    ConflictTest u columns conflictColumns positions :=
  ⟨(conflictPositions_laid same _ _).trans test.found, test.inserted, test.distinct⟩

theorem named (test : ConflictTest t columns conflictColumns positions) {r : Row} (length : r.length = columns.length) :
    ((columns.zip r).map Prod.fst).Nodup := by
  rw [List.map_fst_zip (Nat.le_of_eq length.symm)]
  exact test.distinct

/-- An incoming row has a value in every conflict column. -/
theorem value (test : ConflictTest t columns conflictColumns positions) {r : Row} (length : r.length = columns.length)
    {c : String} (member : c ∈ conflictColumns) :
    ∃ v, columnValue "excluded" columns r c = .ok v ∧ (c, v) ∈ columns.zip r := by
  unfold columnValue
  cases at_j : columns.findIdx? fun n => n == c with
  | none => simpa using List.findIdx?_eq_none_iff.1 at_j c (test.inserted member)
  | some j =>
    obtain ⟨inside, same, -⟩ := List.findIdx?_eq_some_iff_getElem.1 at_j
    have long : j < r.length := length ▸ inside
    refine ⟨r[j], by simp [List.getElem?_eq_getElem long], ?_⟩
    obtain rfl : columns[j] = c := eq_of_beq same
    exact List.mem_iff_getElem.2 ⟨j, by rw [List.length_zip]; exact Nat.lt_min.2 ⟨inside, long⟩, by simp⟩

theorem stores (test : ConflictTest t columns conflictColumns positions) {r row : Row} (length : r.length = columns.length)
    (stored : t.Stores (columns.zip r) row) {c : String} (member : c ∈ conflictColumns) :
    ∃ i column v w, t.columnIndex c = .ok i ∧ t.columns[i]? = some column ∧
      columnValue "excluded" columns r c = .ok v ∧ row[i]? = some w ∧ v.cast? column.type = some w := by
  obtain ⟨v, given, assigned⟩ := test.value length member
  obtain ⟨i, column, w, index, here, found, accepted⟩ := stored.accepted (test.named length) assigned
  exact ⟨i, column, v, w, index, here, given, found, Value.cast?_of_accept accepted⟩

/-- What a table stores of an incoming row agrees with a stored row on the conflict columns when the incoming row
conflicts with it. -/
theorem agreeOn_eq_conflicts (test : ConflictTest t columns conflictColumns positions) {s r row : Row}
    (fits : List.Forall₂ Column.Holds t.columns s) (length : r.length = columns.length)
    (stored : t.Stores (columns.zip r) row) :
    Table.agreeOn (positions.map Prod.fst) s row = conflicts positions s r := by
  have same : ∀ c ∈ conflictColumns, ∀ i, t.columnIndex c = .ok i →
      ((∃ v w, s[i]? = some v ∧ row[i]? = some w ∧ v.equates w = true) ↔ EqualIn t columns s r c) := by
    intro c member i index
    obtain ⟨j, column, v, w, index', here, given, found, cast⟩ := test.stores length stored member
    obtain rfl := Except.ok.inj (index.symm.trans index')
    obtain ⟨x, old, holds⟩ := exists_of_rowFits fits here
    -- what is stored equates the value and its cast alike
    have equal : x.equates w = x.equates v := Value.equates_of_held holds cast
    constructor
    · rintro ⟨x', w', old', found', equates⟩
      obtain rfl := Option.some.inj (old.symm.trans old')
      obtain rfl := Option.some.inj (found.symm.trans found')
      exact ⟨i, x, v, index, old, given, equal ▸ equates⟩
    · rintro ⟨j, x', v', index', old', given', equates⟩
      obtain rfl := Except.ok.inj (index.symm.trans index')
      obtain rfl := Option.some.inj (old.symm.trans old')
      obtain rfl := Except.ok.inj (given.symm.trans given')
      exact ⟨x, w, old, found, equal.trans equates⟩
  rw [Bool.eq_iff_iff, conflicts_iff test.found]
  have pairs := conflictPositions_eq_ok.1 test.found
  -- both sides go through the positions one by one
  clear test stored
  induction pairs with
  | nil => exact ⟨fun _ _ member => (nomatch member), fun _ => rfl⟩
  | @cons c p cs ps here _ ih =>
    obtain ⟨first, others⟩ := List.forall_mem_cons.1 same
    rw [List.forall_mem_cons]
    unfold Table.agreeOn
    rw [List.map_cons, List.all_cons, Bool.and_eq_true]
    refine and_congr ?_ (ih others)
    rw [← first p.1 here.1]
    cases s[p.1]? with
    | none => simp
    | some v => cases row[p.1]? <;> simp

end ConflictTest

/-! ## One incoming row -/

/-- What an incoming row does to a table that has been written to with success: it is inserted when it conflicts with no
stored row; otherwise the first row that it conflicts with is changed, or left alone where there is no update. -/
inductive Upserted (env : Environment) (label : String) (columns : List String) (updated : Option (List Projection))
    (positions : List ConflictColumn) (r : Row) (t : Table) : Bool → Table → Prop where
  | inserted {u : Table} (new : ∀ s ∈ t.rows, conflicts positions s r = false) (done : t.insert (columns.zip r) = .ok u) :
      Upserted env label columns updated positions r t true u
  | met {s : Row} (stored : s ∈ t.rows) (conflict : conflicts positions s r = true) (spared : updated = none) :
      Upserted env label columns updated positions r t false t
  | changed {i : Nat} {s values : Row} {set : List Projection} {u : Table} (stored : t.rows[i]? = some s)
      (conflict : conflicts positions s r = true) (first : ∀ j < i, ∀ s', t.rows[j]? = some s' → conflicts positions s' r = false)
      (updates : updated = some set)
      (evaluated : project { env with incoming := some (columns, r) } [(RowSet.ofTable t label).visible s] set = .ok values)
      (done : t.assign i ((assignedColumns set).zip values) = .ok u) :
      Upserted env label columns updated positions r t true u

theorem conflict_cases (positions : List ConflictColumn) (t : Table) (r : Row) :
    (∀ s ∈ t.rows, conflicts positions s r = false) ∧
        t.rows.zipIdx.find? (fun (s, _) => conflicts positions s r) = none ∨
      ∃ s i, t.rows[i]? = some s ∧ conflicts positions s r = true ∧
        (∀ j < i, ∀ s', t.rows[j]? = some s' → conflicts positions s' r = false) ∧
        t.rows.zipIdx.find? (fun (s, _) => conflicts positions s r) = some (s, i) := by
  cases found : t.rows.zipIdx.find? fun (s, _) => conflicts positions s r with
  | none =>
    left
    refine ⟨fun s member => ?_, rfl⟩
    obtain ⟨i, here⟩ := List.mem_iff_getElem?.1 member
    have none := List.find?_eq_none.1 found (s, i) (List.mem_zipIdx_iff_getElem?.2 here)
    simpa using none
  | some hit =>
    obtain ⟨s, i⟩ := hit
    right
    obtain ⟨conflict, before, after, split, none⟩ := List.find?_eq_some_iff_append.1 found
    have here : t.rows[i]? = some s := List.mem_zipIdx_iff_getElem?.1 (List.mem_of_find?_eq_some found)
    -- rows are numbered from zero, so as many come before as the position says
    have length : before.length = i := by
      have at_i := congrArg (fun l => l[before.length]?) split
      simp only [List.getElem?_zipIdx, List.getElem?_append_right (Nat.le_refl _), Nat.sub_self, List.getElem?_cons_zero,
        Option.map_eq_some_iff] at at_i
      obtain ⟨_, -, same⟩ := at_i
      simpa using congrArg Prod.snd same
    refine ⟨s, i, here, conflict, fun j earlier s' stored => ?_, rfl⟩
    have inside : (s', j) ∈ before := by
      have at_j : t.rows.zipIdx[j]? = some (s', j) := by simp [stored]
      rw [split, List.getElem?_append_left (length ▸ earlier)] at at_j
      exact List.mem_of_getElem? at_j
    simpa using none _ inside

theorem upsertRow_new {r : Row} (new : ∀ s ∈ t.rows, conflicts positions s r = false) :
    (upsertRow env label columns updated positions r).run t = match t.insert (columns.zip r) with
      | .ok u => (.ok true, u)
      | .error e => (.error (.row e), t) := by
  rcases conflict_cases positions t r with ⟨-, none⟩ | ⟨s, i, stored, conflict, -⟩
  · unfold upsertRow
    rw [Write.run_get_bind, none]
    dsimp only
    rw [Write.run_bind, Write.run_change]
    cases t.insert (columns.zip r) <;> rfl
  · rw [new s (List.mem_of_getElem? stored)] at conflict
    cases conflict

theorem upsertRow_met {r s : Row} {i : Nat}
    (found : t.rows.zipIdx.find? (fun (s, _) => conflicts positions s r) = some (s, i)) :
    (upsertRow env label columns updated positions r).run t = match updated with
      | none => (.ok false, t)
      | some set =>
        match project { env with incoming := some (columns, r) } [(RowSet.ofTable t label).visible s] set with
        | .error e => (.error e, t)
        | .ok values =>
          match t.assign i ((assignedColumns set).zip values) with
          | .ok u => (.ok true, u)
          | .error e => (.error (.row e), t) := by
  unfold upsertRow
  rw [Write.run_get_bind, found]
  cases updated with
  | none => rfl
  | some set =>
    dsimp only
    rw [Write.run_bind]
    cases project { env with incoming := some (columns, r) } [(RowSet.ofTable t label).visible s] set with
    | error e => rfl
    | ok values =>
      change ((Write.change fun t => t.assign i ((assignedColumns set).zip values)) >>= fun _ => pure true).run t = _
      rw [Write.run_bind, Write.run_change]
      dsimp only
      cases t.assign i ((assignedColumns set).zip values) <;> rfl

theorem upsertRow_eq_ok {r : Row} {written : Bool}
    (h : (upsertRow env label columns updated positions r).run t = (.ok written, u)) :
    Upserted env label columns updated positions r t written u := by
  rcases conflict_cases positions t r with ⟨new, -⟩ | ⟨s, i, stored, conflict, first, found⟩
  · rw [upsertRow_new new] at h
    split at h
    next v done =>
      obtain ⟨same, rfl⟩ := Prod.mk.inj h
      obtain rfl := Except.ok.inj same
      exact .inserted new done
    next => cases (Prod.mk.inj h).1
  · rw [upsertRow_met found] at h
    split at h
    next =>
      obtain ⟨same, rfl⟩ := Prod.mk.inj h
      obtain rfl := Except.ok.inj same
      exact .met (List.mem_of_getElem? stored) conflict rfl
    -- the first row in conflict is the one that is updated
    next set =>
      split at h
      next => cases (Prod.mk.inj h).1
      next values evaluated =>
        split at h
        next v done =>
          obtain ⟨same, rfl⟩ := Prod.mk.inj h
          obtain rfl := Except.ok.inj same
          exact .changed stored conflict first rfl evaluated done
        next => cases (Prod.mk.inj h).1

/-! ## All incoming rows -/

theorem upsertAll_cons_eq_ok {r : Row} {rest : List Row} {n : Nat} :
    (upsertAll env label columns updated positions (r :: rest)).run t = (.ok n, u) ↔
      ∃ written v others, (upsertRow env label columns updated positions r).run t = (.ok written, v) ∧
        (upsertAll env label columns updated positions rest).run v = (.ok others, u) ∧
        n = if written then others + 1 else others := by
  conv => lhs; unfold upsertAll
  simp only [Write.bind_eq_ok, Write.pure_eq_ok]
  grind

/-! ### Rows that are written to -/

/-- The tables that come from one by inserting incoming rows, and by assigning values to stored rows that equal an
incoming one in every conflict column. -/
inductive ReachedByUpserts (incoming : Row → Prop) (columns conflictColumns : List String) (t : Table) : Table → Prop where
  | start : ReachedByUpserts incoming columns conflictColumns t t
  | insert {u v : Table} {r : Row} (before : ReachedByUpserts incoming columns conflictColumns t u) (comes : incoming r)
      (done : u.insert (columns.zip r) = .ok v) : ReachedByUpserts incoming columns conflictColumns t v
  | update {u v : Table} {i : Nat} {s r : Row} {values : List (String × Value)}
      (before : ReachedByUpserts incoming columns conflictColumns t u) (comes : incoming r) (stored : u.rows[i]? = some s)
      (equal : ∀ c ∈ conflictColumns, EqualIn u columns s r c) (done : u.assign i values = .ok v) :
      ReachedByUpserts incoming columns conflictColumns t v

section

variable {incoming : Row → Prop}

theorem ReachedByUpserts.laid (h : ReachedByUpserts incoming columns conflictColumns t u) : u.LaidOutAs t := by
  induction h with
  | start => exact .refl t
  | insert _ _ done laid => exact (Table.laidOut_kept t).insert done laid
  | update _ _ _ _ done laid => exact (Table.laidOut_kept t).assign done laid

variable (found : conflictPositions t columns conflictColumns = .ok positions)
include found

theorem upsertRow_reached {r : Row} (comes : incoming r) :
    Write.Ensures (ReachedByUpserts incoming columns conflictColumns t) (fun _ => True)
      (upsertRow env label columns updated positions r) := by
  intro u before
  refine ⟨?_, fun _ _ => trivial⟩
  rcases conflict_cases positions u r with ⟨new, -⟩ | ⟨s, i, stored, conflict, -, first⟩
  · rw [upsertRow_new new]
    split
    next v done => exact before.insert comes done
    next => exact before
  · have found : conflictPositions u columns conflictColumns = .ok positions :=
      (conflictPositions_laid before.laid _ _).trans found
    rw [upsertRow_met first]
    split
    next => exact before
    next set =>
      split
      next => exact before
      next values =>
        split
        next v done => exact before.update comes stored ((conflicts_iff found).1 conflict) done
        next => exact before

theorem upsertAll_reached {rows : List Row} (come : ∀ r ∈ rows, incoming r) :
    Write.Ensures (ReachedByUpserts incoming columns conflictColumns t) (fun _ => True)
      (upsertAll env label columns updated positions rows) := by
  induction rows with
  | nil => exact .pure _
  | cons r rest ih =>
    obtain ⟨first, others⟩ := List.forall_mem_cons.1 come
    exact .bind (upsertRow_reached found first) fun _ => .bind (ih others) fun _ => .pure _

end

/-! ### Rows that are kept apart -/

section

variable (test : ConflictTest t columns conflictColumns positions)
include test

theorem ConflictTest.mem_positions {i : Nat} :
    i ∈ positions.map Prod.fst ↔ ∃ c ∈ conflictColumns, t.columnIndex c = .ok i := by
  have pairs := conflictPositions_eq_ok.1 test.found
  clear test
  induction pairs with
  | nil => simp
  | @cons c p cs ps here _ ih =>
    rw [List.map_cons, List.mem_cons, List.exists_mem_cons_iff, here.1]
    exact or_congr ⟨fun same => by rw [same], fun same => (Except.ok.inj same).symm⟩ ih

theorem ConflictTest.apart (same : u.LaidOutAs t) (fit : u.RowsFit) {r row : Row} (length : r.length = columns.length)
    (new : ∀ s ∈ u.rows, conflicts positions s r = false) (stored : u.Stores (columns.zip r) row) {key : UniqueKey}
    (isKey : t.IsKeyOn conflictColumns key) : ∀ s ∈ u.rows, Table.agreeOn key.columns s row = false := by
  intro s member
  rw [Bool.eq_false_iff]
  intro agree
  have fewer : positions.map Prod.fst ⊆ key.columns := fun i inside => (isKey i).2 (test.mem_positions.1 inside)
  have conflict := (test.laid same).agreeOn_eq_conflicts (fit s member) length stored
  rw [Table.agreeOn_of_subset fewer agree, new s member] at conflict
  cases conflict

variable (spared : ∀ set, updated = some set → ∀ c ∈ conflictColumns, c ∉ assignedColumns set)
include spared

theorem upsertRow_apart {r : Row} (length : r.length = columns.length) :
    Write.Ensures (t.ApartOn conflictColumns) (fun e => ∀ e', e = .row e' → t.BlamesOtherKeys conflictColumns e')
      (upsertRow env label columns updated positions r) := by
  intro u kept
  -- a row that conflicts with none is apart from all and inserted; the first one in conflict is updated or left
  rcases conflict_cases positions u r with ⟨new, -⟩ | ⟨s, i, -, -, -, found⟩
  · have admitted : ∀ row, u.Stores (columns.zip r) row → ∀ key, t.IsKeyOn conflictColumns key →
        ∀ s ∈ u.rows, Table.agreeOn key.columns s row = false :=
      fun row stores key isKey => test.apart kept.laid kept.fit length new stores isKey
    rw [upsertRow_new new]
    cases inserted : u.insert (columns.zip r) with
    | ok v => exact ⟨kept.insert admitted inserted, fun _ failed => nomatch failed⟩
    | error e =>
      refine ⟨kept, ?_⟩
      rintro _ ⟨⟩ _ ⟨⟩
      exact kept.insert_eq_error admitted inserted
  · rw [upsertRow_met found]
    cases updated with
    | none => exact ⟨kept, fun _ failed => nomatch failed⟩
    | some set =>
      dsimp only
      cases evaluated : project { env with incoming := some (columns, r) } [(RowSet.ofTable u label).visible s] set with
      | error e =>
        refine ⟨kept, ?_⟩
        rintro _ ⟨⟩ e rfl
        refine Table.blamesOtherKeys_of_other ?_
        rintro table key values rfl
        cases project_reads _ _ _ _ evaluated
      | ok values =>
        dsimp only
        cases assigned : u.assign i ((assignedColumns set).zip values) with
        | error e =>
          refine ⟨kept, ?_⟩
          rintro _ ⟨⟩ _ ⟨⟩
          exact Table.blamesOtherKeys_of_other (Table.isOther_of_assign assigned)
        | ok v =>
          refine ⟨kept.assign (fun value given named => ?_) assigned, fun _ failed => nomatch failed⟩
          exact spared set rfl value.1 named (List.of_mem_zip given).1

theorem upsertAll_apart {rows : List Row} (length : ∀ r ∈ rows, r.length = columns.length) :
    Write.Ensures (t.ApartOn conflictColumns) (fun e => ∀ e', e = .row e' → t.BlamesOtherKeys conflictColumns e')
      (upsertAll env label columns updated positions rows) := by
  induction rows with
  | nil => exact .pure _
  | cons r rest ih =>
    obtain ⟨first, others⟩ := List.forall_mem_cons.1 length
    exact .bind (upsertRow_apart test spared first) fun _ => .bind (ih others) fun _ => .pure _

end

/-! ### Upserts without an update -/

section

variable (test : ConflictTest t columns conflictColumns positions)
  (exact : ∀ c ∈ conflictColumns, ∀ i column, t.columnIndex c = .ok i → t.columns[i]? = some column → column.type ≠ .real)
include test exact

theorem ConflictTest.conflicts_stored {r row : Row} (length : r.length = columns.length)
    (present : ∀ c ∈ conflictColumns, columnValue "excluded" columns r c ≠ .ok .null)
    (stored : t.Stores (columns.zip r) row) : conflicts positions row r = true := by
  refine (conflicts_iff test.found).2 fun c member => ?_
  obtain ⟨i, column, v, w, index, here, given, found, cast⟩ := test.stores length stored member
  refine ⟨i, w, v, index, found, given, Value.equates_of_cast? cast (exact c member i column index here) ?_⟩
  rintro rfl
  exact present c member given

theorem upsertAll_inserts {rows : List Row} (length : ∀ r ∈ rows, r.length = columns.length)
    (present : ∀ r ∈ rows, ∀ c ∈ conflictColumns, columnValue "excluded" columns r c ≠ .ok .null) {n : Nat}
    (h : (upsertAll env label columns none positions rows).run t = (.ok n, u)) :
    u.LaidOutAs t ∧ (∃ added, u.rows = t.rows ++ added ∧ added.length = n) ∧
      ∀ r ∈ rows, ∃ s ∈ u.rows, conflicts positions s r = true := by
  induction rows generalizing t n with
  | nil =>
    obtain ⟨rfl, rfl⟩ := Write.pure_eq_ok.1 h
    exact ⟨.refl t, ⟨[], (List.append_nil _).symm, rfl⟩, fun _ member => nomatch member⟩
  | cons r rest ih =>
    obtain ⟨first, others⟩ := List.forall_mem_cons.1 length
    obtain ⟨here, behind⟩ := List.forall_mem_cons.1 present
    obtain ⟨written, v, k, step, later, rfl⟩ := upsertAll_cons_eq_ok.1 h
    -- the row is met by one that is stored already, or it is stored itself and met from then on
    cases upsertRow_eq_ok step with
    | met stored conflict =>
      obtain ⟨laid, ⟨added, rows, count⟩, covered⟩ := ih test exact others behind later
      refine ⟨laid, ⟨added, rows, count⟩, List.forall_mem_cons.2 ⟨⟨_, ?_, conflict⟩, covered⟩⟩
      rw [rows]
      exact List.mem_append_left _ stored
    | inserted new done =>
      obtain ⟨grown, row, stores, appended⟩ := Table.insert_stores done
      have exact' : ∀ c ∈ conflictColumns, ∀ i column, v.columnIndex c = .ok i → v.columns[i]? = some column →
          column.type ≠ .real := by
        obtain ⟨rows, next, rfl⟩ := grown
        exact exact
      obtain ⟨laid, ⟨added, rows, count⟩, covered⟩ := ih (test.laid grown) exact' others behind later
      rw [appended, List.append_assoc] at rows
      refine ⟨laid.trans grown, ⟨row :: added, rows, congrArg (· + 1) count⟩, List.forall_mem_cons.2 ⟨⟨row, ?_, ?_⟩, covered⟩⟩
      · rw [rows]
        exact List.mem_append_right _ List.mem_cons_self
      · exact test.conflicts_stored exact first here stores
    | changed _ _ _ updates => cases updates

end

theorem upsertAll_idle {rows : List Row} (covered : ∀ r ∈ rows, ∃ s ∈ t.rows, conflicts positions s r = true) :
    (upsertAll env label columns none positions rows).run t = (.ok 0, t) := by
  induction rows with
  | nil => rfl
  | cons r rest ih =>
    obtain ⟨⟨s, stored, conflict⟩, others⟩ := List.forall_mem_cons.1 covered
    refine upsertAll_cons_eq_ok.2 ⟨false, t, 0, ?_, ih others, rfl⟩
    rcases conflict_cases positions t r with ⟨new, -⟩ | ⟨_, _, -, -, -, found⟩
    · rw [new s stored] at conflict
      cases conflict
    · exact upsertRow_met found

/-! ## The statement -/

section

variable {db : Database} {table : StoredTable} {source : Option Select} {inserted : List Projection}
  {constraint : String}

theorem write_upsert_eq_ok {n : Nat} :
    (write db env (.upsert table source inserted updated constraint conflictColumns)).run t = (.ok n, u) ↔
      ∃ rows positions, incomingRows db env source inserted = .ok rows ∧
        conflictPositions t (assignedColumns inserted) conflictColumns = .ok positions ∧
        (upsertAll env table.label (assignedColumns inserted) updated positions rows).run t = (.ok n, u) := by
  unfold write
  simp only [Write.bind_eq_ok, Write.ofResult_eq_ok, Write.get_eq_ok]
  constructor
  · rintro ⟨rows, _, ⟨incoming, rfl⟩, _, _, ⟨rfl, rfl⟩, positions, _, ⟨found, rfl⟩, written⟩
    exact ⟨rows, positions, incoming, found, written⟩
  · rintro ⟨rows, positions, incoming, found, written⟩
    exact ⟨rows, t, ⟨incoming, rfl⟩, t, t, ⟨rfl, rfl⟩, positions, t, ⟨found, rfl⟩, written⟩

theorem length_of_project {frame : Frame} {r : Row} (h : project env frame inserted = .ok r) :
    r.length = (assignedColumns inserted).length := by
  rw [length_of_evalAll h, List.length_map, assignedColumns, List.length_map]

theorem length_of_projectAll {frames : List Frame} {rows : List Row} (h : projectAll env inserted frames = .ok rows) :
    ∀ r ∈ rows, r.length = (assignedColumns inserted).length := by
  induction frames generalizing rows with
  | nil =>
    obtain rfl := Except.ok.inj h
    exact List.forall_mem_nil _
  | cons f rest ih =>
    obtain ⟨r, here, h⟩ := bind_eq_ok.1 h
    obtain ⟨others, later, h⟩ := bind_eq_ok.1 h
    obtain rfl := pure_eq_ok.1 h
    exact List.forall_mem_cons.2 ⟨length_of_project here, ih later⟩

theorem length_of_incomingRows {rows : List Row} (h : incomingRows db env source inserted = .ok rows) :
    ∀ r ∈ rows, r.length = (assignedColumns inserted).length := by
  cases source with
  | some s =>
    obtain ⟨frames, -, projected⟩ := bind_eq_ok.1 h
    exact length_of_projectAll projected
  | none =>
    obtain ⟨r, here, h⟩ := bind_eq_ok.1 h
    obtain rfl := pure_eq_ok.1 h
    exact List.forall_mem_singleton.2 (length_of_project here)

theorem blamesOtherKeys_of_reads {α : Type} {x : Except Error α} (reads : Reads x) {names : List String} :
    ∀ e, x = .error e → ∀ e', e = .row e' → t.BlamesOtherKeys names e' := by
  rintro _ failed e rfl table key values rfl
  cases reads _ failed

theorem writeChecked_upsert_apart {ps : Parameters} (included : conflictColumns ⊆ assignedColumns inserted)
    (distinct : (assignedColumns inserted).Nodup)
    (spared : ∀ set, updated = some set → ∀ c ∈ conflictColumns, c ∉ assignedColumns set) :
    Write.Ensures (t.ApartOn conflictColumns) (fun e => ∀ e', e = .row e' → t.BlamesOtherKeys conflictColumns e')
      (writeChecked db ps (.upsert table source inserted updated constraint conflictColumns)) := by
  unfold writeChecked
  refine .bind ?_ fun n => .get_bind fun u kept => ?_
  · unfold write
    refine .ofResult_bind (blamesOtherKeys_of_reads (incomingRows_reads db _ source inserted)) fun rows incoming => ?_
    refine .get_bind fun u kept => ?_
    refine .ofResult_bind (blamesOtherKeys_of_reads (conflictPositions_reads u _ conflictColumns)) fun positions found => ?_
    rw [conflictPositions_laid kept.laid] at found
    exact upsertAll_apart ⟨found, included, distinct⟩ spared (length_of_incomingRows incoming)
  · cases unique : u.checkUnique with
    | ok => exact .pure _
    | error e =>
      refine fun v apart => ⟨apart, ?_⟩
      rintro _ ⟨⟩ _ ⟨⟩
      exact kept.checkUnique unique

end

end Execution

end Setwise
