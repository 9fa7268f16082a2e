import Setwise.Proofs.AgreeingWrites
import Setwise.Proofs.Exposure
import Setwise.Proofs.Identity

/-!
The rows that a full merge leaves.

A merge with a condition that only equal rows satisfy keeps the rows that equal some source row, deletes the others, and
inserts the source rows that equal none (`Classified`). Updates spare the compared columns, and what an insert stores
equals what it is given (`equates_of_cast?`), so that in the end every stored row equals a source row and every source
row a stored one (`merge_reconciles`).
-/

set_option autoImplicit false

namespace Setwise

/-! ## Values as columns store them -/

namespace Value

theorem eq_of_compareBytes {as bs : List UInt8} (h : compareBytes as bs = .eq) : as = bs := by
  induction as generalizing bs with
  | nil =>
    cases bs with
    | nil => rfl
    | cons b bs => cases h
  | cons a as ih =>
    cases bs with
    | nil => cases h
    | cons b bs =>
      rw [compareBytes, Ordering.then_eq_eq, Nat.compare_eq_eq] at h
      rw [ih h.2, UInt8.toNat_inj.1 h.1]

theorem compareBytes_eq_eq {as bs : List UInt8} : compareBytes as bs = .eq ↔ as = bs := by
  refine ⟨eq_of_compareBytes, ?_⟩
  rintro rfl
  induction as with
  | nil => rfl
  | cons a as ih => rw [compareBytes, ih, Nat.compare_eq_eq.2 rfl]; rfl

theorem bit_inj {a b : Bool} : bit a = bit b ↔ a = b := by
  cases a <;> cases b <;> simp [bit]

section

variable {i j : Int} {a b : Bool} {s t : String} {as bs : List UInt8}

@[simp] theorem equates_int_int : equates (int i) (int j) = true ↔ i = j := by
  simp [equates, compare?]

@[simp] theorem equates_int_bool : equates (int i) (bool b) = true ↔ i = bit b := by
  simp [equates, compare?]

@[simp] theorem equates_bool_int : equates (bool a) (int j) = true ↔ bit a = j := by
  simp [equates, compare?]

@[simp] theorem equates_bool_bool : equates (bool a) (bool b) = true ↔ a = b := by
  simp [equates, compare?, bit_inj]

@[simp] theorem equates_text_text : equates (text s) (text t) = true ↔ s = t := by
  simp [equates, compare?]

@[simp] theorem equates_blob_blob : equates (blob as) (blob bs) = true ↔ as = bs := by
  simp [equates, compare?, compareBytes_eq_eq]

end

/-- What a column stores of a value equals the value, unless the column stores reals. -/
theorem equates_of_cast? {v w : Value} {type : ColumnType} (h : v.cast? type = some w) (exact : type ≠ .real)
    (present : v ≠ .null) : w.equates v = true := by
  cases v with
  | null => exact absurd rfl present
  | int i =>
    cases type with
    | integer => obtain rfl := Option.some.inj h; simp
    | boolean =>
      simp only [cast?] at h
      split at h
      next zeroOrOne => obtain rfl := Option.some.inj h; rcases zeroOrOne with rfl | rfl <;> simp [bit]
      next => cases h
    | real => exact absurd rfl exact
    | text | blob => cases h
  | bool b =>
    cases type with
    | integer => obtain rfl := Option.some.inj h; cases b <;> simp [bit]
    | boolean => obtain rfl := Option.some.inj h; simp
    | real | text | blob => cases h
  | text s => cases type <;> cases h; simp
  | blob bs => cases type <;> cases h; simp
  | real x => cases type <;> first | cases h; done | exact absurd rfl exact

theorem cast?_of_accept {c : Column} {v w : Value} (h : c.accept v = .ok w) : v.cast? c.type = some w := by
  unfold Column.accept at h
  split at h
  next => cases h
  next =>
    split at h
    next stored cast =>
      obtain rfl := Except.ok.inj h
      exact cast
    next => cases h

/-- The value is a real that is nearest to two integers at a time. -/
def NearestToBoth (v w w' : Value) : Prop :=
  ∃ x i j, v = real x ∧ w = int i ∧ w' = int j ∧ i ≠ j ∧ compareReals? (Float.ofInt i) x = some .eq ∧
    compareReals? (Float.ofInt j) x = some .eq

theorem equates_or_nearest {v w w' : Value} {type : ColumnType} (left : w.type? = some type)
    (right : w'.type? = some type) (exact : type ≠ .real) (h : w.equates v = true) (h' : w'.equates v = true) :
    w.equates w' = true ∨ NearestToBoth v w w' := by
  cases w with
  | int i =>
    obtain rfl := Option.some.inj left
    cases w' with
    | int j =>
      cases v with
      | real x =>
        -- two integers may have one nearest real, and then both equate it
        by_cases same : i = j
        · exact .inl (by simp [same])
        · exact .inr ⟨x, i, j, rfl, rfl, rfl, same, by simpa [equates, compare?] using h,
            by simpa [equates, compare?] using h'⟩
      | int k => exact .inl (by simp_all)
      | bool b => exact .inl (by simp_all)
      | text _ | blob _ | null => cases h
    | text _ | blob _ | real _ | bool _ | null => cases right
  | text s =>
    obtain rfl := Option.some.inj left
    cases w' with
    | text t =>
      cases v with
      | text u => exact .inl (by simp_all)
      | int _ | bool _ | blob _ | real _ | null => cases h
    | int _ | blob _ | real _ | bool _ | null => cases right
  | blob bs =>
    obtain rfl := Option.some.inj left
    cases w' with
    | blob cs =>
      cases v with
      | blob ds => exact .inl (by simp_all)
      | int _ | bool _ | text _ | real _ | null => cases h
    | int _ | text _ | real _ | bool _ | null => cases right
  | bool b =>
    obtain rfl := Option.some.inj left
    cases w' with
    | bool c =>
      cases v with
      | int k =>
        exact .inl (equates_bool_bool.2 (bit_inj.1 ((equates_bool_int.1 h).trans (equates_bool_int.1 h').symm)))
      | bool d => exact .inl (by simp_all)
      | text _ | blob _ | real _ | null => cases h
    | int _ | text _ | real _ | blob _ | null => cases right
  | real x => exact absurd (Option.some.inj left).symm exact
  | null => cases left

end Value

/-! ## Tables of one layout -/

namespace Table

variable {t u : Table}

theorem LaidOutAs.refl (t : Table) : t.LaidOutAs t :=
  ⟨t.rows, t.nextIdentity, rfl⟩

theorem LaidOutAs.trans {v : Table} (first : t.LaidOutAs u) (second : u.LaidOutAs v) : t.LaidOutAs v := by
  obtain ⟨rows, next, rfl⟩ := first
  obtain ⟨rows', next', rfl⟩ := second
  exact ⟨rows, next, rfl⟩

theorem columnIndex_inj {name name' : String} {i : Nat} (h : t.columnIndex name = .ok i)
    (h' : t.columnIndex name' = .ok i) : name = name' := by
  unfold columnIndex at h h'
  split at h
  next j found =>
    obtain rfl := Except.ok.inj h
    split at h'
    next k found' =>
      obtain rfl := Except.ok.inj h'
      obtain ⟨inside, first, -⟩ := List.findIdx?_eq_some_iff_getElem.1 found
      obtain ⟨_, second, -⟩ := List.findIdx?_eq_some_iff_getElem.1 found'
      exact (eq_of_beq first).symm.trans (eq_of_beq second)
    next => cases h'
  next => cases h

theorem column_of_columnIndex {name : String} {i : Nat} (h : t.columnIndex name = .ok i) :
    ∃ c, t.columns[i]? = some c ∧ c.name = name := by
  unfold columnIndex at h
  split at h
  next j found =>
    obtain rfl := Except.ok.inj h
    obtain ⟨inside, first, -⟩ := List.findIdx?_eq_some_iff_getElem.1 found
    exact ⟨_, List.getElem?_eq_getElem inside, eq_of_beq first⟩
  next => cases h

theorem columnValue_eq_ok {label name : String} {row : Row} {v : Value} :
    Execution.columnValue label t.columnNames row name = .ok v ↔
      ∃ i, t.columnIndex name = .ok i ∧ row[i]? = some v := by
  unfold Execution.columnValue columnIndex columnNames
  rw [List.findIdx?_map]
  simp only [Function.comp_def]
  cases t.columns.findIdx? fun c => c.name == name with
  | none => simp
  | some i =>
    dsimp only
    cases here : row[i]? with
    | none => simp [here]
    | some w => simp [here]

def Stores (t : Table) (values : List (String × Value)) (row : Row) : Prop :=
  ∃ blank changed, blank.length = t.columns.length ∧ t.setNamed blank values = .ok changed ∧
    t.validate changed = .ok row

theorem LaidOutAs.setNamed (same : u.LaidOutAs t) (row : Row) (values : List (String × Value)) :
    u.setNamed row values = t.setNamed row values := by
  obtain ⟨rows, next, rfl⟩ := same
  induction values generalizing row with
  | nil => rfl
  | cons v rest ih =>
    unfold Table.setNamed
    simp only [ih]
    rfl

theorem LaidOutAs.stores (same : u.LaidOutAs t) {values : List (String × Value)} {row : Row}
    (h : u.Stores values row) : t.Stores values row := by
  obtain ⟨blank, changed, length, named, valid⟩ := h
  rw [same.setNamed] at named
  obtain ⟨rows, next, rfl⟩ := same
  exact ⟨blank, changed, length, named, valid⟩

theorem length_blankRow (t : Table) : t.blankRow.length = t.columns.length := by
  unfold blankRow
  dsimp only
  split <;> simp

theorem insert_stores {values : List (String × Value)} (h : t.insert values = .ok u) :
    u.LaidOutAs t ∧ ∃ row, t.Stores values row ∧ u.rows = t.rows ++ [row] := by
  obtain ⟨changed, named, h⟩ := bind_eq_ok.1 h
  obtain ⟨stored, next, valid, rfl⟩ := append_eq_ok h
  exact ⟨⟨_, next, rfl⟩, stored, ⟨t.blankRow, changed, length_blankRow t, named, valid⟩, rfl⟩

theorem columnIndex_of_setNamed {row changed : Row} {values : List (String × Value)}
    (h : t.setNamed row values = .ok changed) : ∀ v ∈ values, ∃ i, t.columnIndex v.1 = .ok i := by
  induction values generalizing row with
  | nil => exact fun _ member => nomatch member
  | cons v rest ih =>
    obtain ⟨i, found, h⟩ := bind_eq_ok.1 h
    exact List.forall_mem_cons.2 ⟨⟨i, found⟩, ih h⟩

theorem setNamed_sets {row changed : Row} {values : List (String × Value)} (length : row.length = t.columns.length)
    (distinct : (values.map Prod.fst).Nodup) (h : t.setNamed row values = .ok changed) {name : String} {v : Value}
    (member : (name, v) ∈ values) {i : Nat} (index : t.columnIndex name = .ok i) : changed[i]? = some v := by
  induction values generalizing row with
  | nil => cases member
  | cons first rest ih =>
    obtain ⟨new, distinct⟩ := List.nodup_cons.1 distinct
    obtain ⟨j, found, h⟩ := bind_eq_ok.1 h
    rcases List.mem_cons.1 member with rfl | later
    · obtain rfl := Except.ok.inj (found.symm.trans index)
      have others : ∀ w ∈ rest, t.columnIndex w.1 ≠ .ok j := by
        intro w inside same
        exact new (List.mem_map.2 ⟨w, inside, columnIndex_inj same found⟩)
      rw [getElem?_setNamed h others]
      obtain ⟨c, here, -⟩ := column_of_columnIndex found
      exact List.getElem?_set_self (length ▸ (List.getElem?_eq_some_iff.1 here).1)
    · exact ih (by rw [List.length_set, length]) distinct h later

theorem Stores.accepted {values : List (String × Value)} {row : Row} (h : t.Stores values row)
    (distinct : (values.map Prod.fst).Nodup) {name : String} {v : Value} (member : (name, v) ∈ values) :
    ∃ i c w, t.columnIndex name = .ok i ∧ t.columns[i]? = some c ∧ row[i]? = some w ∧ c.accept v = .ok w := by
  obtain ⟨blank, changed, length, named, valid⟩ := h
  obtain ⟨i, index⟩ := columnIndex_of_setNamed named _ member
  obtain ⟨c, here, -⟩ := column_of_columnIndex index
  obtain ⟨v', w, given, stored, accepted⟩ := getElem?_validate valid here
  rw [setNamed_sets length distinct named member index] at given
  obtain rfl := Option.some.inj given
  exact ⟨i, c, w, index, here, stored, accepted⟩

/-! ### Changes to stored rows -/

def Spares (t : Table) (columns : List String) (row row' : Row) : Prop :=
  ∀ i, (∀ c ∈ columns, t.columnIndex c ≠ .ok i) → row'[i]? = row[i]?

theorem forall₂_set {α : Type} {R : α → α → Prop} (refl : ∀ a, R a a) {l : List α} {i : Nat} {a b : α}
    (here : l[i]? = some a) (changed : R a b) : List.Forall₂ R l (l.set i b) := by
  induction l generalizing i with
  | nil => cases here
  | cons c l ih =>
    cases i with
    | zero =>
      obtain rfl := Option.some.inj here
      exact .cons changed (List.forall₂_same.2 fun a _ => refl a)
    | succ i => exact .cons (refl c) (ih (by simpa using here))

theorem getElem?_of_forall₂ {α β : Type} {R : α → β → Prop} {l : List α} {k : List β} (h : List.Forall₂ R l k) {i : Nat}
    {b : β} (here : k[i]? = some b) : ∃ a, l[i]? = some a ∧ R a b := by
  obtain ⟨inside, rfl⟩ := List.getElem?_eq_some_iff.1 here
  have inside' : i < l.length := h.length_eq ▸ inside
  exact ⟨l[i], List.getElem?_eq_getElem inside', h.get inside' inside⟩

theorem forall₂_trans {α : Type} {R : α → α → Prop} (trans : ∀ a b c, R a b → R b c → R a c) {l k n : List α}
    (first : List.Forall₂ R l k) (second : List.Forall₂ R k n) : List.Forall₂ R l n := by
  induction first generalizing n with
  | nil => exact second
  | cons here _ ih =>
    cases second with
    | cons next later => exact .cons (trans _ _ _ here next) (ih later)

theorem assign_spares {columns : List String} {index : Nat} {values : Row} (fit : t.RowsFit)
    (h : t.assign index (columns.zip values) = .ok u) :
    u.LaidOutAs t ∧ u.RowsFit ∧ List.Forall₂ (t.Spares columns) t.rows u.rows := by
  have kept := (rowsFit_kept t.name).assign h ⟨rfl, fit⟩
  obtain ⟨row, changed, stored, found, named, valid, rfl⟩ := assign_eq_ok h
  refine ⟨⟨_, t.nextIdentity, rfl⟩, kept.2, forall₂_set (fun _ _ _ => rfl) found fun i spared => ?_⟩
  exact getElem?_of_assigned (fit row (List.mem_of_getElem? found)) named valid fun v member =>
    spared v.1 (List.of_mem_zip member).1

theorem mem_remove {indices : List Nat} {row : Row} :
    row ∈ (t.remove indices).rows ↔ ∃ i, t.rows[i]? = some row ∧ i ∉ indices := by
  simp [remove, List.mem_zipIdx_iff_getElem?]

end Table

namespace Execution

open Relational

variable {env : Environment} {t u : Table}

theorem assignAll_spares {columns : List String} {changes : List (Nat × Row)} (fit : t.RowsFit)
    (h : (Write.assignAll columns changes).run t = (.ok (), u)) :
    u.LaidOutAs t ∧ List.Forall₂ (t.Spares columns) t.rows u.rows := by
  induction changes generalizing t with
  | nil =>
    obtain ⟨-, rfl⟩ := Write.pure_eq_ok.1 h
    exact ⟨.refl t, List.forall₂_same.2 fun _ _ _ _ => rfl⟩
  | cons c rest ih =>
    obtain ⟨index, values⟩ := c
    obtain ⟨_, v, first, last⟩ := Write.bind_eq_ok.1 h
    rw [Write.run_change] at first
    cases assigned : t.assign index (columns.zip values) with
    | error e => rw [assigned] at first; cases (Prod.mk.inj first).1
    | ok v' =>
      rw [assigned] at first
      obtain rfl : v' = v := (Prod.mk.inj first).2
      obtain ⟨laid, fit', here⟩ := Table.assign_spares fit assigned
      obtain ⟨laid', later⟩ := ih fit' last
      have layout : v'.Spares columns = t.Spares columns := by
        obtain ⟨rows, next, rfl⟩ := laid
        rfl
      rw [layout] at later
      refine ⟨laid'.trans laid, Table.forall₂_trans (fun _ _ _ before after i spared => ?_) here later⟩
      exact (after i spared).trans (before i spared)

theorem insertAll_stores {columns : List String} {rows : List Row}
    (h : (Write.insertAll columns rows).run t = (.ok (), u)) :
    u.LaidOutAs t ∧ ∃ stored, List.Forall₂ (fun values row => t.Stores (columns.zip values) row) rows stored ∧
      u.rows = t.rows ++ stored := by
  induction rows generalizing t with
  | nil =>
    obtain ⟨-, rfl⟩ := Write.pure_eq_ok.1 h
    exact ⟨.refl t, [], .nil, by simp⟩
  | cons values rest ih =>
    obtain ⟨_, v, first, last⟩ := Write.bind_eq_ok.1 h
    rw [Write.run_change] at first
    cases inserted : t.insert (columns.zip values) with
    | error e => rw [inserted] at first; cases (Prod.mk.inj first).1
    | ok v' =>
      rw [inserted] at first
      obtain rfl : v' = v := (Prod.mk.inj first).2
      obtain ⟨laid, row, here, rows⟩ := Table.insert_stores inserted
      obtain ⟨laid', stored, later, rows'⟩ := ih last
      refine ⟨laid'.trans laid, row :: stored, .cons here (later.imp fun _ _ => laid.stores), ?_⟩
      rw [rows', rows, List.append_assoc]
      rfl

/-! ## What a merge finds -/

section

variable {target source : RowSet} {on : Scalar}

def Meets (env : Environment) (target source : RowSet) (on : Scalar) (row r : Row) : Prop :=
  holds env [target.visible row, source.visible r] on = .ok true

theorem partners_eq_ok {row : Row} {position : Nat} {rows : List Row} {found : List (Nat × Row)}
    (h : partners env target source on row position rows = .ok found) :
    ∀ p ∈ found, ∃ j, p.1 = position + j ∧ rows[j]? = some p.2 ∧ Meets env target source on row p.2 := by
  induction rows generalizing position found with
  | nil =>
    obtain rfl := Except.ok.inj h
    exact fun _ member => nomatch member
  | cons r rest ih =>
    obtain ⟨keep, here, h⟩ := bind_eq_ok.1 h
    obtain ⟨others, later, h⟩ := bind_eq_ok.1 h
    obtain rfl := pure_eq_ok.1 h
    have behind : ∀ p ∈ others, ∃ j, p.1 = position + j ∧ (r :: rest)[j]? = some p.2 ∧
        Meets env target source on row p.2 := by
      intro p member
      obtain ⟨j, at_j, found, meets⟩ := ih later p member
      exact ⟨j + 1, by omega, by simpa using found, meets⟩
    cases keep with
    | true => exact List.forall_mem_cons.2 ⟨⟨0, rfl, rfl, here⟩, behind⟩
    | false => exact behind

/-- The rows from a position on are told apart: those that are not deleted have a partner, and every source row that
counts as matched has one that is not deleted. -/
structure Classified (env : Environment) (target source : RowSet) (on : Scalar) (position : Nat) (rows : List Row)
    (changes : MergeChanges) : Prop where
  kept : ∀ (i : Nat) (row : Row), rows[i]? = some row → position + i ∉ changes.deletes →
    ∃ r ∈ source.rows, Meets env target source on row r
  matched : ∀ j ∈ changes.matched, ∃ i row r, rows[i]? = some row ∧ position + i ∉ changes.deletes ∧
    source.rows[j]? = some r ∧ Meets env target source on row r
  behind : ∀ i ∈ changes.deletes, position ≤ i

theorem mergeChanges_classified {set : Option (List Projection)} {position : Nat} {rows : List Row}
    {changes : MergeChanges} (h : mergeChanges env target source on set true position rows = .ok changes) :
    Classified env target source on position rows changes := by
  induction rows generalizing position changes with
  | nil =>
    obtain rfl := Except.ok.inj h
    exact ⟨fun _ _ none => by simp at none, fun _ member => (nomatch member), fun _ member => (nomatch member)⟩
  | cons row rest ih =>
    obtain ⟨found, update, others, here, -, later, rfl⟩ := mergeChanges_cons_eq_ok h
    obtain ⟨kept, matched, behind⟩ := ih later
    have partner := partners_eq_ok here
    have first : position ∉ others.deletes := fun member => by
      have := behind position member
      omega
    -- the head is deleted when it has no partner
    have deletes (i : Nat) : i ∈ (if found.isEmpty && true then position :: others.deletes else others.deletes) ↔
        (i = position ∧ found = []) ∨ i ∈ others.deletes := by
      cases found <;> simp
    refine ⟨?_, ?_, ?_⟩
    · intro i row' at_i outside
      simp only [deletes, not_or, not_and] at outside
      cases i with
      | zero =>
        obtain rfl : row = row' := by simpa using at_i
        obtain ⟨p, member⟩ := List.exists_mem_of_ne_nil found (outside.1 rfl)
        obtain ⟨j, -, inside, meets⟩ := partner p member
        exact ⟨p.2, List.mem_of_getElem? inside, meets⟩
      | succ i =>
        refine kept i row' (by simpa using at_i) ?_
        rw [Nat.add_right_comm]
        exact outside.2
    · intro j member
      rcases List.mem_append.1 member with own | other
      · obtain ⟨p, inside, rfl⟩ := List.mem_map.1 own
        obtain ⟨k, at_k, there, meets⟩ := partner p inside
        refine ⟨0, row, p.2, rfl, ?_, by rw [at_k, Nat.zero_add]; exact there, meets⟩
        simp only [deletes, not_or, not_and]
        exact ⟨fun _ => List.ne_nil_of_mem inside, first⟩
      · obtain ⟨i, row', r, at_i, outside, there, meets⟩ := matched j other
        refine ⟨i + 1, row', r, by simpa using at_i, ?_, there, meets⟩
        simp only [deletes, not_or, not_and]
        exact ⟨fun same => by omega, by rwa [Nat.add_comm i 1, ← Nat.add_assoc]⟩
    · intro i member
      rcases (deletes i).1 member with ⟨rfl, -⟩ | later
      · exact Nat.le_refl i
      · have := behind i later
        omega

theorem mergeInserts_eq_ok {matched : List Nat} {inserted : List Projection} {position : Nat} {rows inserts : List Row}
    (h : mergeInserts env source matched inserted position rows = .ok inserts) :
    (∀ values ∈ inserts, ∃ r ∈ rows, project env [source.visible r] inserted = .ok values) ∧
      ∀ (j : Nat) (r : Row), rows[j]? = some r → position + j ∉ matched →
        ∃ values ∈ inserts, project env [source.visible r] inserted = .ok values := by
  induction rows generalizing position inserts with
  | nil =>
    obtain rfl := Except.ok.inj h
    exact ⟨fun _ member => (nomatch member), fun _ _ none => by simp at none⟩
  | cons r rest ih =>
    have later {inserts : List Row}
        (run : mergeInserts env source matched inserted (position + 1) rest = .ok inserts) (j : Nat) (r' : Row)
        (at_j : rest[j]? = some r') (outside : position + (j + 1) ∉ matched) :
        ∃ values ∈ inserts, project env [source.visible r'] inserted = .ok values := by
      refine (ih run).2 j r' at_j ?_
      rwa [Nat.add_right_comm]
    unfold mergeInserts at h
    split at h
    -- a row that was met is skipped; positions count on either way
    next met =>
      refine ⟨fun values member => ?_, fun j r' at_j outside => ?_⟩
      · obtain ⟨r', inside, made⟩ := (ih h).1 values member
        exact ⟨r', List.mem_cons_of_mem _ inside, made⟩
      · cases j with
        | zero => exact absurd (by simpa using met) outside
        | succ j => exact later h j r' (by simpa using at_j) outside
    next =>
      obtain ⟨row, made, h⟩ := bind_eq_ok.1 h
      obtain ⟨others, run, h⟩ := bind_eq_ok.1 h
      obtain rfl := pure_eq_ok.1 h
      refine ⟨List.forall_mem_cons.2 ⟨⟨r, List.mem_cons_self, made⟩, fun values member => ?_⟩, fun j r' at_j outside => ?_⟩
      · obtain ⟨r', inside, made⟩ := (ih run).1 values member
        exact ⟨r', List.mem_cons_of_mem _ inside, made⟩
      · cases j with
        | zero =>
          obtain rfl : r = r' := by simpa using at_j
          exact ⟨row, List.mem_cons_self, made⟩
        | succ j =>
          obtain ⟨values, inside, made⟩ := later run j r' (by simpa using at_j) outside
          exact ⟨values, List.mem_cons_of_mem _ inside, made⟩

end

/-! ## What a merge leaves -/

/-- A stored row equals a source row: the value in every column of the pairs equals that in its source column. -/
def EqualOn (t : Table) (source : RowSet) (pairs : List (String × String)) (row r : Row) : Prop :=
  ∀ pair ∈ pairs, ∃ i w v, t.columnIndex pair.1 = .ok i ∧ row[i]? = some w ∧
    columnValue source.label source.columns r pair.2 = .ok v ∧ w.equates v = true

theorem EqualOn.of_spares {source : RowSet} {pairs : List (String × String)} {row row' r : Row} {columns : List String}
    (spared : ∀ pair ∈ pairs, pair.1 ∉ columns) (spares : t.Spares columns row row')
    (h : EqualOn t source pairs row r) : EqualOn t source pairs row' r := by
  intro pair member
  obtain ⟨i, w, v, index, here, given, equal⟩ := h pair member
  refine ⟨i, w, v, index, (spares i fun c inside same => ?_).trans here, given, equal⟩
  exact spared pair member (Table.columnIndex_inj same index ▸ inside)

theorem mem_zip_of_project {f : Frame} {ps : List Projection} {values : Row} (h : project env f ps = .ok values)
    {p : Projection} (member : p ∈ ps) :
    ∃ v, eval env f p.value = .ok v ∧ (p.name, v) ∈ (assignedColumns ps).zip values := by
  unfold project at h
  induction ps generalizing values with
  | nil => cases member
  | cons q rest ih =>
    obtain ⟨v, here, h⟩ := bind_eq_ok.1 h
    obtain ⟨vs, behind, h⟩ := bind_eq_ok.1 h
    obtain rfl := pure_eq_ok.1 h
    rcases List.mem_cons.1 member with rfl | later
    · exact ⟨v, here, List.mem_cons_self⟩
    · obtain ⟨w, value, inside⟩ := ih behind later
      exact ⟨w, value, List.mem_cons_of_mem _ inside⟩

theorem EqualOn.of_stores {source : RowSet} {pairs : List (String × String)} {inserted : List Projection}
    (distinct : (assignedColumns inserted).Nodup)
    (assigns : ∀ pair ∈ pairs, ⟨pair.1, .column source.label pair.2⟩ ∈ inserted)
    (exact : ∀ pair ∈ pairs, ∀ i c, t.columnIndex pair.1 = .ok i → t.columns[i]? = some c → c.type ≠ .real)
    {r values row : Row}
    (present : ∀ pair ∈ pairs, columnValue source.label source.columns r pair.2 ≠ .ok .null)
    (made : project env [source.visible r] inserted = .ok values)
    (stores : t.Stores ((assignedColumns inserted).zip values) row) : EqualOn t source pairs row r := by
  intro pair member
  have length : values.length = (assignedColumns inserted).length := by
    rw [length_of_evalAll made, assignedColumns, List.length_map, List.length_map]
  have named : (((assignedColumns inserted).zip values).map Prod.fst).Nodup := by
    rwa [List.map_fst_zip (Nat.le_of_eq length.symm)]
  obtain ⟨v, value, assigned⟩ := mem_zip_of_project made (assigns pair member)
  have value := (Planning.eval_column_single env (source.visible r) pair.2).symm.trans value
  obtain ⟨i, c, w, index, column, stored, accepted⟩ := stores.accepted named assigned
  refine ⟨i, w, v, index, stored, value, ?_⟩
  refine Value.equates_of_cast? (Value.cast?_of_accept accepted) (exact pair member i c index column) ?_
  rintro rfl
  exact present pair member value

theorem merge_eq_ok {db : Database} {target : StoredTable} {source : Source} {on : Scalar}
    {matched : Option (List Projection)} {inserted : List Projection} {delete : Bool} {n : Nat}
    (h : (merge db env target source on matched (some inserted) delete).run t = (.ok n, u)) :
    ∃ rs changes inserts v, sourceRows db env source = .ok rs ∧
      mergeChanges env (.ofTable t target.label) rs on matched delete 0 t.rows = .ok changes ∧
      mergeInserts env rs changes.matched inserted 0 rs.rows = .ok inserts ∧
      (Write.assignAll (assignedColumns (matched.getD [])) changes.updates).run t = (.ok (), v) ∧
      (Write.insertAll (assignedColumns inserted) inserts).run (v.remove changes.deletes) = (.ok (), u) := by
  obtain ⟨_, _, stored, h⟩ := Write.bind_eq_ok.1 h
  obtain ⟨rfl, rfl⟩ := Write.get_eq_ok.1 stored
  obtain ⟨rs, _, read, h⟩ := Write.bind_eq_ok.1 h
  obtain ⟨rows, rfl⟩ := Write.ofResult_eq_ok.1 read
  obtain ⟨changes, _, compared, h⟩ := Write.bind_eq_ok.1 h
  obtain ⟨changed, rfl⟩ := Write.ofResult_eq_ok.1 compared
  obtain ⟨inserts, _, left, h⟩ := Write.bind_eq_ok.1 h
  obtain ⟨inserting, rfl⟩ := Write.ofResult_eq_ok.1 left
  obtain ⟨_, v, assigned, h⟩ := Write.bind_eq_ok.1 h
  obtain ⟨_, _, removed, h⟩ := Write.bind_eq_ok.1 h
  obtain rfl := Write.modify_eq_ok.1 removed
  obtain ⟨_, _, added, h⟩ := Write.bind_eq_ok.1 h
  obtain ⟨-, rfl⟩ := Write.pure_eq_ok.1 h
  exact ⟨rs, changes, inserts, v, rows, changed, inserting, assigned, added⟩

/-- A merge that deletes what has no partner and inserts what is missing, where partners are equal, updates spare the
compared columns and inserts assign them, leaves rows that equal source rows, and one at least for every source row. -/
theorem merge_reconciles {db : Database} {target : StoredTable} {source : Source} {on : Scalar}
    {matched : Option (List Projection)} {inserted : List Projection} {n : Nat} {rs : RowSet}
    {pairs : List (String × String)} (rows : sourceRows db env source = .ok rs) (fit : t.RowsFit)
    (decides : ∀ row r, Meets env (.ofTable t target.label) rs on row r → EqualOn t rs pairs row r)
    (spared : ∀ pair ∈ pairs, pair.1 ∉ assignedColumns (matched.getD []))
    (distinct : (assignedColumns inserted).Nodup)
    (assigns : ∀ pair ∈ pairs, ⟨pair.1, .column rs.label pair.2⟩ ∈ inserted)
    (exact : ∀ pair ∈ pairs, ∀ i c, t.columnIndex pair.1 = .ok i → t.columns[i]? = some c → c.type ≠ .real)
    (present : ∀ r ∈ rs.rows, ∀ pair ∈ pairs, columnValue rs.label rs.columns r pair.2 ≠ .ok .null)
    (h : (merge db env target source on matched (some inserted) true).run t = (.ok n, u)) :
    u.LaidOutAs t ∧ (∀ row ∈ u.rows, ∃ r ∈ rs.rows, EqualOn t rs pairs row r) ∧
      ∀ r ∈ rs.rows, ∃ row ∈ u.rows, EqualOn t rs pairs row r := by
  obtain ⟨rs', changes, inserts, v, rows', changed, inserting, assigned, added⟩ := merge_eq_ok h
  obtain rfl := Except.ok.inj (rows.symm.trans rows')
  obtain ⟨kept, met, -⟩ := mergeChanges_classified changed
  obtain ⟨laid, spares⟩ := assignAll_spares fit assigned
  obtain ⟨added_laid, stored, stores, final⟩ := insertAll_stores added
  obtain ⟨insertsOfRows, insertsForRows⟩ := mergeInserts_eq_ok inserting
  have removed_laid : (v.remove changes.deletes).LaidOutAs t := by
    obtain ⟨rows, next, rfl⟩ := laid
    exact ⟨_, next, rfl⟩
  -- what an insertion stores for a row of the source equals it in the key
  have storedEqual {values row : Row} {r : Row} (member : r ∈ rs.rows)
      (made : project env [rs.visible r] inserted = .ok values)
      (stores : (v.remove changes.deletes).Stores ((assignedColumns inserted).zip values) row) :
      EqualOn t rs pairs row r :=
    .of_stores distinct assigns exact (present r member) made (removed_laid.stores stores)
  refine ⟨added_laid.trans removed_laid, fun row member => ?_, fun r member => ?_⟩
  · rw [final] at member
    rcases List.mem_append.1 member with old | new
    · obtain ⟨i, at_i, outside⟩ := Table.mem_remove.1 old
      obtain ⟨before, here, spares⟩ := Table.getElem?_of_forall₂ spares at_i
      obtain ⟨r, inside, meets⟩ := kept i before here (by rwa [Nat.zero_add])
      exact ⟨r, inside, (decides before r meets).of_spares spared spares⟩
    · obtain ⟨k, at_k⟩ := List.mem_iff_getElem?.1 new
      obtain ⟨values, here, stores⟩ := Table.getElem?_of_forall₂ stores at_k
      obtain ⟨r, inside, made⟩ := insertsOfRows values (List.mem_of_getElem? here)
      exact ⟨r, inside, storedEqual inside made stores⟩
  · obtain ⟨j, at_j⟩ := List.mem_iff_getElem?.1 member
    -- a row of the source has a partner, which is kept, or is inserted
    by_cases partner : j ∈ changes.matched
    · obtain ⟨i, before, r', here, outside, there, meets⟩ := met j partner
      obtain rfl := Option.some.inj (at_j.symm.trans there)
      obtain ⟨row, at_i, spares⟩ := Table.getElem?_of_forall₂ spares.flip here
      have survives : row ∈ (v.remove changes.deletes).rows :=
        Table.mem_remove.2 ⟨i, at_i, by rwa [Nat.zero_add] at outside⟩
      exact ⟨row, final ▸ List.mem_append_left _ survives, (decides before r meets).of_spares spared spares⟩
    · obtain ⟨values, inside, made⟩ := insertsForRows j r at_j (by rwa [Nat.zero_add])
      obtain ⟨k, at_k⟩ := List.mem_iff_getElem?.1 inside
      obtain ⟨row, here, stores⟩ := Table.getElem?_of_forall₂ stores.flip at_k
      exact ⟨row, final ▸ List.mem_append_right _ (List.mem_of_getElem? here), storedEqual member made stores⟩

/-- Stored rows that equal one source row in all columns of a key are one row, unless the key has integers and the source
a real that is nearest to several. -/
theorem unique_of_key {source : RowSet} {pairs : List (String × String)} (unique : t.KeysUnique) (fit : t.RowsFit)
    {key : UniqueKey} (declared : key ∈ t.keys) (columns : key.columns ≠ [])
    (compared : ∀ i ∈ key.columns, ∃ pair ∈ pairs, t.columnIndex pair.1 = .ok i)
    (exact : ∀ pair ∈ pairs, ∀ i c, t.columnIndex pair.1 = .ok i → t.columns[i]? = some c → c.type ≠ .real)
    {a b : Nat} {row row' r : Row} (here : t.rows[a]? = some row) (there : t.rows[b]? = some row')
    (equal : EqualOn t source pairs row r) (equal' : EqualOn t source pairs row' r) :
    a = b ∨ ∃ pair ∈ pairs, ∃ i v w w', t.columnIndex pair.1 = .ok i ∧ row[i]? = some w ∧ row'[i]? = some w' ∧
      columnValue source.label source.columns r pair.2 = .ok v ∧ v.NearestToBoth w w' := by
  by_cases same : a = b
  · exact .inl same
  refine .inr ?_
  have differ := unique key declared columns a b row row' same here there
  -- two rows differ in some column of the key, while both equal the row that they are compared with there
  obtain ⟨i, inside, unequal⟩ : ∃ i ∈ key.columns, Table.agreeOn [i] row row' = false := by
    simpa [Table.agreeOn] using differ
  obtain ⟨pair, member, index⟩ := compared i inside
  obtain ⟨j, w, v, index', first, value, equates⟩ := equal pair member
  obtain rfl := Except.ok.inj (index.symm.trans index')
  obtain ⟨j, w', v', index', second, value', equates'⟩ := equal' pair member
  obtain rfl := Except.ok.inj (index.symm.trans index')
  obtain rfl := Except.ok.inj (value.symm.trans value')
  obtain ⟨c, column, -⟩ := Table.column_of_columnIndex index
  have typed {x : Value} {row : Row} (stored : row ∈ t.rows) (at_i : row[i]? = some x) (equates : x.equates v = true) :
      x.type? = some c.type := by
    obtain ⟨y, here, holds⟩ := exists_of_rowFits (fit row stored) column
    obtain rfl := Option.some.inj (at_i.symm.trans here)
    unfold Column.Holds at holds
    split at holds
    next null => subst null; cases equates
    next => exact holds
  have first_type := typed (List.mem_of_getElem? here) first equates
  have second_type := typed (List.mem_of_getElem? there) second equates'
  rcases Value.equates_or_nearest first_type second_type (exact pair member i c index column) equates equates' with
    alike | nearest
  · simp [Table.agreeOn, first, second, alike] at unequal
  · exact ⟨pair, member, i, v, w, w', index, first, second, value, nearest⟩

end Execution

end Setwise
