import Mathlib.Data.List.ReduceOption
import Setwise.Proofs.Frames
import Setwise.Proofs.LocatedRows
import Setwise.Proofs.MergedRows

/-!
The table that a merge leaves.

A merge compares every row of its target with every row of its source, notes positions on both sides, and writes by them
in three phases. What it does to a row depends on the row and its partners alone (`mergedRow`), and so what it notes can
be told row by row (`mergeChanges_located`); assignments and removals by position leave what becomes of every single row
(`keptFrom_outcomes`), and the rows of the source without partners are inserted behind (`mergeInserts_unmatched`).
Where no row has several partners to be updated by, the merge leaves exactly that table, and otherwise it fails
(`merges_meet_their_specification`).
-/

set_option autoImplicit false

namespace Setwise

theorem located_some_snd {p : Row → Bool} {n : Nat} {rows : List Row} :
    (located (fun r => if p r then some r else none) n rows).map Prod.snd = rows.filter p := by
  induction rows generalizing n with
  | nil => rfl
  | cons r rest ih =>
    by_cases here : p r <;> simp [located, here, ih]

theorem mem_positions_iff {p : Row → Bool} {n j : Nat} {rows : List Row} :
    n + j ∈ positions p n rows ↔ ∃ r, rows[j]? = some r ∧ p r = true := by
  induction rows generalizing n j with
  | nil => simp [positions]
  | cons r rest ih =>
    -- positions behind the first row are larger than its own
    have fresh : n ∉ positions p (n + 1) rest := by
      intro member
      have := le_of_mem_positions member
      omega
    rw [positions_cons]
    cases j with
    | zero => by_cases here : p r <;> simp [here, fresh]
    | succ j =>
      have shift : n + (j + 1) = n + 1 + j := by omega
      have other : n + 1 + j ≠ n := by omega
      rw [shift, List.getElem?_cons_succ, ← @ih (n + 1) j]
      by_cases here : p r <;> simp [here, other]

namespace Execution

open Relational

/-! ## The specification -/

/-- The two sides of a merge, and the condition by which their rows are compared. -/
structure Matching where
  env : Environment
  target : RowSet
  source : RowSet
  on : Scalar

namespace Matching

section

variable (m : Matching)

def meets (row r : Row) : Bool :=
  passes m.env (some m.on) [m.target.visible row, m.source.visible r]

def partners (row : Row) : List Row :=
  m.source.rows.filter (m.meets row)

def Ambiguous : Prop :=
  ∃ row ∈ m.target.rows, 2 ≤ (m.partners row).length

def unmatched : List Row :=
  m.source.rows.filter fun r => !m.target.rows.any fun row => m.meets row r

def updateValues (set : List Projection) (row r : Row) : Except Error Row :=
  project m.env [m.target.visible row, m.source.visible r] set

/-- What a merge makes of a row of its target: with one partner it is updated, if rows with partners are; without one
it is dropped, if rows without partners are; every other row stays as it is. -/
def mergedRow (t : Table) (matched : Option (List Projection)) (deleteUnmatched : Bool) (row : Row) :
    Except Error (Option Row) :=
  match m.partners row, matched with
  | [], _ => .ok (if deleteUnmatched then none else some row)
  | [r], some set => do
    let values ← m.updateValues set row r
    let row' ← (t.reassign (assignedColumns set) (some values) row).mapError .row
    return some row'
  | _, _ => .ok (some row)

def updates (matched : Option (List Projection)) (row : Row) : Bool :=
  matched.isSome && (m.partners row).length == 1

def drops (deleteUnmatched : Bool) (row : Row) : Bool :=
  deleteUnmatched && (m.partners row).isEmpty

/-- All that a merge evaluates has a value: its condition for every pair of rows, the values of every row that is
updated, and those of every row that is inserted. -/
structure Evaluates (matched inserted : Option (List Projection)) : Prop where
  condition : ∀ row ∈ m.target.rows, ∀ r ∈ m.source.rows,
    ∃ keep, holds m.env [m.target.visible row, m.source.visible r] m.on = .ok keep
  update : ∀ set ∈ matched, ∀ row ∈ m.target.rows, ∀ r, m.partners row = [r] →
    ∃ values, m.updateValues set row r = .ok values
  insertion : ∀ ps ∈ inserted, ∀ r ∈ m.unmatched, ∃ values, project m.env [m.source.visible r] ps = .ok values

/-- The values of the rows that a merge inserts: those of the source rows without partners, if there is an insert. -/
def InsertedValues (inserted : Option (List Projection)) (inserts : List Row) : Prop :=
  match inserted with
  | none => inserts = []
  | some ps => List.Forall₂ (fun r values => project m.env [m.source.visible r] ps = .ok values) m.unmatched inserts

end

/-! ## What a merge notes -/

section

variable {m : Matching} {t : Table} {matched inserted : Option (List Projection)} {deleteUnmatched : Bool}

theorem partners_located {row : Row} {n : Nat} {rows : List Row}
    (h : ∀ r ∈ rows, ∃ keep, holds m.env [m.target.visible row, m.source.visible r] m.on = .ok keep) :
    Execution.partners m.env m.target m.source m.on row n rows =
      .ok (located (fun r => if m.meets row r then some r else none) n rows) := by
  induction rows generalizing n with
  | nil => rfl
  | cons r rest ih =>
    obtain ⟨⟨keep, here⟩, later⟩ := List.forall_mem_cons.1 h
    have same : m.meets row r = keep := passes_of_eq_ok here
    refine bind_eq_ok.2 ⟨keep, here, bind_eq_ok.2 ⟨_, ih later, ?_⟩⟩
    cases keep <;> simp [located, same, pure, Except.pure]

theorem partners_found {row : Row} (evaluates : m.Evaluates matched inserted) (inside : row ∈ m.target.rows) :
    ∃ found, Execution.partners m.env m.target m.source m.on row 0 m.source.rows = .ok found ∧
      found.map Prod.snd = m.partners row ∧ found.map Prod.fst = positions (m.meets row) 0 m.source.rows := by
  refine ⟨_, partners_located (evaluates.condition row inside), located_some_snd, ?_⟩
  rw [positions_of_located]
  congr 1
  funext r
  cases m.meets row r <;> rfl

def values? (m : Matching) (matched : Option (List Projection)) (row : Row) : Option Row :=
  match m.partners row, matched with
  | [r], some set => (m.updateValues set row r).toOption
  | _, _ => none

def notes (m : Matching) (matched : Option (List Projection)) (deleteUnmatched : Bool) (n : Nat) (rows : List Row) :
    MergeChanges where
  updates := located (m.values? matched) n rows
  deletes := positions (m.drops deleteUnmatched) n rows
  matched := rows.flatMap fun row => positions (m.meets row) 0 m.source.rows

theorem mergeChanges_cons {n : Nat} {row : Row} {rest : List Row} :
    mergeChanges m.env m.target m.source m.on matched deleteUnmatched n (row :: rest) = do
      let found ← Execution.partners m.env m.target m.source m.on row 0 m.source.rows
      let update ← mergeUpdate m.env m.target m.source matched n row found
      let others ← mergeChanges m.env m.target m.source m.on matched deleteUnmatched (n + 1) rest
      return {
        updates := update ++ others.updates
        deletes := if found.isEmpty && deleteUnmatched then n :: others.deletes else others.deletes
        matched := found.map Prod.fst ++ others.matched } := by
  conv_lhs => unfold mergeChanges
  refine bind_congr fun found => ?_
  cases matched with
  | none => rcases found with _ | ⟨_, _ | _⟩ <;> rfl
  | some set =>
    rcases found with _ | ⟨⟨i, r⟩, _ | _⟩
    · rfl
    · unfold mergeUpdate
      dsimp only
      rw [bind_assoc]
    · rfl

theorem mergeUpdate_located {n : Nat} {row : Row} {found : List (Nat × Row)} (evaluates : m.Evaluates matched inserted)
    (inside : row ∈ m.target.rows) (same : found.map Prod.snd = m.partners row)
    (few : matched.isSome = true → (m.partners row).length ≤ 1) :
    mergeUpdate m.env m.target m.source matched n row found = .ok ((m.values? matched row).toList.map fun v => (n, v)) := by
  unfold values?
  rw [← same]
  cases matched with
  | none => rcases found with _ | ⟨_, _ | _⟩ <;> rfl
  | some set =>
    rcases found with _ | ⟨⟨i, r⟩, _ | ⟨p, rest⟩⟩
    · rfl
    · obtain ⟨values, computed⟩ := evaluates.update set rfl row inside r same.symm
      have projected : project m.env [m.target.visible row, m.source.visible r] set = .ok values := computed
      simp [mergeUpdate, projected, computed, Except.toOption, bind, Except.bind, pure, Except.pure]
    · have several := few rfl
      rw [← same] at several
      simp at several

/-- Where no row has several partners to be updated by, a merge notes what it does to each row. -/
theorem mergeChanges_located {n : Nat} {rows : List Row} (evaluates : m.Evaluates matched inserted)
    (inside : ∀ row ∈ rows, row ∈ m.target.rows)
    (few : matched.isSome = true → ∀ row ∈ rows, (m.partners row).length ≤ 1) :
    mergeChanges m.env m.target m.source m.on matched deleteUnmatched n rows =
      .ok (m.notes matched deleteUnmatched n rows) := by
  induction rows generalizing n with
  | nil => rfl
  | cons row rest ih =>
    obtain ⟨member, behind⟩ := List.forall_mem_cons.1 inside
    obtain ⟨found, compared, partners, noted⟩ := partners_found evaluates member
    have update := mergeUpdate_located (n := n) evaluates member partners fun clause => few clause row (by simp)
    have later := ih (n := n + 1) behind fun clause row' inside => few clause row' (by simp [inside])
    have dropped : (found.isEmpty && deleteUnmatched) = m.drops deleteUnmatched row := by
      unfold drops
      rw [← partners, List.isEmpty_map, Bool.and_comm]
    rw [mergeChanges_cons, compared]
    simp only [bind, Except.bind, update, later, dropped, noted]
    unfold notes
    rw [located_cons, positions_cons, List.flatMap_cons]
    rfl

theorem mergeChanges_ambiguous {n : Nat} {rows : List Row} (evaluates : m.Evaluates matched inserted)
    (inside : ∀ row ∈ rows, row ∈ m.target.rows) (clause : matched.isSome = true)
    (several : ∃ row ∈ rows, 2 ≤ (m.partners row).length) :
    ∃ i, mergeChanges m.env m.target m.source m.on matched deleteUnmatched n rows = .error (.ambiguousMatch i) := by
  induction rows generalizing n with
  | nil => simp at several
  | cons row rest ih =>
    obtain ⟨member, behind⟩ := List.forall_mem_cons.1 inside
    obtain ⟨found, compared, partners, -⟩ := partners_found evaluates member
    rw [mergeChanges_cons, compared]
    -- the first row with several partners fails; the rows in front of it have at most one each
    by_cases here : 2 ≤ (m.partners row).length
    · refine ⟨n, ?_⟩
      obtain ⟨set, rfl⟩ := Option.isSome_iff_exists.1 clause
      rw [← partners, List.length_map] at here
      rcases found with _ | ⟨p, _ | ⟨q, others⟩⟩
      · simp at here
      · simp at here
      · rfl
    · have later : ∃ row ∈ rest, 2 ≤ (m.partners row).length := by
        obtain ⟨other, member, many⟩ := several
        rcases List.mem_cons.1 member with rfl | behind
        · exact absurd many here
        · exact ⟨other, behind, many⟩
      have update := mergeUpdate_located (n := n) evaluates member partners fun _ => by omega
      obtain ⟨i, failed⟩ := ih (n := n + 1) behind later
      refine ⟨i, ?_⟩
      simp only [bind, Except.bind, update, failed]

/-! ## What a merge inserts -/

theorem matched_notes {j : Nat} {r : Row} (here : m.source.rows[j]? = some r) :
    (m.notes matched deleteUnmatched 0 m.target.rows).matched.contains j = m.target.rows.any fun row => m.meets row r := by
  rw [Bool.eq_iff_iff, List.contains_iff_mem, List.any_eq_true]
  unfold notes
  rw [List.mem_flatMap]
  refine exists_congr fun row => and_congr_right fun _ => ?_
  have noted : 0 + j ∈ positions (m.meets row) 0 m.source.rows ↔ _ := mem_positions_iff
  rw [Nat.zero_add] at noted
  rw [noted, here]
  simp

theorem mergeInserts_unmatched {ps : List Projection} {noted : List Nat} {unmatched : Row → Bool} {n : Nat}
    {rows inserts : List Row} (same : ∀ j r, rows[j]? = some r → noted.contains (n + j) = !unmatched r)
    (values : List.Forall₂ (fun r values => project m.env [m.source.visible r] ps = .ok values)
      (rows.filter unmatched) inserts) :
    mergeInserts m.env m.source noted ps n rows = .ok inserts := by
  induction rows generalizing n inserts with
  | nil =>
    obtain rfl := List.forall₂_nil_left_iff.1 values
    rfl
  | cons r rest ih =>
    have later (j : Nat) (r' : Row) (here : rest[j]? = some r') : noted.contains (n + 1 + j) = !unmatched r' := by
      rw [Nat.add_right_comm]
      exact same (j + 1) r' here
    have first : noted.contains n = !unmatched r := same 0 r rfl
    unfold mergeInserts
    rw [first]
    rw [List.filter_cons] at values
    cases alone : unmatched r with
    | false =>
      rw [alone] at values
      exact ih later values
    | true =>
      rw [alone] at values
      cases values with
      | cons here behind => exact bind_eq_ok.2 ⟨_, here, bind_eq_ok.2 ⟨_, ih later behind, rfl⟩⟩

theorem clauseInserts_unmatched {inserts : List Row} (values : m.InsertedValues inserted inserts) :
    clauseInserts m.env m.source (m.notes matched deleteUnmatched 0 m.target.rows).matched inserted = .ok inserts := by
  cases inserted with
  | none =>
    obtain rfl : inserts = [] := values
    rfl
  | some ps =>
    refine mergeInserts_unmatched (fun j r here => ?_) values
    rw [Nat.zero_add, matched_notes here, Bool.not_not]

theorem exists_insertedValues (evaluates : m.Evaluates matched inserted) : ∃ inserts, m.InsertedValues inserted inserts := by
  cases inserted with
  | none => exact ⟨[], rfl⟩
  | some ps =>
    have each := evaluates.insertion ps rfl
    unfold InsertedValues
    dsimp only
    -- the induction is on the unmatched rows, whatever they are
    generalize m.unmatched = rows at each
    induction rows with
    | nil => exact ⟨[], .nil⟩
    | cons r rest ih =>
      obtain ⟨⟨values, here⟩, later⟩ := List.forall_mem_cons.1 each
      obtain ⟨inserts, behind⟩ := ih later
      exact ⟨values :: inserts, .cons here behind⟩

/-! ## What becomes of the rows of the target -/

theorem mergedRow_noted {row : Row} {outcome : Option Row} (h : m.mergedRow t matched deleteUnmatched row = .ok outcome) :
    (m.drops deleteUnmatched row = true ∧ m.values? matched row = none ∧ outcome = none) ∨
      (m.drops deleteUnmatched row = false ∧ ∃ row', outcome = some row' ∧
        t.reassign (assignedColumns (matched.getD [])) (m.values? matched row) row = .ok row') := by
  unfold mergedRow at h
  unfold drops values?
  revert h
  -- no partner, one partner, several partners
  rcases m.partners row with _ | ⟨r, _ | ⟨q, others⟩⟩
  · intro h
    obtain rfl := Except.ok.inj h
    cases deleteUnmatched with
    | false => exact .inr ⟨rfl, row, rfl, rfl⟩
    | true => exact .inl ⟨rfl, rfl, rfl⟩
  · intro h
    right
    refine ⟨by simp, ?_⟩
    cases matched with
    | none =>
      obtain rfl := Except.ok.inj h
      exact ⟨row, rfl, rfl⟩
    | some set =>
      obtain ⟨values, computed, h⟩ := bind_eq_ok.1 h
      obtain ⟨row', stored, h⟩ := bind_eq_ok.1 h
      obtain rfl := pure_eq_ok.1 h
      refine ⟨row', rfl, ?_⟩
      dsimp only
      rw [computed]
      exact mapError_eq_ok.1 stored
  · intro h
    obtain rfl := Except.ok.inj h
    exact .inr ⟨by simp, row, rfl, rfl⟩

theorem outcomes_written {rows : List Row} {outcomes : List (Option Row)}
    (h : List.Forall₂ (fun row o => m.mergedRow t matched deleteUnmatched row = .ok o) rows outcomes) :
    ∃ rows', List.Forall₂ (fun row row' =>
        t.reassign (assignedColumns (matched.getD [])) (m.values? matched row) row = .ok row') rows rows' ∧
      ∀ n, Table.keptFrom (positions (m.drops deleteUnmatched) n rows) n rows' = outcomes.reduceOption := by
  induction h with
  | nil => exact ⟨[], .nil, fun _ => rfl⟩
  | @cons row o rest _ here _ ih =>
    obtain ⟨rows', written, kept⟩ := ih
    -- a dropped row is not assigned to, and removed by its position afterwards
    rcases mergedRow_noted here with ⟨dropped, nothing, rfl⟩ | ⟨stays, row', rfl, stored⟩
    · refine ⟨row :: rows', .cons (by rw [nothing]; rfl) written, fun n => ?_⟩
      rw [Table.keptFrom_cons, kept, if_pos dropped, List.reduceOption_cons_of_none]
      rfl
    · refine ⟨row' :: rows', .cons stored written, fun n => ?_⟩
      rw [Table.keptFrom_cons, kept, if_neg (by simp [stays]), List.reduceOption_cons_of_some]
      rfl

/-- What a merge does to its table, with the rows that it inserts. -/
def changes (m : Matching) (matched inserted : Option (List Projection)) (deleteUnmatched : Bool) (inserts : List Row) :
    Changes where
  assigned := assignedColumns (matched.getD [])
  updates := located (m.values? matched) 0 m.target.rows
  deletes := positions (m.drops deleteUnmatched) 0 m.target.rows
  inserted := assignedColumns (inserted.getD [])
  inserts := inserts

theorem changes_apply {outcomes : List (Option Row)} {inserts : List Row} {F : Table} (own : m.target.rows = t.rows)
    (becomes : List.Forall₂ (fun row o => m.mergedRow t matched deleteUnmatched row = .ok o) t.rows outcomes)
    (insertions : ({ t with rows := outcomes.reduceOption } : Table).insertEach (assignedColumns (inserted.getD [])) inserts =
      .ok F) : (m.changes matched inserted deleteUnmatched inserts).apply t = .ok F := by
  obtain ⟨rows', written, kept⟩ := outcomes_written becomes
  unfold changes Changes.apply
  rw [own]
  refine bind_eq_ok.2 ⟨_, Table.assignEach_located.2 ⟨rows', written, rfl⟩, ?_⟩
  rw [Table.remove_rows, kept]
  exact insertions

theorem isSome_values? (evaluates : m.Evaluates matched inserted) {row : Row} (inside : row ∈ m.target.rows) :
    (m.values? matched row).isSome = m.updates matched row := by
  unfold values? updates
  cases matched with
  | none => rcases m.partners row with _ | ⟨r, _ | ⟨q, others⟩⟩ <;> rfl
  | some set =>
    cases single : m.partners row with
    | nil => rfl
    | cons r others =>
      cases others with
      | cons q others => rfl
      | nil =>
        obtain ⟨values, computed⟩ := evaluates.update set rfl row inside r single
        simp [computed, Except.toOption]

theorem changes_count {inserts : List Row} (evaluates : m.Evaluates matched inserted) :
    (m.changes matched inserted deleteUnmatched inserts).count = m.target.rows.countP (m.updates matched) +
      m.target.rows.countP (m.drops deleteUnmatched) + inserts.length := by
  have updated : m.target.rows.countP (fun row => (m.values? matched row).isSome) =
      m.target.rows.countP (m.updates matched) := by
    apply List.countP_congr
    intro row member
    rw [isSome_values? evaluates member]
  unfold changes Changes.count
  rw [length_located, length_positions, updated]

end

end Matching

/-! ## Merges -/

theorem insertEach_stores {columns : List String} {t F : Table} {rows : List Row}
    (h : t.insertEach columns rows = .ok F) :
    ∃ new, F.rows = t.rows ++ new ∧ List.Forall₂ (fun values row => t.Stores (columns.zip values) row) rows new := by
  induction rows generalizing t with
  | nil =>
    obtain rfl := Except.ok.inj h
    exact ⟨[], by simp, .nil⟩
  | cons values rest ih =>
    obtain ⟨u, first, last⟩ := bind_eq_ok.1 h
    obtain ⟨row, stored, next, named, valid, -, rfl⟩ := Table.insertUnchecked_eq_ok first
    obtain ⟨new, appended, behind⟩ := ih last
    have laid : ({ t with rows := t.rows ++ [stored], nextIdentity := next } : Table).LaidOutAs t := ⟨_, _, rfl⟩
    refine ⟨stored :: new, by simpa using appended, .cons ⟨t.blankRow, row, ?_, named, valid⟩ ?_⟩
    · unfold Table.blankRow
      dsimp only
      split <;> simp
    · exact behind.imp fun _ _ => laid.stores

def mergeMatching (ps : Parameters) (t : Table) (target : StoredTable) (source : RowSet) (on : Scalar) : Matching where
  env := { parameters := ps }
  target := .ofTable t target.label
  source := source
  on := on

section

variable {db : Database} {ps : Parameters} {target : StoredTable} {source : Source} {on : Scalar}
  {matched inserted : Option (List Projection)} {deleteUnmatched : Bool} {t : Table} {rs : RowSet}
variable (stored : db.find? target.name = some t) (rows : sourceRows db { parameters := ps } source = .ok rs)
variable (evaluates : (mergeMatching ps t target rs on).Evaluates matched inserted)
include rows evaluates

include stored in
theorem merge_ambiguous (clause : matched.isSome = true) (ambiguous : (mergeMatching ps t target rs on).Ambiguous) :
    ∃ i, run db (.affected (.merge target source on matched inserted deleteUnmatched)) ps =
      (.error (.ambiguousMatch i), db) := by
  obtain ⟨i, failed⟩ := Matching.mergeChanges_ambiguous (n := 0) evaluates (fun _ member => member) clause ambiguous
  refine ⟨i, run_of_failed_write rfl stored ?_⟩
  unfold write merge
  rw [Write.run_get_bind, rows]
  dsimp only
  rw [Write.ofResult_ok, pure_bind]
  apply Write.bind_fails
  exact congrArg (fun x => ((Write.ofResult x).run t).1) failed

theorem merge_finds (clear : ¬(matched.isSome = true ∧ (mergeMatching ps t target rs on).Ambiguous)) {inserts : List Row}
    (values : (mergeMatching ps t target rs on).InsertedValues inserted inserts) :
    Finds db { parameters := ps } t (.merge target source on matched inserted deleteUnmatched)
      ((mergeMatching ps t target rs on).changes matched inserted deleteUnmatched inserts) := by
  have few (clause : matched.isSome = true) : ∀ row ∈ t.rows,
      ((mergeMatching ps t target rs on).partners row).length ≤ 1 := by
    intro row member
    by_contra several
    exact clear ⟨clause, row, member, by omega⟩
  exact .merge rows (Matching.mergeChanges_located evaluates (fun _ member => member) few)
    (Matching.clauseInserts_unmatched values)

end

/-- A merge whose evaluations succeed fails for an ambiguous match exactly when some row has several partners to be
updated by. Otherwise, if all rows can be written and no key is repeated in the end, it leaves what becomes of the rows
of its target in their order, followed by the rows that are stored of the source rows without partners, if these are
inserted, and counts the rows that it has updated, dropped and inserted. -/
theorem merges_meet_their_specification {db : Database} {ps : Parameters} {target : StoredTable} {source : Source}
    {on : Scalar} {matched inserted : Option (List Projection)} {deleteUnmatched : Bool} {t : Table} {rs : RowSet}
    (stored : db.find? target.name = some t) (rows : sourceRows db { parameters := ps } source = .ok rs)
    (evaluates : (mergeMatching ps t target rs on).Evaluates matched inserted) :
    let m := mergeMatching ps t target rs on
    let result := run db (.affected (.merge target source on matched inserted deleteUnmatched)) ps
    ((∃ i, result.1 = .error (.ambiguousMatch i)) ↔ matched.isSome = true ∧ m.Ambiguous) ∧
      (¬(matched.isSome = true ∧ m.Ambiguous) → ∀ outcomes inserts F,
        List.Forall₂ (fun row o => m.mergedRow t matched deleteUnmatched row = .ok o) t.rows outcomes →
        m.InsertedValues inserted inserts →
        ({ t with rows := outcomes.reduceOption } : Table).insertEach (assignedColumns (inserted.getD [])) inserts = .ok F →
        F.KeysUnique →
          result = (.ok (.affected (t.rows.countP (m.updates matched) + t.rows.countP (m.drops deleteUnmatched) +
            inserts.length)), db.put F) ∧
          ∃ new, F.rows = outcomes.reduceOption ++ new ∧
            List.Forall₂ (fun values row => t.Stores ((assignedColumns (inserted.getD [])).zip values) row) inserts new) := by
  intro m result
  constructor
  · constructor
    · rintro ⟨i, failed⟩
      -- without an ambiguous row the merge finds its changes, and then fails for no other reason than a key or a cast
      by_contra clear
      obtain ⟨inserts, values⟩ := Matching.exists_insertedValues evaluates
      obtain ⟨cause, same⟩ := error_of_finds rfl stored (merge_finds rows evaluates clear values) failed
      cases same
    · rintro ⟨clause, ambiguous⟩
      obtain ⟨i, failed⟩ := merge_ambiguous stored rows evaluates clause ambiguous
      exact ⟨i, congrArg Prod.fst failed⟩
  · intro clear outcomes inserts F becomes values insertions unique
    have finds : Finds db _ t (.merge target source on matched inserted deleteUnmatched) _ :=
      merge_finds rows evaluates clear values
    have ran := run_of_finds rfl stored finds (Matching.changes_apply rfl becomes insertions) unique
    rw [Matching.changes_count evaluates] at ran
    obtain ⟨new, appended, stores⟩ := insertEach_stores insertions
    have laid : ({ t with rows := outcomes.reduceOption } : Table).LaidOutAs t := ⟨_, _, rfl⟩
    exact ⟨ran, new, appended, stores.imp fun _ _ => laid.stores⟩

/-! ### Values of items -/

def itemValues (rows : List (Int × Int)) : LiteralTable :=
  ⟨"s", ["Id", "Value"], .immediate (rows.map fun r => [.constant (.int r.1), .constant (.int r.2)])⟩

def hasNumber : Scalar :=
  .binary (.column "i" "Id") .equal (.column "s" "Id")

/-- Gives items the values that they are to have, inserts those that are missing, and deletes all others. -/
def mergeValuesOf (rows : List (Int × Int)) : Statement :=
  .merge ⟨"Items", none, "i"⟩ (.literal (itemValues rows)) hasNumber (some [⟨"Value", .column "s" "Value"⟩])
    (some [⟨"Id", .column "s" "Id"⟩, ⟨"Value", .column "s" "Value"⟩]) true

def valuesMatching (rows : List (Int × Int)) : Matching :=
  mergeMatching {} itemsTable ⟨"Items", none, "i"⟩
    ⟨"s", ["Id", "Value"], rows.map fun r => [.int r.1, .int r.2]⟩ hasNumber

theorem itemValues_evaluated (rows : List (Int × Int)) :
    (valuesMatching rows).Evaluates (some [⟨"Value", .column "s" "Value"⟩])
      (some [⟨"Id", .column "s" "Id"⟩, ⟨"Value", .column "s" "Value"⟩]) where
  condition := by
    intro row member r inside
    obtain ⟨pair, -, rfl⟩ := List.mem_map.1 inside
    simp only [valuesMatching, mergeMatching, RowSet.ofTable, itemsTable, List.mem_cons, List.not_mem_nil,
      or_false] at member
    rcases member with rfl | rfl <;> exact ⟨_, rfl⟩
  update := by
    rintro _ ⟨⟩ row - r single
    have inside : r ∈ (valuesMatching rows).partners row := by simp [single]
    obtain ⟨pair, -, rfl⟩ := List.mem_map.1 (List.mem_of_mem_filter inside)
    exact ⟨_, rfl⟩
  insertion := by
    rintro _ ⟨⟩ r inside
    obtain ⟨pair, -, rfl⟩ := List.mem_map.1 (List.mem_of_mem_filter inside)
    exact ⟨_, rfl⟩

/-- The first item gets a value, the second one is deleted, and a fifth one is inserted; but two values for one item are
one too many. -/
theorem item_values_merged :
    run twoItems (.affected (mergeValuesOf [(1, 11), (5, 50)])) {} = (.ok (.affected 3),
        twoItems.put { itemsTable with rows := [[.int 1, .int 11], [.int 5, .int 50]], nextIdentity := 6 }) ∧
      ∃ i, (run twoItems (.affected (mergeValuesOf [(1, 11), (1, 12)])) {}).1 = .error (.ambiguousMatch i) := by
  have stored : twoItems.find? "Items" = some itemsTable := rfl
  constructor
  · refine ((merges_meet_their_specification stored rfl (itemValues_evaluated [(1, 11), (5, 50)])).2 ?_
      [some [.int 1, .int 11], none] [[.int 5, .int 50]] _ ?_ ?_ (by rfl) ?_).1
    · rintro ⟨-, row, member, several⟩
      simp only [mergeMatching, RowSet.ofTable, itemsTable, List.mem_cons, List.not_mem_nil, or_false] at member
      rcases member with rfl | rfl <;> exact absurd several (by decide)
    · exact .cons (by rfl) (.cons (by rfl) .nil)
    · exact .cons (by rfl) .nil
    · exact Table.keysUnique_of_checkUnique (by decide)
  · refine (merges_meet_their_specification stored rfl (itemValues_evaluated [(1, 11), (1, 12)])).1.2 ⟨rfl, ?_⟩
    exact ⟨[.int 1, .int 10], by decide, by decide⟩

end Execution

end Setwise
