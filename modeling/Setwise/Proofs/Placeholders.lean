import Setwise.Proofs.LiftedValues
import Setwise.Proofs.PlannedMutations

/-!
The placeholders of a command, and the values that it carries for them.

Writing a fragment registers its placeholders with the values that they stand for, and never drops one
(`Writer.Within`); the first value of a name counts. A cell of a collection is told from every other cell by its
name, and from the single parameters unless a captured value is called like a row of a collection
(`commands_carry_values`).
-/

set_option autoImplicit false

namespace Setwise

open Client Relational

namespace Sql

/-! ## Placeholders of fragments -/

def Piece.placeholders : Piece → List String
  | word _ | identifier _ => []
  | value p | condition p => p.placeholders

def Fragment.placeholders (f : Fragment) : List String :=
  f.flatMap Piece.placeholders

def Fragment.Uses (names : List String) (f : Fragment) : Prop :=
  ∀ n ∈ f.placeholders, n ∈ names

def Fragment.AllUse (names : List String) (fs : List Fragment) : Prop :=
  ∀ f ∈ fs, f.Uses names

namespace Fragment

variable {names : List String}

@[simp] theorem uses_nil : Uses names [] := by simp [Uses, placeholders]

@[simp] theorem uses_append {f g : Fragment} : Uses names (f ++ g) ↔ Uses names f ∧ Uses names g := by
  simp [Uses, placeholders, List.flatMap_append, or_imp, forall_and]

@[simp] theorem uses_cons {p : Piece} {f : Fragment} :
    Uses names (p :: f) ↔ (∀ n ∈ p.placeholders, n ∈ names) ∧ Uses names f := by
  simp [Uses, placeholders, or_imp, forall_and]

@[simp] theorem uses_word {s : String} : Uses names (word s) := by
  simp [word, Piece.placeholders]

@[simp] theorem uses_identifier {s : String} : Uses names (identifier s) := by
  simp [identifier, Piece.placeholders]

@[simp] theorem allUse_nil : AllUse names [] := by simp [AllUse]

@[simp] theorem allUse_cons {f : Fragment} {fs : List Fragment} :
    AllUse names (f :: fs) ↔ Uses names f ∧ AllUse names fs := by
  simp [AllUse]

@[simp] theorem allUse_append {fs gs : List Fragment} :
    AllUse names (fs ++ gs) ↔ AllUse names fs ∧ AllUse names gs := by
  simp [AllUse, or_imp, forall_and]

@[simp] theorem allUse_map {α : Type} {f : α → Fragment} {as : List α} :
    AllUse names (as.map f) ↔ ∀ a ∈ as, Uses names (f a) := by
  simp [AllUse]

@[simp] theorem uses_separated {separator : String} {fs : List Fragment} :
    Uses names (separated separator fs) ↔ AllUse names fs := by
  induction fs with
  | nil => simp [separated]
  | cons f rest ih =>
    cases rest with
    | nil => simp [separated]
    | cons g rest => simp [separated, ih, Piece.placeholders]

@[simp] theorem uses_list {fs : List Fragment} : Uses names (list fs) ↔ AllUse names fs :=
  uses_separated

@[simp] theorem uses_lines {fs : List Fragment} : Uses names (lines fs) ↔ AllUse names fs :=
  uses_separated

@[simp] theorem uses_paren {f : Fragment} : Uses names (paren f) ↔ Uses names f := by
  simp [paren]

@[simp] theorem uses_table {t : StoredTable} : Uses names (table t) := by
  unfold table
  split <;> simp

@[simp] theorem uses_labelled {f : Fragment} {label : String} : Uses names (labelled f label) ↔ Uses names f := by
  simp [labelled]

end Fragment

/-! ## Writers -/

/-- The value that a placeholder stands for: that of a single parameter, or a cell of the rows of one. -/
inductive StandsFor (ps : Parameters) : String → Value → Prop
  | scalar {name : String} {v : Value} (held : ps.scalar name = .ok v) : StandsFor ps name v
  | cell {parameter : String} {rows : List Row} {i j : Nat} {row : Row} {v : Value}
      (held : ps.rows parameter = .ok rows) (inRows : rows[i]? = some row) (inRow : row[j]? = some v) :
      StandsFor ps (LiteralTable.cellName parameter i j) v

namespace Writer

variable {α β : Type} {ps : Parameters} {final : List String} {Q : α → Prop} {R : β → Prop}

/-- The writer keeps the parameters that it finds, adds only values that their names stand for, and its result is
as said, provided that all its names are among those of the finished command. -/
def Within (ps : Parameters) (final : List String) (x : Writer α) (Q : α → Prop) : Prop :=
  ∀ used a used', x used = .ok (a, used') →
    used.map Prod.fst ⊆ used'.map Prod.fst ∧
      ((∀ e ∈ used, StandsFor ps e.1 e.2) → ∀ e ∈ used', StandsFor ps e.1 e.2) ∧
      (used'.map Prod.fst ⊆ final → Q a)

theorem within_pure {a : α} (h : Q a) : Within ps final (pure a) Q := by
  rintro used b used' ⟨⟩
  exact ⟨List.Subset.refl _, id, fun _ => h⟩

theorem within_throw {e : Error} : Within ps final (throw e) Q := by
  rintro used b used' ⟨⟩

theorem within_throw_bind {e : Error} {f : α → Writer β} : Within ps final (throw e >>= f) R := by
  rintro used b used' ⟨⟩

theorem Within.imp {Q' : α → Prop} {x : Writer α} (h : Within ps final x Q) (weaker : ∀ a, Q a → Q' a) :
    Within ps final x Q' := fun used a used' run =>
  let ⟨grows, sound, result⟩ := h used a used' run
  ⟨grows, sound, fun below => weaker a (result below)⟩

theorem within_bind {x : Writer α} {f : α → Writer β} (first : Within ps final x Q)
    (second : ∀ a, Within ps final (f a) fun b => Q a → R b) : Within ps final (x >>= f) R := by
  intro used b used' run
  obtain ⟨⟨a, between⟩, here, there⟩ := bind_eq_ok.1 run
  obtain ⟨grows, sound, result⟩ := first used a between here
  obtain ⟨grows', sound', result'⟩ := second a between b used' there
  exact ⟨List.Subset.trans grows grows', fun h => sound' (sound h),
    fun below => result' below (result (List.Subset.trans grows' below))⟩

theorem within_register {name : String} {v : Value} (stands : StandsFor ps name v) :
    Within ps final (register name v) fun _ => name ∈ final := by
  rintro used ⟨⟩ used' run
  obtain rfl : (if used.any fun e => e.1 == name then used else used ++ [(name, v)]) = used' :=
    congrArg Prod.snd (Except.ok.inj run)
  split
  next found =>
    refine ⟨List.Subset.refl _, id, fun below => below ?_⟩
    obtain ⟨⟨n, w⟩, member, same⟩ := List.any_eq_true.1 found
    obtain rfl : n = name := by simpa using same
    exact List.mem_map_of_mem member
  next =>
    refine ⟨by simp, fun sound e member => ?_, fun below => below (by simp)⟩
    rcases List.mem_append.1 member with before | new
    · exact sound e before
    · obtain rfl := List.mem_singleton.1 new
      exact stands

theorem within_registerBound (names : List String) :
    Within ps final (registerBound ps names) fun _ => ∀ n ∈ names, n ∈ final := by
  induction names with
  | nil => exact within_pure (by simp)
  | cons name rest ih =>
    unfold registerBound
    cases held : ps.scalar name with
    | error e => exact within_throw_bind
    | ok v =>
      refine within_bind (within_register (.scalar held)) fun _ => ih.imp fun _ later first => ?_
      exact List.forall_mem_cons.2 ⟨first, later⟩

variable (d : Dialect)

theorem within_value (e : Scalar) : Within ps final (value d ps e) (Fragment.Uses final) :=
  within_bind (within_registerBound _) fun _ => within_pure fun h => by
    simpa [Piece.placeholders] using h

theorem within_condition (e : Scalar) : Within ps final (condition d ps e) (Fragment.Uses final) :=
  within_bind (within_registerBound _) fun _ => within_pure fun h => by
    simpa [Piece.placeholders] using h

/-! ## Selects -/

theorem within_valueList (es : List Scalar) :
    Within ps final (valueList d ps es) (Fragment.AllUse final) := by
  induction es with
  | nil => exact within_pure (by simp)
  | cons e rest ih =>
    exact within_bind (within_value d e) fun f => within_bind ih fun fs => within_pure fun later first => by
      simp [first, later]

theorem within_conditionLine (clause : String) (condition : Option Scalar) :
    Within ps final (conditionLine d ps clause condition) (Fragment.AllUse final) := by
  cases condition with
  | none => exact within_pure (by simp)
  | some e =>
    exact within_bind (within_condition d e) fun f => within_pure fun h => by simp [h]

theorem within_paging (limit offset : Option Scalar) (ordered : Bool) :
    Within ps final (paging d ps limit offset ordered) fun r => r.1.Uses final ∧ Fragment.AllUse final r.2 := by
  unfold paging
  split
  next => exact within_pure (by simp)
  next => exact within_bind (within_value _ _) fun f => within_pure fun h => by simp [h]
  next => exact within_bind (within_value _ _) fun f => within_pure fun h => by simp [h]
  next =>
    exact within_bind (within_value _ _) fun f => within_bind (within_value _ _) fun g => within_pure fun h h' => by
      simp [h, h']
  next => exact within_bind (within_value _ _) fun f => within_pure fun h => by simp [h]
  next =>
    refine within_bind (within_value _ _) fun f => ?_
    split
    next => exact within_pure fun h => by split <;> simp [h]
    next =>
      exact within_bind (within_value _ _) fun g => within_pure fun h h' => by
        split <;> simp [h, h']

theorem within_outputColumn (p : Projection) :
    Within ps final (outputColumn d ps p) (Fragment.Uses final) := by
  refine within_bind (within_value d p.value) fun f => ?_
  split
  next => exact within_pure fun h => by split <;> simp [h]
  next => exact within_pure fun h => by simp [h]

theorem within_outputColumns (columns : List Projection) :
    Within ps final (outputColumns d ps columns) (Fragment.AllUse final) := by
  induction columns with
  | nil => exact within_pure (by simp)
  | cons p rest ih =>
    exact within_bind (within_outputColumn d p) fun f => within_bind ih fun fs => within_pure fun later first => by
      simp [first, later]

theorem within_projection (columns : List Projection) :
    Within ps final (projection d ps columns) (Fragment.Uses final) := by
  unfold projection
  split
  next => exact within_pure (by simp)
  next => exact within_bind (within_outputColumns d columns) fun fs => within_pure fun h => by simpa using h

theorem within_orderItems (items : List OrderItem) :
    Within ps final (orderItems d ps items) (Fragment.AllUse final) := by
  induction items with
  | nil => exact within_pure (by simp)
  | cons item rest ih =>
    exact within_bind (within_value d item.key) fun f => within_bind ih fun fs => within_pure fun later first => by
      split <;> simp [first, later]

theorem within_cell {name : String} {v : Value} (stands : StandsFor ps name v) :
    Within ps final (cell name v) (Fragment.Uses final) :=
  within_bind (within_register stands) fun _ => within_pure fun h => by
    simpa [Piece.placeholders, Phrase.placeholders] using h

theorem within_boundCells {parameter : String} {rows : List Row} {i : Nat} {row : Row}
    (held : ps.rows parameter = .ok rows) (inRows : rows[i]? = some row) (j : Nat) (values : Row)
    (inRow : ∀ k v, values[k]? = some v → row[j + k]? = some v) :
    Within ps final (boundCells parameter i j values) (Fragment.AllUse final) := by
  induction values generalizing j with
  | nil => exact within_pure (by simp)
  | cons v values ih =>
    have rest := ih (j + 1) fun k v found => by rw [Nat.add_right_comm]; exact inRow (k + 1) v found
    exact within_bind (within_cell (.cell held inRows (inRow 0 v rfl))) fun f =>
      within_bind rest fun fs => within_pure fun later first => by simp [first, later]

theorem within_boundRows {parameter : String} {rows : List Row} (held : ps.rows parameter = .ok rows) (i : Nat)
    (part : List Row) (inRows : ∀ k row, part[k]? = some row → rows[i + k]? = some row) :
    Within ps final (boundRows parameter i part) fun cells => ∀ fs ∈ cells, Fragment.AllUse final fs := by
  induction part generalizing i with
  | nil => exact within_pure (by simp)
  | cons row part ih =>
    have rest := ih (i + 1) fun k row found => by rw [Nat.add_right_comm]; exact inRows (k + 1) row found
    have cells : Within ps final (boundCells parameter i 0 row) (Fragment.AllUse final) :=
      within_boundCells held (inRows 0 row rfl) 0 row fun k v found => by simpa using found
    exact within_bind cells fun fs => within_bind rest fun rows => within_pure fun later first => by
      simpa [first] using later

theorem within_takenRows {parameter : String} {rows : List Row} (held : ps.rows parameter = .ok rows) (count : Nat) :
    Within ps final (boundRows parameter 0 (rows.take count)) fun cells => ∀ fs ∈ cells, Fragment.AllUse final fs := by
  refine within_boundRows held 0 _ fun k row found => ?_
  rw [List.getElem?_take] at found
  split at found
  next => simpa using found
  next => cases found

theorem within_immediateRows (rows : List (List Scalar)) :
    Within ps final (immediateRows d ps rows) fun cells => ∀ fs ∈ cells, Fragment.AllUse final fs := by
  induction rows with
  | nil => exact within_pure (by simp)
  | cons row rest ih =>
    exact within_bind (within_valueList d row) fun fs => within_bind ih fun rows => within_pure fun later first => by
      simpa [first] using later

theorem within_literalCells (v : LiteralTable) :
    Within ps final (literalCells d ps v) fun cells => ∀ fs ∈ cells, Fragment.AllUse final fs := by
  unfold literalCells
  split
  next => exact within_immediateRows d _
  next => exact within_throw
  next =>
    split
    next => exact within_throw
    next rows held => exact within_takenRows held _

theorem uses_emptyLiteral (v : LiteralTable) : (emptyLiteral d v).Uses final := by
  have nulls : Fragment.AllUse final (v.columns.map fun c => (Fragment.word "NULL").labelled c) := by
    simp [Fragment.AllUse]
  unfold emptyLiteral
  cases d <;> simp [nulls]

theorem uses_filledLiteral (v : LiteralTable) {first : List Fragment} {rest : List (List Fragment)}
    (h : Fragment.AllUse final first) (h' : ∀ fs ∈ rest, Fragment.AllUse final fs) :
    (filledLiteral d v first rest).Uses final := by
  have columns : Fragment.AllUse final (v.columns.map Fragment.identifier) := by simp [Fragment.AllUse]
  cases d with
  | sqlite =>
    -- the columns are named in the first row
    have named : Fragment.AllUse final ((first.zip v.columns).map fun p => p.1.labelled p.2) := by
      rintro f member
      obtain ⟨⟨g, c⟩, pair, rfl⟩ := List.mem_map.1 member
      simpa using h g (List.of_mem_zip pair).1
    have selects : Fragment.AllUse final
        ((((first.zip v.columns).map fun p => p.1.labelled p.2) :: rest).map fun cells =>
          Fragment.word "SELECT " ++ .list cells) := by
      rintro f member
      obtain ⟨cells, row, rfl⟩ := List.mem_map.1 member
      rcases List.mem_cons.1 row with rfl | row
      · simpa using named
      · simpa using h' cells row
    simpa [filledLiteral] using selects
  | sqlServer =>
    have rows : Fragment.AllUse final ((first :: rest).map fun cells => Fragment.paren (.list cells)) := by
      rintro f member
      obtain ⟨cells, row, rfl⟩ := List.mem_map.1 member
      rcases List.mem_cons.1 row with rfl | row
      · simpa using h
      · simpa using h' cells row
    simpa [filledLiteral, columns] using rows

theorem within_literalTable (v : LiteralTable) :
    Within ps final (literalTable d ps v) (Fragment.Uses final) := by
  refine within_bind (within_literalCells d v) fun cells => ?_
  split
  next => exact within_pure fun _ => uses_emptyLiteral d v
  next first rest =>
    refine within_pure fun h => ?_
    exact uses_filledLiteral d v (h first List.mem_cons_self) fun fs member => h fs (List.mem_cons_of_mem _ member)

theorem uses_joined (kind : JoinKind) {f : Fragment} (h : f.Uses final) {on : Option Fragment}
    (h' : ∀ g ∈ on, g.Uses final) : (joined kind f on).Uses final := by
  unfold joined
  split <;> split <;> simp_all

theorem within_joinCondition (kind : JoinKind) (on : Option Scalar) :
    Within ps final (joinCondition d ps kind on) fun r => ∀ f ∈ r, f.Uses final := by
  unfold joinCondition
  split
  next => exact within_pure (by simp)
  next => exact within_pure (by simp)
  next => exact within_bind (within_condition _ _) fun f => within_pure fun h => by simpa using h

mutual

theorem within_select (s : Select) (nested : Bool) :
    Within ps final (select d ps s nested) (Fragment.Uses final) := by
  obtain ⟨source', joined, predicate, groupBy, having, columns, union, orderBy, limit, offset⟩ := s
  unfold select
  refine within_bind (within_paging d _ _ _) fun tops => ?_
  refine within_bind (within_projection d columns) fun list => ?_
  refine within_bind (within_source source') fun from' => ?_
  refine within_bind (within_joins joined) fun joined => ?_
  refine within_bind (within_conditionLine d _ predicate) fun filter => ?_
  refine within_bind (within_valueList d groupBy) fun keys => ?_
  refine within_bind (within_conditionLine d _ having) fun having => ?_
  refine within_bind (within_unionLines union) fun united => ?_
  simp only [pure_bind]
  split
  next =>
    refine within_bind (within_orderItems d orderBy) fun items => within_pure ?_
    intro order united having keys filter joined from' list tops
    split <;> simp [tops, list, from', joined, filter, keys, having, united, order]
  next =>
    refine within_pure fun united having keys filter joined from' list tops => ?_
    split <;> simp [tops, list, from', joined, filter, keys, having, united]

theorem within_source (s : Source) : Within ps final (source d ps s) (Fragment.Uses final) := by
  cases s with
  | table ref => exact within_pure (by simp)
  | literal v => exact within_literalTable d v
  | subquery inner label =>
    exact within_bind (within_select inner true) fun f => within_pure fun h => by simp [h]

theorem within_joins (js : List (Join Select)) :
    Within ps final (joins d ps js) (Fragment.AllUse final) := by
  cases js with
  | nil => exact within_pure (by simp)
  | cons j rest =>
    exact within_bind (within_join j) fun f => within_bind (within_joins rest) fun fs => within_pure
      fun later first => by simp [first, later]

theorem within_join (j : Join Select) : Within ps final (join d ps j) (Fragment.Uses final) := by
  obtain ⟨kind, source', on⟩ := j
  exact within_bind (within_source source') fun f => within_bind (within_joinCondition d kind on) fun on =>
    within_pure fun h' h => uses_joined kind h h'

theorem within_unionLines (s : Option Select) :
    Within ps final (unionLines d ps s) (Fragment.AllUse final) := by
  cases s with
  | none => exact within_pure (by simp)
  | some other =>
    exact within_bind (within_select other true) fun f => within_pure fun h => by simp [h]

end

/-! ## Statements -/

theorem within_assignments (label : Option String) (set : List Projection) :
    Within ps final (assignments d ps label set) (Fragment.AllUse final) := by
  induction set with
  | nil => exact within_pure (by simp)
  | cons p rest ih =>
    refine within_bind (within_value d p.value) fun f => within_bind ih fun fs => within_pure fun later first => ?_
    cases label <;> simp [first, later]

@[simp] theorem uses_nameList (list : List Projection) : (nameList list).Uses final := by
  simp [nameList, Fragment.AllUse]

@[simp] theorem uses_excludedColumn (name : String) : (excludedColumn name).Uses final := by
  simp [excludedColumn, Piece.placeholders, Phrase.placeholders]

def conflictFragment (label : String) (columns : List String) : Fragment :=
  .separated " AND " (columns.map fun c =>
    .identifier label ++ .word "." ++ .identifier c ++ .word " = " ++ excludedColumn c)

def insertedLine (inserted : List Projection) : Fragment :=
  .word "WHEN NOT MATCHED THEN INSERT " ++ .paren (nameList inserted) ++ .word " VALUES "
    ++ .paren (.list (inserted.map fun p => excludedColumn p.name)) ++ .word ";"

def mergedUpsert (table : StoredTable) (inserted : List Projection) (conflictColumns : List String) (rows : Fragment)
    (matched : List Fragment) : Fragment :=
  .lines ([Fragment.word "MERGE INTO " ++ (Fragment.table table).labelled table.label,
    Fragment.word "USING " ++ Fragment.labelled rows "excluded",
    Fragment.word "ON " ++ conflictFragment table.label conflictColumns] ++ matched ++ [insertedLine inserted])

theorem within_insertInto (table : String) (schema : Option String) (rows : Select) :
    Within ps final (insertInto d ps table schema rows) (Fragment.Uses final) :=
  within_bind (within_select d rows false) fun f => within_pure fun h => by simp [h]

theorem within_updateSources (js : List (Join Select)) (condition : Option Scalar) :
    Within ps final (updateSources ps js condition) fun r => Fragment.AllUse final r.1 := by
  induction js generalizing condition with
  | nil => exact within_pure (by simp)
  | cons j rest ih =>
    unfold updateSources
    by_cases outer : j.kind = .leftOuter
    · simp only [outer, if_true]
      exact within_throw_bind
    · simp only [outer, if_false]
      exact within_bind (within_source _ _) fun f => within_bind (ih _) fun fs => within_pure fun later first => by
        simp [first, later]

theorem within_sqliteStatement (s : Statement) : Within ps final (sqliteStatement ps s) (Fragment.Uses final) := by
  cases s with
  | delete table predicate joined =>
    cases joined with
    | nil =>
      exact within_bind (within_conditionLine _ _ _) fun filter => within_pure fun h => by simp [h]
    | cons j rest =>
      exact within_bind (within_joins _ _) fun joined => within_bind (within_conditionLine _ _ _) fun filter =>
        within_pure fun filter joined => by simp [filter, joined]
  | update table set predicate joined =>
    refine within_bind (within_assignments _ _ _) fun set => within_bind (within_updateSources _ _) fun sources => ?_
    refine within_bind (within_conditionLine _ _ _) fun filter => within_pure fun filter sources set => ?_
    simp only [Fragment.uses_lines]
    split <;> simp [filter, sources, set]
  | insertInto table schema rows => exact within_insertInto _ _ _ _
  | upsert table rows inserted updated constraint conflictColumns =>
    cases rows <;> cases updated <;> simp only [sqliteStatement, pure_bind]
    next =>
      exact within_bind (within_valueList _ _) fun values => within_pure fun values => by simp [values]
    next =>
      exact within_bind (within_valueList _ _) fun values => within_bind (within_assignments _ _ _) fun set =>
        within_pure fun set values => by simp [set, values]
    next =>
      exact within_bind (within_select _ _ _) fun rows => within_pure fun rows => by simp [rows]
    next =>
      exact within_bind (within_select _ _ _) fun rows => within_bind (within_assignments _ _ _) fun set =>
        within_pure fun set rows => by simp [set, rows]
  -- the dialect has no merge, and refuses it before anything is registered
  | merge => exact within_throw
  | truncate table => exact within_pure (by simp [deleteAll])
  | noop => exact within_pure (by simp)

theorem within_matchedLine (label : String) (updated : Option (List Projection)) :
    Within ps final (matchedLine ps label updated) (Fragment.AllUse final) := by
  cases updated with
  | none => exact within_pure (by simp)
  | some set =>
    exact within_bind (within_assignments _ _ _) fun set => within_pure fun h => by simp [h]

theorem within_insertLine (inserted : Option (List Projection)) :
    Within ps final (insertLine ps inserted) (Fragment.AllUse final) := by
  cases inserted with
  | none => exact within_pure (by simp)
  | some list =>
    exact within_bind (within_valueList _ _) fun values => within_pure fun h => by simp [h]

theorem within_sqlServerStatement (s : Statement) :
    Within ps final (sqlServerStatement ps s) (Fragment.Uses final) := by
  cases s with
  | delete table predicate joined =>
    exact within_bind (within_joins _ _) fun joined => within_bind (within_conditionLine _ _ _) fun filter =>
      within_pure fun filter joined => by simp [filter, joined]
  | update table set predicate joined =>
    exact within_bind (within_assignments _ _ _) fun set => within_bind (within_joins _ _) fun joined =>
      within_bind (within_conditionLine _ _ _) fun filter => within_pure fun filter joined set => by
        simp [filter, joined, set]
  | insertInto table schema rows => exact within_insertInto _ _ _ _
  | upsert table rows inserted updated constraint conflictColumns =>
    cases rows <;> simp only [sqlServerStatement, pure_bind]
    next =>
      exact within_bind (within_projection _ _) fun columns => within_bind (within_matchedLine _ _) fun matched =>
        within_pure fun matched columns => by simp [matched, columns]
    next =>
      exact within_bind (within_select _ _ _) fun rows => within_bind (within_matchedLine _ _) fun matched =>
        within_pure fun matched rows => by simp [matched, rows]
  | merge target from' on matched inserted deleteUnmatched =>
    refine within_bind (within_source _ _) fun from' => within_bind (within_condition _ _) fun on => ?_
    refine within_bind (within_matchedLine _ _) fun matched => within_bind (within_insertLine _) fun inserted => ?_
    refine within_pure fun inserted matched on from' => ?_
    split <;> simp [inserted, matched, on, from']
  | truncate table => exact within_pure (by simp [deleteAll])
  | noop => exact within_pure (by simp)

theorem within_block (b : Block) : Within ps final (block d ps b) (Fragment.Uses final) := by
  cases b with
  | select s => exact within_select d s false
  | affected s =>
    cases d with
    | sqlite => exact within_sqliteStatement s
    | sqlServer => exact within_sqlServerStatement s

end Writer

/-! ## Commands -/

theorem cellName_inj {q q' : String} {i i' j j' : Nat}
    (h : LiteralTable.cellName q i j = LiteralTable.cellName q' i' j') : q = q' ∧ i = i' ∧ j = j' := by
  obtain ⟨rows, columns⟩ := numbered_inj h
  obtain ⟨names, rows⟩ := numbered_inj rows
  exact ⟨names, rows, columns⟩

def CellsApart (ps : Parameters) : Prop :=
  ∀ p v q rows i j, ps.scalar p = .ok v → ps.rows q = .ok rows → p ≠ LiteralTable.cellName q i j

theorem StandsFor.unique {ps : Parameters} (apart : CellsApart ps) {name : String} {v w : Value}
    (h : StandsFor ps name v) (h' : StandsFor ps name w) : v = w := by
  cases h with
  | scalar held =>
    cases h' with
    | scalar held' => exact Except.ok.inj (held.symm.trans held')
    | cell held' => exact absurd rfl (apart _ _ _ _ _ _ held held')
  | cell held inRows inRow =>
    generalize same : LiteralTable.cellName _ _ _ = name at h'
    cases h' with
    | scalar held' => exact absurd same.symm (apart _ _ _ _ _ _ held' held)
    | cell held' inRows' inRow' =>
      obtain ⟨rfl, rfl, rfl⟩ := cellName_inj same
      obtain rfl := Except.ok.inj (held.symm.trans held')
      obtain rfl := Option.some.inj (inRows.symm.trans inRows')
      exact Option.some.inj (inRow.symm.trans inRow')

theorem lookup_of_stands {ps : Parameters} (apart : CellsApart ps) {used : List (String × Value)}
    (sound : ∀ e ∈ used, StandsFor ps e.1 e.2) {name : String} (member : name ∈ used.map Prod.fst) {v : Value}
    (stands : StandsFor ps name v) : used.lookup name = some v := by
  cases found : used.lookup name with
  | none =>
    obtain ⟨e, inside, rfl⟩ := List.mem_map.1 member
    simpa using List.lookup_eq_none_iff.1 found e inside
  | some w =>
    obtain ⟨before, after, rfl, -⟩ := List.lookup_eq_some_iff.1 found
    rw [StandsFor.unique apart stands (sound (name, w) (by simp))]

theorem cellsApart_of_names {m form : Mutation} {ps : Parameters} (lifted : m.lift = .ok (form, ps))
    (apart : ∀ name v, (name, Parameter.scalar v) ∈ m.clientValues →
      ∀ k i : Nat, name ≠ "rows_" ++ toString k ++ "_" ++ toString i) : CellsApart ps := by
  intro p v q rows k j scalar held same
  obtain ⟨n, hint, captured, rfl⟩ := (Mutation.find?_lifted lifted _ _).1 (Parameters.scalar_eq_ok.1 scalar)
  obtain ⟨n', hint', collected, rfl⟩ := (Mutation.find?_lifted lifted _ _).1 (Parameters.rows_eq_ok.1 held)
  obtain rfl := m.rowsHint _ _ (List.mem_of_getElem? collected)
  obtain ⟨names, -⟩ := numbered_inj same
  refine apart hint v (List.mem_of_getElem? captured) n' k (String.append_right_inj "__" |>.1 ?_)
  rw [names, Lifting.liftedName, show "rows_" = "rows" ++ "_" from rfl]
  simp only [String.append_assoc]

/-- The command of a mutation carries for every placeholder in it the value that it stands for: that of the
lifted parameter, or the cell of the lifted collection. This needs that no captured value is called like a row
of a collection. -/
theorem commands_carry_values (model : Model) (d : Dialect) (m : Mutation) (cmd : Command)
    (made : Command.ofMutation model d m = .ok cmd)
    (apart : ∀ name v, (name, Parameter.scalar v) ∈ m.clientValues →
      ∀ k i : Nat, name ≠ "rows_" ++ toString k ++ "_" ++ toString i) :
    ∃ form ps b f,
      m.lift = .ok (form, ps) ∧ List.Forall₂ (Lifting.LiftedTo ps) m.collections form.collections ∧
        (Planner.prepare { model, capabilities := d.capabilities, cachePlans := false } m).1 = .ok (b, ps) ∧
        Writer.block d ps b [] = .ok (f, cmd.parameters) ∧ cmd.sql = f.text d ∧
        (∀ name ∈ f.placeholders, ∃ v, StandsFor ps name v) ∧
        (∀ name ∈ f.placeholders, ∀ v, StandsFor ps name v → cmd.parameters.lookup name = some v) ∧
        CellsApart ps := by
  obtain ⟨⟨b, ps⟩, prepared, written⟩ := bind_eq_ok.1 made
  obtain ⟨plan, planned, -⟩ := Planner.prepare_eq_ok prepared
  obtain ⟨form, lifted, -⟩ := Planner.plan_eq_ok planned
  obtain ⟨⟨f, used⟩, run, written⟩ := bind_eq_ok.1 (mapError_eq_ok.1 written)
  -- every parameter that is registered stands for its value, and every placeholder has been registered
  have within : Writer.Within ps (used.map Prod.fst) (Writer.block d ps b) (Fragment.Uses (used.map Prod.fst)) :=
    Writer.within_block d b
  obtain ⟨-, sound, uses⟩ := within [] f used run
  have stands := sound (by simp)
  -- a captured value could take the name of a cell only, and the condition excludes these names
  have cells := cellsApart_of_names lifted apart
  dsimp only at written
  split at written
  next => cases written
  next =>
    obtain rfl := pure_eq_ok.1 written
    refine ⟨form, ps, b, f, lifted, m.collections_lifted lifted, prepared, run, rfl, fun name member => ?_,
      fun name member v => lookup_of_stands cells stands (uses (List.Subset.refl _) name member), cells⟩
    obtain ⟨⟨name, v⟩, inside, rfl⟩ := List.mem_map.1 (uses (List.Subset.refl _) name member)
    exact ⟨v, stands _ inside⟩

def goods : Model where
  entities := [
    { name := "Item"
      table := "Items"
      properties := [⟨"Id", "Id", .integer, false, false⟩, ⟨"Amount", "Amount", .integer, false, false⟩] }]

/-- Insert an item of the client with a captured amount of the given name. -/
def restock (name : String) : Mutation :=
  .insertInto
    (.map (.rows (.records ["Id", "Shelf"] [⟨none, [("Id", .int 1), ("Shelf", .int 20)]⟩]))
      ⟨["r"], .new (some "Item") []
        [.assign "Id" (.member (.param "r") "Id"), .assign "Amount" (.captured name (.int 7))]⟩)
    "Item"

/-- An amount with the name of the collection is told from its cells. -/
theorem restock_carries :
    ∃ cmd ps b f, Command.ofMutation goods .sqlite (restock "rows_0") = .ok cmd ∧
      cmd.parameters = [("__rows_0_1", .int 7), ("__rows_0_0_0", .int 1), ("__rows_0_0_1", .int 20)] ∧
      Writer.block .sqlite ps b [] = .ok (f, cmd.parameters) ∧ cmd.sql = f.text .sqlite ∧ CellsApart ps ∧
      ∀ name ∈ f.placeholders, ∃ v, StandsFor ps name v ∧ cmd.parameters.lookup name = some v := by
  obtain ⟨cmd, made, held⟩ : ∃ cmd, Command.ofMutation goods .sqlite (restock "rows_0") = .ok cmd ∧
      cmd.parameters = [("__rows_0_1", .int 7), ("__rows_0_0_0", .int 1), ("__rows_0_0_1", .int 20)] :=
    ⟨_, rfl, rfl⟩
  have apart : ∀ name v, (name, Parameter.scalar v) ∈ (restock "rows_0").clientValues →
      ∀ k i : Nat, name ≠ "rows_" ++ toString k ++ "_" ++ toString i := by
    have listed : (restock "rows_0").clientValues =
        [("rows", .rows [[.int 1, .int 20]]), ("rows_0", .scalar (.int 7))] := rfl
    intro name v captured k i same
    obtain ⟨rfl, rfl⟩ : name = "rows_0" ∧ v = .int 7 := by simpa [listed] using captured
    have split : "rows" ++ "_" ++ toString 0 = "rows_" ++ toString k ++ "_" ++ toString i := same
    simpa using congrArg String.toList (numbered_inj split).1
  obtain ⟨form, ps, b, f, -, -, -, run, text, stands, carries, cells⟩ :=
    commands_carry_values goods .sqlite (restock "rows_0") cmd made apart
  refine ⟨cmd, ps, b, f, made, held, run, text, cells, fun name member => ?_⟩
  obtain ⟨v, holds⟩ := stands name member
  exact ⟨v, holds, carries name member v holds⟩

theorem restock_overwrites :
    ∃ form ps cmd, (restock "rows_0_0").lift = .ok (form, ps) ∧
      Command.ofMutation goods .sqlite (restock "rows_0_0") = .ok cmd ∧
      StandsFor ps (LiteralTable.cellName "__rows_0" 0 1) (.int 20) ∧
      cmd.parameters.lookup (LiteralTable.cellName "__rows_0" 0 1) = some (.int 7) :=
  ⟨_, _, _, rfl, rfl, .cell rfl rfl rfl, rfl⟩

end Sql

end Setwise
