import Setwise.Proofs.PlannedMutations

/-!
What binding does to the literal tables of a plan.

Two blocks are the same up to their literal tables when a relation holds of these in pairs, at every depth, and
everything else is the same (`Block.Replaced`). Replacing literal tables one by one gives such a block
(`Block.replaced_of_mapLiteralTables`), and fails only with the failure of a table. Bound to parameters, a pending table
has the number of its rows, which have a value for each column (`LiteralTable.Resolves`), and the other tables stay;
binding fails only for a parameter that is missing, is no collection, or has a row of another width
(`Plan.defect_of_bind`).
-/

set_option autoImplicit false

namespace Setwise.Relational

/-! ## Blocks up to their literal tables -/

section

variable (R : LiteralTable → LiteralTable → Prop)

mutual

/-- The selects are the same up to their literal tables, which are related in pairs. -/
inductive Select.Replaced : Select → Select → Prop
  | intro {s t : Select} (source : Source.Replaced s.source t.source)
      (joins : List.Forall₂ Join.Replaced s.joins t.joins) (union : Option.Rel Select.Replaced s.union t.union)
      (same : t = { s with source := t.source, joins := t.joins, union := t.union }) : Select.Replaced s t

/-- The sources are the same up to their literal tables. -/
inductive Source.Replaced : Source → Source → Prop
  | table (t : StoredTable) : Source.Replaced (.table t) (.table t)
  | literal {v w : LiteralTable} (related : R v w) : Source.Replaced (.literal v) (.literal w)
  | subquery {s t : Select} (label : String) (inner : Select.Replaced s t) :
      Source.Replaced (.subquery s label) (.subquery t label)

/-- The joins are the same up to their literal tables. -/
inductive Join.Replaced : Join Select → Join Select → Prop
  | intro (kind : JoinKind) {s t : Source} (on : Option Scalar) (source : Source.Replaced s t) :
      Join.Replaced ⟨kind, s, on⟩ ⟨kind, t, on⟩

end

/-- The statements are the same up to their literal tables. -/
inductive Statement.Replaced : Statement → Statement → Prop
  | delete (table : StoredTable) (predicate : Option Scalar) {js ks : List (Join Select)}
      (joins : List.Forall₂ (Join.Replaced R) js ks) :
      Statement.Replaced (.delete table predicate js) (.delete table predicate ks)
  | update (table : StoredTable) (set : List Projection) (predicate : Option Scalar) {js ks : List (Join Select)}
      (joins : List.Forall₂ (Join.Replaced R) js ks) :
      Statement.Replaced (.update table set predicate js) (.update table set predicate ks)
  | insertInto (table : String) (schema : Option String) {s t : Select} (rows : Select.Replaced R s t) :
      Statement.Replaced (.insertInto table schema s) (.insertInto table schema t)
  | upsert (table : StoredTable) {s t : Option Select} (inserted : List Projection)
      (updated : Option (List Projection)) (constraint : String) (conflictColumns : List String)
      (rows : Option.Rel (Select.Replaced R) s t) :
      Statement.Replaced (.upsert table s inserted updated constraint conflictColumns)
        (.upsert table t inserted updated constraint conflictColumns)
  | merge (target : StoredTable) {s t : Source} (on : Scalar) (matched inserted : Option (List Projection))
      (deleteUnmatched : Bool) (rows : Source.Replaced R s t) :
      Statement.Replaced (.merge target s on matched inserted deleteUnmatched)
        (.merge target t on matched inserted deleteUnmatched)
  | truncate (table : StoredTable) : Statement.Replaced (.truncate table) (.truncate table)
  | noop : Statement.Replaced .noop .noop

/-- The blocks are the same up to their literal tables. -/
inductive Block.Replaced : Block → Block → Prop
  | select {s t : Select} (rows : Select.Replaced R s t) : Block.Replaced (.select s) (.select t)
  | affected {s t : Statement} (write : Statement.Replaced R s t) : Block.Replaced (.affected s) (.affected t)

end

section

variable {ε : Type} {f : LiteralTable → Except ε LiteralTable} {R : LiteralTable → LiteralTable → Prop}

/-! ## Replacing succeeds -/

mutual

theorem Select.replaced_of_mapLiteralTables {s t : Select} (h : s.mapLiteralTables f = .ok t)
    (tables : ∀ v w, f v = .ok w → R v w) : s.Replaced R t := by
  match s with
  | { source, joins, predicate, groupBy, having, projection, union, orderBy, limit, offset } =>
    unfold Select.mapLiteralTables at h
    obtain ⟨source', first, h⟩ := bind_eq_ok.1 h
    obtain ⟨joins', second, h⟩ := bind_eq_ok.1 h
    obtain ⟨union', third, h⟩ := bind_eq_ok.1 h
    obtain rfl := pure_eq_ok.1 h
    exact .intro (Source.replaced_of_mapLiteralTables first tables)
      (Join.replaced_of_mapLiteralTablesAll second tables)
      (Select.replaced_of_mapLiteralTablesOption third tables) rfl
termination_by structural s

theorem Source.replaced_of_mapLiteralTables {s t : Source} (h : Source.mapLiteralTables f s = .ok t)
    (tables : ∀ v w, f v = .ok w → R v w) : Source.Replaced R s t := by
  match s with
  | .table ref =>
    obtain rfl := Except.ok.inj h
    exact .table ref
  | .literal v =>
    obtain ⟨w, replaced, h⟩ := bind_eq_ok.1 h
    obtain rfl := pure_eq_ok.1 h
    exact .literal (tables v w replaced)
  | .subquery select label =>
    obtain ⟨u, replaced, h⟩ := bind_eq_ok.1 h
    obtain rfl := pure_eq_ok.1 h
    exact .subquery label (Select.replaced_of_mapLiteralTables replaced tables)
termination_by structural s

theorem Join.replaced_of_mapLiteralTablesAll {js ks : List (Join Select)} (h : Join.mapLiteralTablesAll f js = .ok ks)
    (tables : ∀ v w, f v = .ok w → R v w) : List.Forall₂ (Join.Replaced R) js ks := by
  match js with
  | [] =>
    obtain rfl := Except.ok.inj h
    exact .nil
  | j :: rest =>
    obtain ⟨k, here, h⟩ := bind_eq_ok.1 h
    obtain ⟨others, later, h⟩ := bind_eq_ok.1 h
    obtain rfl := pure_eq_ok.1 h
    exact .cons (Join.replaced_of_mapLiteralTables here tables) (Join.replaced_of_mapLiteralTablesAll later tables)
termination_by structural js

theorem Join.replaced_of_mapLiteralTables {j k : Join Select} (h : Join.mapLiteralTables f j = .ok k)
    (tables : ∀ v w, f v = .ok w → R v w) : Join.Replaced R j k := by
  match j with
  | { kind, source, on } =>
    obtain ⟨source', replaced, h⟩ := bind_eq_ok.1 h
    obtain rfl := pure_eq_ok.1 h
    exact .intro kind on (Source.replaced_of_mapLiteralTables replaced tables)
termination_by structural j

theorem Select.replaced_of_mapLiteralTablesOption {s t : Option Select}
    (h : Select.mapLiteralTablesOption f s = .ok t) (tables : ∀ v w, f v = .ok w → R v w) :
    Option.Rel (Select.Replaced R) s t := by
  match s with
  | none =>
    obtain rfl := Except.ok.inj h
    exact .none
  | some select =>
    obtain ⟨u, replaced, h⟩ := bind_eq_ok.1 h
    obtain rfl := pure_eq_ok.1 h
    exact .some (Select.replaced_of_mapLiteralTables replaced tables)
termination_by structural s

end

theorem Statement.replaced_of_mapLiteralTables {s t : Statement} (h : s.mapLiteralTables f = .ok t)
    (tables : ∀ v w, f v = .ok w → R v w) : s.Replaced R t := by
  cases s with
  | delete table predicate joins =>
    obtain ⟨ks, replaced, h⟩ := bind_eq_ok.1 h
    obtain rfl := pure_eq_ok.1 h
    exact .delete table predicate (Join.replaced_of_mapLiteralTablesAll replaced tables)
  | update table set predicate joins =>
    obtain ⟨ks, replaced, h⟩ := bind_eq_ok.1 h
    obtain rfl := pure_eq_ok.1 h
    exact .update table set predicate (Join.replaced_of_mapLiteralTablesAll replaced tables)
  | insertInto table schema select =>
    obtain ⟨u, replaced, h⟩ := bind_eq_ok.1 h
    obtain rfl := pure_eq_ok.1 h
    exact .insertInto table schema (Select.replaced_of_mapLiteralTables replaced tables)
  | upsert table source inserted updated constraint conflictColumns =>
    obtain ⟨u, replaced, h⟩ := bind_eq_ok.1 h
    obtain rfl := pure_eq_ok.1 h
    exact .upsert table inserted updated constraint conflictColumns
      (Select.replaced_of_mapLiteralTablesOption replaced tables)
  | merge target source on matched inserted deleteUnmatched =>
    obtain ⟨u, replaced, h⟩ := bind_eq_ok.1 h
    obtain rfl := pure_eq_ok.1 h
    exact .merge target on matched inserted deleteUnmatched (Source.replaced_of_mapLiteralTables replaced tables)
  | truncate table =>
    obtain rfl := Except.ok.inj h
    exact .truncate table
  | noop =>
    obtain rfl := Except.ok.inj h
    exact .noop

/-- What replaces the literal tables of a block one by one leaves the rest as it is. -/
theorem Block.replaced_of_mapLiteralTables {b c : Block} (h : b.mapLiteralTables f = .ok c)
    (tables : ∀ v w, f v = .ok w → R v w) : b.Replaced R c := by
  cases b with
  | select s =>
    obtain ⟨u, replaced, h⟩ := bind_eq_ok.1 h
    obtain rfl := pure_eq_ok.1 h
    exact .select (Select.replaced_of_mapLiteralTables replaced tables)
  | affected s =>
    obtain ⟨u, replaced, h⟩ := bind_eq_ok.1 h
    obtain rfl := pure_eq_ok.1 h
    exact .affected (Statement.replaced_of_mapLiteralTables replaced tables)

/-! ## Replacing fails -/

variable {e : ε}

mutual

theorem Select.error_of_mapLiteralTables {s : Select} (h : s.mapLiteralTables f = .error e) :
    ∃ v ∈ s.literalTables, f v = .error e := by
  match s with
  | { source, joins, predicate, groupBy, having, projection, union, orderBy, limit, offset } =>
    unfold Select.mapLiteralTables at h
    unfold Select.literalTables
    simp only [List.mem_append]
    -- the first table that cannot be replaced ends the visit
    rcases bind_eq_error.1 h with first | ⟨_, -, h⟩
    · obtain ⟨v, member, failed⟩ := Source.error_of_mapLiteralTables first
      exact ⟨v, .inl (.inl member), failed⟩
    rcases bind_eq_error.1 h with second | ⟨_, -, h⟩
    · obtain ⟨v, member, failed⟩ := Join.error_of_mapLiteralTablesAll second
      exact ⟨v, .inl (.inr member), failed⟩
    rcases bind_eq_error.1 h with third | ⟨_, -, h⟩
    · obtain ⟨v, member, failed⟩ := Select.error_of_mapLiteralTablesOption third
      exact ⟨v, .inr member, failed⟩
    cases h
termination_by structural s

theorem Source.error_of_mapLiteralTables {s : Source} (h : Source.mapLiteralTables f s = .error e) :
    ∃ v ∈ Source.literalTables s, f v = .error e := by
  match s with
  | .table ref => cases h
  | .literal v =>
    rcases bind_eq_error.1 h with failed | ⟨_, -, h⟩
    · exact ⟨v, List.mem_singleton_self v, failed⟩
    cases h
  | .subquery select label =>
    rcases bind_eq_error.1 h with failed | ⟨_, -, h⟩
    · exact Select.error_of_mapLiteralTables failed
    cases h
termination_by structural s

theorem Join.error_of_mapLiteralTablesAll {js : List (Join Select)} (h : Join.mapLiteralTablesAll f js = .error e) :
    ∃ v ∈ Join.literalTablesAll js, f v = .error e := by
  match js with
  | [] => cases h
  | j :: rest =>
    rcases bind_eq_error.1 h with here | ⟨_, -, h⟩
    · obtain ⟨v, member, failed⟩ := Join.error_of_mapLiteralTables here
      exact ⟨v, List.mem_append_left _ member, failed⟩
    rcases bind_eq_error.1 h with later | ⟨_, -, h⟩
    · obtain ⟨v, member, failed⟩ := Join.error_of_mapLiteralTablesAll later
      exact ⟨v, List.mem_append_right _ member, failed⟩
    cases h
termination_by structural js

theorem Join.error_of_mapLiteralTables {j : Join Select} (h : Join.mapLiteralTables f j = .error e) :
    ∃ v ∈ Join.literalTables j, f v = .error e := by
  match j with
  | { kind, source, on } =>
    rcases bind_eq_error.1 h with failed | ⟨_, -, h⟩
    · exact Source.error_of_mapLiteralTables failed
    cases h
termination_by structural j

theorem Select.error_of_mapLiteralTablesOption {s : Option Select}
    (h : Select.mapLiteralTablesOption f s = .error e) : ∃ v ∈ Select.literalTablesOption s, f v = .error e := by
  match s with
  | none => cases h
  | some select =>
    rcases bind_eq_error.1 h with failed | ⟨_, -, h⟩
    · exact Select.error_of_mapLiteralTables failed
    cases h
termination_by structural s

end

theorem Statement.error_of_mapLiteralTables {s : Statement} (h : s.mapLiteralTables f = .error e) :
    ∃ v ∈ s.literalTables, f v = .error e := by
  cases s with
  | delete | update =>
    rcases bind_eq_error.1 h with failed | ⟨_, -, h⟩
    · exact Join.error_of_mapLiteralTablesAll failed
    cases h
  | insertInto =>
    rcases bind_eq_error.1 h with failed | ⟨_, -, h⟩
    · exact Select.error_of_mapLiteralTables failed
    cases h
  | upsert =>
    rcases bind_eq_error.1 h with failed | ⟨_, -, h⟩
    · exact Select.error_of_mapLiteralTablesOption failed
    cases h
  | merge =>
    rcases bind_eq_error.1 h with failed | ⟨_, -, h⟩
    · exact Source.error_of_mapLiteralTables failed
    cases h
  | truncate | noop => cases h

theorem Block.error_of_mapLiteralTables {b : Block} (h : b.mapLiteralTables f = .error e) :
    ∃ v ∈ b.literalTables, f v = .error e := by
  cases b with
  | select s =>
    rcases bind_eq_error.1 h with failed | ⟨_, -, h⟩
    · exact Select.error_of_mapLiteralTables failed
    cases h
  | affected s =>
    rcases bind_eq_error.1 h with failed | ⟨_, -, h⟩
    · exact Statement.error_of_mapLiteralTables failed
    cases h

end

/-! ## Literal tables under parameters -/

/-- What a literal table becomes under some parameters: one whose rows are a parameter learns how many they are, each
with a value for every column, and another one stays as it is. -/
inductive LiteralTable.Resolves (ps : Parameters) : LiteralTable → LiteralTable → Prop
  | kept {v : LiteralTable} (settled : ∀ parameter, v.rows ≠ .pending parameter) : Resolves ps v v
  | counted {v : LiteralTable} {parameter : String} {rows : List Row} (pending : v.rows = .pending parameter)
      (held : ps.find? parameter = some (.rows rows)) (wide : ∀ r ∈ rows, r.length = v.columns.length) :
      Resolves ps v { v with rows := .resolved parameter rows.length }

theorem LiteralTable.resolves_of_resolve {ps : Parameters} {v w : LiteralTable} (h : v.resolve ps = .ok w) :
    Resolves ps v w := by
  unfold resolve at h
  split at h
  next parameter pending =>
    obtain ⟨rows, held, h⟩ := bind_eq_ok.1 h
    split at h
    next => cases h
    next fits =>
      obtain rfl := pure_eq_ok.1 h
      exact .counted pending (Parameters.rows_eq_ok.1 held) (misfit?_eq_none.1 fits)
  next settled =>
    obtain rfl := Except.ok.inj h
    exact .kept settled

/-! ## Binding succeeds -/

theorem emptyStatement?_eq_none {ps : Parameters} {feeds : List Feed} {found : Option Statement}
    (h : emptyStatement? ps feeds = .ok found)
    (filled : ∀ feed ∈ feeds, ps.find? feed.parameter ≠ some (.rows [])) : found = none := by
  -- the feeds are asked for their rows in turn, and the first without rows ends the run
  induction feeds with
  | nil => exact (Except.ok.inj h).symm
  | cons feed rest ih =>
    obtain ⟨here, later⟩ := List.forall_mem_cons.1 filled
    obtain ⟨rows, held, h⟩ := bind_eq_ok.1 h
    split at h
    next empty =>
      rw [List.isEmpty_iff.1 empty] at held
      exact absurd (Parameters.rows_eq_ok.1 held) here
    next => exact ih h later

theorem Plan.replaced_of_bind {plan : Plan} {ps : Parameters} {b : Block} (bound : plan.bind ps = .ok b)
    (filled : ∀ feed ∈ plan.feeds, ps.find? feed.parameter ≠ some (.rows [])) :
    plan.root.Replaced (LiteralTable.Resolves ps) b := by
  obtain ⟨found, empty, h⟩ := bind_eq_ok.1 bound
  obtain rfl := emptyStatement?_eq_none empty filled
  exact Block.replaced_of_mapLiteralTables h fun _ _ => LiteralTable.resolves_of_resolve

/-! ## Binding fails -/

/-- The plan asks for the rows of a parameter: it is fed by them, or has them in one of its literal tables. -/
inductive Plan.Awaits (plan : Plan) : String → Prop
  | feed {feed : Feed} (member : feed ∈ plan.feeds) : Awaits plan feed.parameter
  | table {v : LiteralTable} {parameter : String} (member : v ∈ plan.root.literalTables)
      (pending : v.rows = .pending parameter) : Awaits plan parameter

inductive Plan.Defect (plan : Plan) (ps : Parameters) : Parameters.Error → Prop
  | missing {name : String} (awaited : plan.Awaits name) (unset : ps.find? name = none) : Defect plan ps (.missing name)
  | wrongKind {name : String} {v : Value} (awaited : plan.Awaits name) (single : ps.find? name = some (.scalar v)) :
      Defect plan ps (.wrongKind name)
  | rowArity {v : LiteralTable} {name : String} {rows : List Row} {index : Nat} {r : Row}
      (member : v ∈ plan.root.literalTables) (pending : v.rows = .pending name)
      (held : ps.find? name = some (.rows rows)) (row : rows[index]? = some r)
      (misfit : r.length ≠ v.columns.length) : Defect plan ps (.rowArity name index v.columns.length r.length)

section

variable {plan : Plan} {ps : Parameters} {e : Parameters.Error}

theorem Plan.Awaits.defect {name : String} (awaited : plan.Awaits name) (failed : ps.rows name = .error e) :
    plan.Defect ps e := by
  unfold Parameters.rows at failed
  split at failed
  next => cases failed
  next v single =>
    obtain rfl := Except.error.inj failed
    exact .wrongKind awaited single
  next unset =>
    obtain rfl := Except.error.inj failed
    exact .missing awaited unset

theorem Plan.defect_of_emptyStatement? {feeds : List Feed} (among : feeds ⊆ plan.feeds)
    (failed : emptyStatement? ps feeds = .error e) : plan.Defect ps e := by
  induction feeds with
  | nil => cases failed
  | cons feed rest ih =>
    obtain ⟨here, later⟩ := List.cons_subset.1 among
    rcases bind_eq_error.1 failed with unread | ⟨rows, -, failed⟩
    · exact (Awaits.feed here).defect unread
    · split at failed
      next => cases failed
      next => exact ih later failed

theorem Plan.defect_of_resolve {v : LiteralTable} (member : v ∈ plan.root.literalTables)
    (failed : v.resolve ps = .error e) : plan.Defect ps e := by
  unfold LiteralTable.resolve at failed
  split at failed
  next parameter pending =>
    rcases bind_eq_error.1 failed with unread | ⟨rows, held, failed⟩
    · exact (Awaits.table member pending).defect unread
    · split at failed
      next index actual found =>
        obtain rfl := Except.error.inj failed
        obtain ⟨r, row, rfl, misfit⟩ := misfit?_eq_some found
        exact .rowArity member pending (Parameters.rows_eq_ok.1 held) row misfit
      next => cases failed
  next => cases failed

/-- Binding a plan fails only with what is wrong with the parameters. -/
theorem Plan.defect_of_bind (failed : plan.bind ps = .error e) : plan.Defect ps e := by
  rcases bind_eq_error.1 failed with empty | ⟨found, -, failed⟩
  · exact defect_of_emptyStatement? (List.Subset.refl _) empty
  · cases found with
    | some statement => cases failed
    | none =>
      obtain ⟨v, member, unresolved⟩ := Block.error_of_mapLiteralTables failed
      exact defect_of_resolve member unresolved

end

end Setwise.Relational
