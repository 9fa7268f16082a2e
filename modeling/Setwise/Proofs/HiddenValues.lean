import Setwise.Proofs.Blanking
import Setwise.Proofs.Placeholders

/-!
The text of a command does not show client values.

Blanking writes NULL over every captured value and over every cell of a collection. Binding looks at the numbers of rows
and cells only, and writing at names only (`Writer.Blanked`), so a mutation and the blanked one come to the same command
but for the values that it carries, or fail for the same reason (`Command.ofMutation_withoutValues`). Mutations that
differ in client values only therefore have one text (`commands_hide_values`).
-/

set_option autoImplicit false

namespace Setwise

open Client Relational

def blankRows (rows : List Row) : List Row :=
  rows.map fun row => row.map fun _ => .null

namespace Parameters

variable (ps : Parameters) (name : String)

theorem scalar_blank : (ps.blank blankRows).scalar name = (ps.scalar name).map fun _ => .null := by
  unfold scalar
  rw [find?_blank]
  cases ps.find? name with
  | none => rfl
  | some p => cases p <;> rfl

theorem rows_blank : (ps.blank blankRows).rows name = (ps.rows name).map blankRows := by
  unfold rows
  rw [find?_blank]
  cases ps.find? name with
  | none => rfl
  | some p => cases p <;> rfl

end Parameters

/-! ## Binding -/

namespace Relational

variable (ps : Parameters)

theorem emptyStatement?_blank (feeds : List Feed) :
    emptyStatement? (ps.blank blankRows) feeds = emptyStatement? ps feeds := by
  induction feeds with
  | nil => rfl
  | cons feed rest ih =>
    unfold emptyStatement?
    rw [ps.rows_blank]
    cases ps.rows feed.parameter with
    | error e => rfl
    | ok rows =>
      change (if (blankRows rows).isEmpty then _ else emptyStatement? (ps.blank blankRows) rest) = _
      rw [ih, blankRows, List.isEmpty_map]
      rfl

theorem misfit?_blank (width : Nat) (rows : List Row) : misfit? width (blankRows rows) = misfit? width rows := by
  have found (n : Nat) : (((blankRows rows).zipIdx n).find? fun p => p.1.length != width).map
      (fun p => (p.2, p.1.length)) =
        ((rows.zipIdx n).find? fun p => p.1.length != width).map fun p => (p.2, p.1.length) := by
    induction rows generalizing n with
    | nil => rfl
    | cons row rest ih =>
      simp only [blankRows, List.map_cons, List.zipIdx_cons, List.find?_cons, List.length_map]
      split
      next => simp
      next => exact ih (n + 1)
  exact found 0

theorem LiteralTable.resolve_blank : LiteralTable.resolve (ps.blank blankRows) = LiteralTable.resolve ps := by
  funext v
  unfold LiteralTable.resolve
  split
  next parameter pending =>
    rw [ps.rows_blank]
    cases ps.rows parameter with
    | error e => rfl
    | ok rows =>
      have count : (blankRows rows).length = rows.length := List.length_map _
      simp only [Except.map, bind, Except.bind, misfit?_blank, count]
  next => rfl

theorem Plan.bind_blank (plan : Plan) : plan.bind (ps.blank blankRows) = plan.bind ps := by
  unfold Plan.bind
  rw [emptyStatement?_blank, LiteralTable.resolve_blank]

end Relational

/-! ## Writing -/

namespace Sql.Writer

def blankUsed (used : List (String × Value)) : List (String × Value) :=
  used.map fun e => (e.1, .null)

/-- The second writer writes what the first one does, with blank values for the parameters. -/
def Blanked {α : Type} (x x' : Writer α) : Prop :=
  ∀ used, x' (blankUsed used) = (x used).map fun r => (r.1, blankUsed r.2)

namespace Blanked

variable {α β : Type}

theorem pure (a : α) : Blanked (Pure.pure a) (Pure.pure a) :=
  fun _ => rfl

theorem throw (e : Error) : Blanked (MonadExcept.throw e : Writer α) (MonadExcept.throw e) :=
  fun _ => rfl

theorem bind {x x' : Writer α} {f f' : α → Writer β} (first : Blanked x x') (next : ∀ a, Blanked (f a) (f' a)) :
    Blanked (x >>= f) (x' >>= f') := by
  intro used
  change x' (blankUsed used) >>= (fun (a, u) => f' a u) = (x used >>= fun (a, u) => f a u).map _
  rw [first used]
  cases x used with
  | error e => rfl
  | ok r => exact next r.1 r.2

end Blanked

variable (d : Dialect) (ps : Parameters)

theorem register_blank (name : String) (v : Value) : Blanked (register name v) (register name .null) := by
  intro used
  have taken : (blankUsed used).any (fun e => e.1 == name) = used.any fun e => e.1 == name := by
    simp [blankUsed, List.any_map, Function.comp_def]
  change Except.ok ((), if (blankUsed used).any (fun e => e.1 == name) then blankUsed used
    else blankUsed used ++ [(name, .null)]) =
      Except.ok ((), blankUsed (if used.any (fun e => e.1 == name) then used else used ++ [(name, v)]))
  rw [taken]
  split
  next => rfl
  next => simp [blankUsed]

theorem registerBound_blank (names : List String) :
    Blanked (registerBound ps names) (registerBound (ps.blank blankRows) names) := by
  induction names with
  | nil => exact .pure ()
  | cons name rest ih =>
    unfold registerBound
    rw [ps.scalar_blank]
    cases ps.scalar name with
    | error e => exact (Blanked.throw _).bind fun _ => ih
    | ok v => exact (register_blank name v).bind fun _ => ih

theorem value_blank (e : Scalar) : Blanked (value d ps e) (value d (ps.blank blankRows) e) :=
  (registerBound_blank ps _).bind fun _ => .pure _

theorem condition_blank (e : Scalar) : Blanked (condition d ps e) (condition d (ps.blank blankRows) e) :=
  (registerBound_blank ps _).bind fun _ => .pure _

theorem valueList_blank (es : List Scalar) : Blanked (valueList d ps es) (valueList d (ps.blank blankRows) es) := by
  induction es with
  | nil => exact .pure _
  | cons e rest ih => exact (value_blank d ps e).bind fun _ => ih.bind fun _ => .pure _

theorem conditionLine_blank (clause : String) (e : Option Scalar) :
    Blanked (conditionLine d ps clause e) (conditionLine d (ps.blank blankRows) clause e) := by
  cases e with
  | none => exact .pure _
  | some e => exact (condition_blank d ps e).bind fun _ => .pure _

theorem paging_blank (limit offset : Option Scalar) (ordered : Bool) :
    Blanked (paging d ps limit offset ordered) (paging d (ps.blank blankRows) limit offset ordered) := by
  cases d <;> cases limit <;> cases offset <;> simp only [paging]
  next => exact .pure _
  next => exact (value_blank _ ps _).bind fun _ => .pure _
  next => exact (value_blank _ ps _).bind fun _ => .pure _
  next => exact (value_blank _ ps _).bind fun _ => (value_blank _ ps _).bind fun _ => .pure _
  next => exact .pure _
  next => exact (value_blank _ ps _).bind fun _ => .pure _
  next => exact (value_blank _ ps _).bind fun _ => .pure _
  next => exact (value_blank _ ps _).bind fun _ => (value_blank _ ps _).bind fun _ => .pure _

theorem outputColumn_blank (p : Projection) :
    Blanked (outputColumn d ps p) (outputColumn d (ps.blank blankRows) p) := by
  refine (value_blank d ps p.value).bind fun f => ?_
  split
  next => exact .pure _
  next => exact .pure _

theorem outputColumns_blank (columns : List Projection) :
    Blanked (outputColumns d ps columns) (outputColumns d (ps.blank blankRows) columns) := by
  induction columns with
  | nil => exact .pure _
  | cons p rest ih => exact (outputColumn_blank d ps p).bind fun _ => ih.bind fun _ => .pure _

theorem projection_blank (columns : List Projection) :
    Blanked (projection d ps columns) (projection d (ps.blank blankRows) columns) := by
  unfold projection
  split
  next => exact .pure _
  next => exact (outputColumns_blank d ps columns).bind fun _ => .pure _

theorem orderItems_blank (items : List OrderItem) :
    Blanked (orderItems d ps items) (orderItems d (ps.blank blankRows) items) := by
  induction items with
  | nil => exact .pure _
  | cons item rest ih => exact (value_blank d ps item.key).bind fun _ => ih.bind fun _ => .pure _

/-! ### Literal tables -/

theorem boundCells_blank (parameter : String) (row column : Nat) (values : Row) :
    Blanked (boundCells parameter row column values)
      (boundCells parameter row column (values.map fun _ => .null)) := by
  induction values generalizing column with
  | nil => exact .pure _
  | cons v rest ih =>
    refine Blanked.bind ?_ fun _ => (ih (column + 1)).bind fun _ => .pure _
    exact (register_blank _ v).bind fun _ => .pure _

theorem boundRows_blank (parameter : String) (row : Nat) (rows : List Row) :
    Blanked (boundRows parameter row rows) (boundRows parameter row (blankRows rows)) := by
  induction rows generalizing row with
  | nil => exact .pure _
  | cons r rest ih => exact (boundCells_blank parameter row 0 r).bind fun _ => (ih (row + 1)).bind fun _ => .pure _

theorem immediateRows_blank (rows : List (List Scalar)) :
    Blanked (immediateRows d ps rows) (immediateRows d (ps.blank blankRows) rows) := by
  induction rows with
  | nil => exact .pure _
  | cons r rest ih => exact (valueList_blank d ps r).bind fun _ => ih.bind fun _ => .pure _

theorem literalCells_blank (v : LiteralTable) :
    Blanked (literalCells d ps v) (literalCells d (ps.blank blankRows) v) := by
  unfold literalCells
  split
  next rows _ => exact immediateRows_blank d ps rows
  next => exact .throw _
  next parameter count _ =>
    rw [ps.rows_blank]
    cases ps.rows parameter with
    | error e => exact .throw _
    | ok rows =>
      have taken : (blankRows rows).take count = blankRows (rows.take count) := List.map_take.symm
      change Blanked _ (boundRows parameter 0 ((blankRows rows).take count))
      rw [taken]
      exact boundRows_blank parameter 0 _

theorem literalTable_blank (v : LiteralTable) :
    Blanked (literalTable d ps v) (literalTable d (ps.blank blankRows) v) := by
  refine (literalCells_blank d ps v).bind fun cells => ?_
  split
  next => exact .pure _
  next => exact .pure _

/-! ### Selects -/

theorem joinCondition_blank (kind : JoinKind) (on : Option Scalar) :
    Blanked (joinCondition d ps kind on) (joinCondition d (ps.blank blankRows) kind on) := by
  unfold joinCondition
  split
  next => exact .pure _
  next => exact .pure _
  next e _ => exact (condition_blank d ps e).bind fun _ => .pure _

mutual

theorem select_blank (s : Select) (nested : Bool) :
    Blanked (select d ps s nested) (select d (ps.blank blankRows) s nested) := by
  obtain ⟨source', joined, predicate, groupBy, having, columns, union, orderBy, limit, offset⟩ := s
  unfold select
  refine (paging_blank d ps _ _ _).bind fun _ => (projection_blank d ps columns).bind fun _ => ?_
  refine (source_blank source').bind fun _ => (joins_blank joined).bind fun _ => ?_
  refine (conditionLine_blank d ps _ predicate).bind fun _ => (valueList_blank d ps groupBy).bind fun _ => ?_
  refine (conditionLine_blank d ps _ having).bind fun _ => (unionLines_blank union).bind fun _ => ?_
  simp only [pure_bind]
  split
  next => exact (orderItems_blank d ps orderBy).bind fun _ => .pure _
  next => exact .pure _

theorem source_blank (s : Source) : Blanked (source d ps s) (source d (ps.blank blankRows) s) := by
  cases s with
  | table ref => exact .pure _
  | literal v => exact literalTable_blank d ps v
  | subquery inner label => exact (select_blank inner true).bind fun _ => .pure _

theorem joins_blank (js : List (Join Select)) : Blanked (joins d ps js) (joins d (ps.blank blankRows) js) := by
  cases js with
  | nil => exact .pure _
  | cons j rest => exact (join_blank j).bind fun _ => (joins_blank rest).bind fun _ => .pure _

theorem join_blank (j : Join Select) : Blanked (join d ps j) (join d (ps.blank blankRows) j) := by
  obtain ⟨kind, source', on⟩ := j
  exact (source_blank source').bind fun _ => (joinCondition_blank d ps kind on).bind fun _ => .pure _

theorem unionLines_blank (s : Option Select) :
    Blanked (unionLines d ps s) (unionLines d (ps.blank blankRows) s) := by
  cases s with
  | none => exact .pure _
  | some other => exact (select_blank other true).bind fun _ => .pure _

end

/-! ### Statements -/

theorem assignments_blank (label : Option String) (set : List Projection) :
    Blanked (assignments d ps label set) (assignments d (ps.blank blankRows) label set) := by
  induction set with
  | nil => exact .pure _
  | cons p rest ih => exact (value_blank d ps p.value).bind fun _ => ih.bind fun _ => .pure _

theorem insertInto_blank (table : String) (schema : Option String) (rows : Select) :
    Blanked (insertInto d ps table schema rows) (insertInto d (ps.blank blankRows) table schema rows) :=
  (select_blank d ps rows false).bind fun _ => .pure _

theorem updateSources_blank (js : List (Join Select)) (condition : Option Scalar) :
    Blanked (updateSources ps js condition) (updateSources (ps.blank blankRows) js condition) := by
  induction js generalizing condition with
  | nil => exact .pure _
  | cons j rest ih =>
    unfold updateSources
    by_cases outer : j.kind = .leftOuter
    · simp only [outer, if_true]
      exact (Blanked.throw _).bind fun _ => (source_blank _ ps j.source).bind fun _ => (ih _).bind fun _ => .pure _
    · simp only [outer, if_false]
      exact (source_blank _ ps j.source).bind fun _ => (ih _).bind fun _ => .pure _

theorem sqliteStatement_blank (s : Statement) :
    Blanked (sqliteStatement ps s) (sqliteStatement (ps.blank blankRows) s) := by
  cases s with
  | delete table predicate joined =>
    cases joined with
    | nil => exact (conditionLine_blank _ ps _ predicate).bind fun _ => .pure _
    | cons j rest =>
      exact (joins_blank _ ps (j :: rest)).bind fun _ => (conditionLine_blank _ ps _ predicate).bind fun _ => .pure _
  | update table set predicate joined =>
    refine (assignments_blank _ ps _ set).bind fun _ => (updateSources_blank ps joined none).bind fun _ => ?_
    exact (conditionLine_blank _ ps _ _).bind fun _ => .pure _
  | insertInto table schema rows => exact insertInto_blank _ ps table schema rows
  | upsert table rows inserted updated constraint conflictColumns =>
    cases rows <;> cases updated <;> simp only [sqliteStatement, pure_bind]
    next => exact (valueList_blank _ ps _).bind fun _ => .pure _
    next => exact (valueList_blank _ ps _).bind fun _ => (assignments_blank _ ps _ _).bind fun _ => .pure _
    next => exact (select_blank _ ps _ _).bind fun _ => .pure _
    next => exact (select_blank _ ps _ _).bind fun _ => (assignments_blank _ ps _ _).bind fun _ => .pure _
  | merge => exact .throw _
  | truncate table => exact .pure _
  | noop => exact .pure _

theorem matchedLine_blank (label : String) (set : Option (List Projection)) :
    Blanked (matchedLine ps label set) (matchedLine (ps.blank blankRows) label set) := by
  cases set with
  | none => exact .pure _
  | some set => exact (assignments_blank _ ps _ set).bind fun _ => .pure _

theorem insertLine_blank (inserted : Option (List Projection)) :
    Blanked (insertLine ps inserted) (insertLine (ps.blank blankRows) inserted) := by
  cases inserted with
  | none => exact .pure _
  | some list => exact (valueList_blank _ ps _).bind fun _ => .pure _

theorem sqlServerStatement_blank (s : Statement) :
    Blanked (sqlServerStatement ps s) (sqlServerStatement (ps.blank blankRows) s) := by
  cases s with
  | delete table predicate joined =>
    exact (joins_blank _ ps joined).bind fun _ => (conditionLine_blank _ ps _ predicate).bind fun _ => .pure _
  | update table set predicate joined =>
    refine (assignments_blank _ ps _ set).bind fun _ => (joins_blank _ ps joined).bind fun _ => ?_
    exact (conditionLine_blank _ ps _ predicate).bind fun _ => .pure _
  | insertInto table schema rows => exact insertInto_blank _ ps table schema rows
  | upsert table rows inserted updated constraint conflictColumns =>
    cases rows <;> simp only [sqlServerStatement, pure_bind]
    next => exact (projection_blank _ ps _).bind fun _ => (matchedLine_blank ps _ _).bind fun _ => .pure _
    next => exact (select_blank _ ps _ _).bind fun _ => (matchedLine_blank ps _ _).bind fun _ => .pure _
  | merge target from' on matched inserted deleteUnmatched =>
    refine (source_blank _ ps from').bind fun _ => (condition_blank _ ps on).bind fun _ => ?_
    exact (matchedLine_blank ps _ matched).bind fun _ => (insertLine_blank ps inserted).bind fun _ => .pure _
  | truncate table => exact .pure _
  | noop => exact .pure _

theorem block_blank (b : Block) : Blanked (block d ps b) (block d (ps.blank blankRows) b) := by
  cases b with
  | select s => exact select_blank d ps s false
  | affected s =>
    cases d with
    | sqlite => exact sqliteStatement_blank ps s
    | sqlServer => exact sqlServerStatement_blank ps s

end Sql.Writer

/-! ## Commands -/

namespace Client

def Record.blank (r : Record) : Record :=
  { r with fields := r.fields.map fun f => (f.1, .null) }

def LocalRows.blank : LocalRows → LocalRows
  | .records fields elements => .records fields (elements.map Record.blank)
  | .parameter name fields => .parameter name fields

/-- A mutation without the values that come from the client: NULL stands for every captured value and for every value in
its collections. -/
def Mutation.withoutValues (m : Mutation) : Mutation :=
  m.rewrite Expr.blank LocalRows.blank

end Client

theorem Lifting.recordValues_blank (fields : List String) (index : Nat) (r : Record) :
    recordValues fields index r.blank = (recordValues fields index r).map fun row => row.map fun _ => .null := by
  have names : r.blank.fields.map Prod.fst = r.fields.map Prod.fst := by simp [Record.blank, Function.comp_def]
  have values : r.blank.fields.map Prod.snd = (r.fields.map Prod.snd).map fun _ => .null := by
    simp [Record.blank, Function.comp_def]
  unfold recordValues
  rw [names, values, show r.blank.type = r.type from rfl]
  split
  next => rfl
  next =>
    dsimp only
    split <;> rfl

theorem Lifting.recordRows_blank (fields : List String) (index : Nat) (elements : List Record) :
    recordRows fields index (elements.map Record.blank) = (recordRows fields index elements).map blankRows := by
  induction elements generalizing index with
  | nil => rfl
  | cons r rest ih =>
    simp only [List.map_cons, recordRows, recordValues_blank, ih]
    cases recordValues fields index r with
    | error e => rfl
    | ok row =>
      cases recordRows fields (index + 1) rest with
      | error e => rfl
      | ok rows => rfl

theorem Client.Mutation.lift_withoutValues (m : Mutation) :
    m.withoutValues.lift = m.lift.map fun r => (r.1, r.2.blank blankRows) := by
  refine m.lift_blank fun c _ => ?_
  cases c with
  | parameter name fields => exact Lifting.parameter_blank name fields
  | records fields elements => exact Lifting.records_blank (Lifting.recordRows_blank fields 0 elements)

namespace Sql

def Command.blank (c : Command) : Command :=
  { c with parameters := Writer.blankUsed c.parameters }

theorem Command.ofBlock_blank (d : Dialect) (b : Block) (ps : Parameters) (maxParameters : Option Nat) :
    Command.ofBlock d b (ps.blank blankRows) maxParameters =
      (Command.ofBlock d b ps maxParameters).map Command.blank := by
  have written := Writer.block_blank d ps b []
  unfold Command.ofBlock
  change Writer.block d (ps.blank blankRows) b [] = _ at written
  rw [written]
  cases Writer.block d ps b [] with
  | error e => rfl
  | ok r =>
    obtain ⟨f, used⟩ := r
    have counted : (Writer.blankUsed used).length = used.length := List.length_map _
    by_cases exceeded : maxParameters.getD d.maxParameters < used.length
    · simp only [Except.map, bind, Except.bind, counted, exceeded, if_true]
      rfl
    · simp only [Except.map, bind, Except.bind, counted, exceeded, if_false]
      rfl

end Sql

/-! ## Mutations that differ in client values -/

theorem Planner.plan_withoutValues (c : Planner) (m : Mutation) :
    (c.plan m.withoutValues).1 = (c.plan m).1.map fun r => (r.1, r.2.blank blankRows) := by
  unfold Planner.plan
  rw [m.lift_withoutValues]
  cases m.lift with
  | error e => rfl
  | ok r =>
    obtain ⟨form, ps⟩ := r
    simp only [Except.map]
    cases c.find? form with
    | some plan => rfl
    | none => cases planOf c.model c.capabilities form <;> rfl

theorem Planner.prepare_withoutValues (c : Planner) (m : Mutation) :
    (c.prepare m.withoutValues).1 = (c.prepare m).1.map fun r => (r.1, r.2.blank blankRows) := by
  have planned := c.plan_withoutValues m
  unfold Planner.prepare
  simp only [planned]
  cases (c.plan m).1 with
  | error e => rfl
  | ok r =>
    simp only [Except.map, Except.mapError, bind, Except.bind, Plan.bind_blank]
    cases r.1.bind r.2 <;> rfl

namespace Sql

/-- Without its values, a mutation comes to the same command without the values that it carries, or fails for the same
reason. -/
theorem Command.ofMutation_withoutValues (model : Model) (d : Dialect) (m : Mutation) :
    Command.ofMutation model d m.withoutValues = (Command.ofMutation model d m).map Command.blank := by
  unfold Command.ofMutation
  simp only [Planner.prepare_withoutValues]
  cases (Planner.prepare { model, capabilities := d.capabilities, cachePlans := false } m).1 with
  | error e => rfl
  | ok r =>
    simp only [Except.map, bind, Except.bind, Command.ofBlock_blank]
    cases Command.ofBlock d r.1 r.2 none <;> rfl

/-- Mutations that differ only in captured values and in the cells of their collections fail alike, or have commands of
one text with the same parameters but for their values. -/
theorem commands_hide_values (model : Model) (d : Dialect) (m m' : Mutation)
    (same : m.withoutValues = m'.withoutValues) :
    (∃ e, Command.ofMutation model d m = .error e ∧ Command.ofMutation model d m' = .error e) ∨
      ∃ c c', Command.ofMutation model d m = .ok c ∧ Command.ofMutation model d m' = .ok c' ∧ c.sql = c'.sql ∧
        c.parameters.map Prod.fst = c'.parameters.map Prod.fst := by
  -- a command without its values is the command of the mutation without its values
  have blanked := Command.ofMutation_withoutValues model d m
  rw [same, Command.ofMutation_withoutValues] at blanked
  -- blanking keeps the names
  have names (used : List (String × Value)) : (Writer.blankUsed used).map Prod.fst = used.map Prod.fst := by
    simp [Writer.blankUsed, Function.comp_def]
  cases first : Command.ofMutation model d m with
  | error e =>
    cases second : Command.ofMutation model d m' with
    | error e' =>
      rw [first, second] at blanked
      exact .inl ⟨e, rfl, blanked⟩
    | ok c' =>
      rw [first, second] at blanked
      cases blanked
  | ok c =>
    cases second : Command.ofMutation model d m' with
    | error e' =>
      rw [first, second] at blanked
      cases blanked
    | ok c' =>
      rw [first, second] at blanked
      obtain ⟨text, parameters⟩ := Command.mk.inj (Except.ok.inj blanked)
      refine .inr ⟨c, c', rfl, rfl, text.symm, ?_⟩
      rw [← names c.parameters, ← names c'.parameters, parameters]

/-- Insert an item of the client with a captured amount. -/
def delivery (id amount : Value) : Mutation :=
  .insertInto
    (.map (.rows (.records ["Id"] [⟨none, [("Id", id)]⟩]))
      ⟨["r"], .new (some "Item") []
        [.assign "Id" (.member (.param "r") "Id"), .assign "Amount" (.captured "amount" amount)]⟩)
    "Item"

/-- The text shows neither a number nor an attempt to break out of the command. -/
theorem delivery_hidden : (delivery (.int 1) (.int 7)).withoutValues =
      (delivery .null (.text "0); DELETE FROM Items --")).withoutValues ∧
    ∃ c c', Command.ofMutation goods .sqlite (delivery (.int 1) (.int 7)) = .ok c ∧
      Command.ofMutation goods .sqlite (delivery .null (.text "0); DELETE FROM Items --")) = .ok c' ∧
      c.sql = c'.sql ∧ c.parameters.map Prod.fst = ["__amount_1", "__rows_0_0_0"] ∧
      c'.parameters.map Prod.fst = ["__amount_1", "__rows_0_0_0"] := by
  refine ⟨rfl, ?_⟩
  obtain ⟨e, failed, -⟩ | ⟨c, c', first, second, text, names⟩ :=
    commands_hide_values goods .sqlite (delivery (.int 1) (.int 7)) (delivery .null (.text "0); DELETE FROM Items --"))
      rfl
  · cases failed
  · have listed : c.parameters.map Prod.fst = ["__amount_1", "__rows_0_0_0"] := by
      obtain rfl := Except.ok.inj first
      rfl
    exact ⟨c, c', first, second, text, listed, names ▸ listed⟩

end Sql

end Setwise
