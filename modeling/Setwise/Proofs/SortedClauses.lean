import Setwise.Proofs.PhraseSorts
import Setwise.Proofs.ReadPlaceholders

/-!
The clauses of a command for SQL Server, and the sorts of what stands in them.

`Grammatical` is the grammar of the commands: conditions stand behind WHERE, HAVING and ON, and values everywhere else.
The placeholders of its phrases are parameters of the command. The text of every command belongs to it, provided that an
upsert has columns to find conflicts in (`commands_keep_sorts`); without any, nothing stands behind ON
(`unmatchedUpsert_has_no_condition`).
-/

set_option autoImplicit false

namespace Setwise

open Relational

/-- The upsert of a block, if it is one, has columns to find conflicts in. -/
def Relational.Block.FindsConflicts : Block → Prop
  | .affected (.upsert _ _ _ _ _ conflictColumns) => conflictColumns ≠ []
  | _ => True

namespace Sql

/-! ## Grammar -/

def Written (sort : PhraseSort) (names : List String) (s : String) : Prop :=
  ∃ p : Phrase, p.sort? = some sort ∧ p.placeholders ⊆ names ∧ s = p.text .sqlServer

def Listed (separator : String) (P : String → Prop) (s : String) : Prop :=
  ∃ items : List String, (∀ item ∈ items, P item) ∧ s = separator.intercalate items

def Clause (keyword : String) (P : String → Prop) (lines : List String) : Prop :=
  lines = [] ∨ ∃ s, P s ∧ lines = [keyword ++ s]

def Quoted (s : String) : Prop :=
  ∃ name, s = Dialect.sqlServer.quote name

inductive Dotted : String → Prop
  | plain {name : String} (own : Quoted name) : Dotted name
  | qualified {outer name : String} (own : Quoted name) (within : Quoted outer) : Dotted (outer ++ "." ++ name)

def LabelledTable (s : String) : Prop :=
  ∃ table label, Dotted table ∧ Quoted label ∧ s = table ++ " AS " ++ label

section

variable (names : List String)

inductive TopText : String → Prop
  | none : TopText ""
  | top {v : String} (count : Written .value names v) : TopText ("TOP(" ++ v ++ ") ")

inductive ColumnText : String → Prop
  | plain {v : String} (value : Written .value names v) : ColumnText v
  | labelled {v label : String} (value : Written .value names v) (quoted : Quoted label) :
      ColumnText (v ++ " AS " ++ label)

inductive ColumnsText : String → Prop
  | all : ColumnsText "*"
  | listed {s : String} (columns : Listed ", " (ColumnText names) s) : ColumnsText s

inductive OrderText : String → Prop
  | ascending {v : String} (key : Written .value names v) : OrderText v
  | descending {v : String} (key : Written .value names v) : OrderText (v ++ " DESC")
  | constant {v : String} (key : Written .value names v) : OrderText ("(SELECT " ++ v ++ ")")

inductive PagingLines : List String → Prop
  | none : PagingLines []
  | offset {v : String} (skipped : Written .value names v) : PagingLines ["OFFSET " ++ v ++ " ROWS"]
  | fetch {v w : String} (skipped : Written .value names v) (count : Written .value names w) :
      PagingLines ["OFFSET " ++ v ++ " ROWS", "FETCH NEXT " ++ w ++ " ROWS ONLY"]

def RowText (s : String) : Prop :=
  ∃ cells, Listed ", " (Written .value names) cells ∧ s = "(" ++ cells ++ ")"

inductive AssignmentText : String → Prop
  | assign {column v : String} (target : Dotted column) (value : Written .value names v) :
      AssignmentText (column ++ " = " ++ v)

inductive InsertLines : List String → Prop
  | none : InsertLines []
  | insert {columns row : String} (targets : Listed ", " Quoted columns) (values : RowText names row) :
      InsertLines ["WHEN NOT MATCHED THEN INSERT " ++ ("(" ++ columns ++ ")") ++ " VALUES " ++ row]
  | insertByTarget {columns row : String} (targets : Listed ", " Quoted columns) (values : RowText names row) :
      InsertLines ["WHEN NOT MATCHED BY TARGET THEN INSERT " ++ ("(" ++ columns ++ ")") ++ " VALUES " ++ row]

inductive Category where
  | source | join | select | statement

/-- The text is a part of a command, where conditions and values stand in their places. -/
inductive Grammatical : Category → String → Prop
  | table {s : String} (labelled : LabelledTable s) : Grammatical .source s
  | subquery {s label : String} (select : Grammatical .select s) (quoted : Quoted label) :
      Grammatical .source ("(\n" ++ s ++ "\n)" ++ " AS " ++ label)
  | row {columns label : String} (listed : ColumnsText names columns) (quoted : Quoted label) :
      Grammatical .source ("(" ++ ("SELECT " ++ columns) ++ ")" ++ " AS " ++ label)
  | filteredRow {columns c label : String} (listed : ColumnsText names columns) (condition : Written .condition names c)
      (quoted : Quoted label) :
      Grammatical .source ("(" ++ ("SELECT " ++ columns ++ " WHERE " ++ c) ++ ")" ++ " AS " ++ label)
  | rows {rows label columns : String} (listed : Listed ", " (RowText names) rows) (quoted : Quoted label)
      (named : Listed ", " Quoted columns) :
      Grammatical .source ("(" ++ ("VALUES " ++ rows) ++ ")" ++ " AS " ++ label ++ " " ++ ("(" ++ columns ++ ")"))
  | innerJoin {source c : String} (joined : Grammatical .source source) (on : Written .condition names c) :
      Grammatical .join ("INNER JOIN " ++ source ++ " ON " ++ c)
  | leftJoin {source c : String} (joined : Grammatical .source source) (on : Written .condition names c) :
      Grammatical .join ("LEFT JOIN " ++ source ++ " ON " ++ c)
  | crossJoin {source : String} (joined : Grammatical .source source) :
      Grammatical .join ("CROSS JOIN " ++ source)
  | select {top columns source : String} {joins filter group having order paging : List String}
      {other : Option String} (count : TopText names top) (listed : ColumnsText names columns)
      (read : Grammatical .source source) (joined : ∀ join ∈ joins, Grammatical .join join)
      (filtered : Clause "WHERE " (Written .condition names) filter)
      (grouped : Clause "GROUP BY " (Listed ", " (Written .value names)) group)
      (chosen : Clause "HAVING " (Written .condition names) having)
      (united : ∀ s ∈ other, Grammatical .select s)
      (ordered : Clause "ORDER BY " (Listed ", " (OrderText names)) order) (paged : PagingLines names paging) :
      Grammatical .select ("\n".intercalate (["SELECT " ++ top ++ columns, "FROM " ++ source] ++ joins ++ filter
        ++ group ++ having ++ other.elim [] (fun s => ["UNION", s]) ++ order ++ paging))
  | query {s : String} (select : Grammatical .select s) : Grammatical .statement s
  | delete {label target : String} {joins filter : List String} (quoted : Quoted label) (written : LabelledTable target)
      (joined : ∀ join ∈ joins, Grammatical .join join)
      (filtered : Clause "WHERE " (Written .condition names) filter) :
      Grammatical .statement ("\n".intercalate (["DELETE " ++ label, "FROM " ++ target] ++ joins ++ filter))
  | update {label set target : String} {joins filter : List String} (quoted : Quoted label)
      (assigned : Listed ", " (AssignmentText names) set) (written : LabelledTable target)
      (joined : ∀ join ∈ joins, Grammatical .join join)
      (filtered : Clause "WHERE " (Written .condition names) filter) :
      Grammatical .statement
        ("\n".intercalate (["UPDATE " ++ label, "SET " ++ set, "FROM " ++ target] ++ joins ++ filter))
  | insertInto {table columns s : String} (dotted : Dotted table) (named : Listed ", " Quoted columns)
      (select : Grammatical .select s) :
      Grammatical .statement ("\n".intercalate ["INSERT INTO " ++ table ++ " " ++ ("(" ++ columns ++ ")"), s])
  | merge {target source c : String} {matched inserted deleted : List String} (written : LabelledTable target)
      (read : Grammatical .source source) (on : Written .condition names c)
      (updated : Clause "WHEN MATCHED THEN UPDATE SET " (Listed ", " (AssignmentText names)) matched)
      (added : InsertLines names inserted)
      (removed : ∀ line ∈ deleted, line = "WHEN NOT MATCHED BY SOURCE THEN DELETE") :
      Grammatical .statement ("\n".intercalate (["MERGE INTO " ++ target, "USING " ++ source, "ON " ++ c] ++ matched
        ++ inserted ++ deleted) ++ ";")
  | truncate {table : String} (dotted : Dotted table) : Grammatical .statement ("DELETE FROM " ++ table)
  | constant {v : String} (value : Written .value names v) : Grammatical .statement ("SELECT " ++ v)

end

/-! ## Texts of fragments -/

namespace Fragment

variable (d : Dialect)

@[simp] theorem text_identifier (name : String) : (identifier name).text d = d.quote name := by
  simp [text, identifier, Piece.text, String.join]

@[simp] theorem text_value (p : Phrase) : Fragment.text d [.value p] = p.text d := by
  simp [text, Piece.text, String.join]

@[simp] theorem text_condition (p : Phrase) : Fragment.text d [.condition p] = p.text d := by
  simp [text, Piece.text, String.join]

@[simp] theorem text_separated (separator : String) (fs : List Fragment) :
    (separated separator fs).text d = separator.intercalate (fs.map (text d)) := by
  induction fs with
  | nil => rfl
  | cons f rest ih =>
    cases rest with
    | nil => simp [separated]
    | cons g rest =>
      have joined : separated separator (f :: g :: rest) = f ++ word separator ++ separated separator (g :: rest) := by
        simp [separated, word]
      rw [joined, text_append, text_append, text_word, ih]
      simp

@[simp] theorem text_list (fs : List Fragment) : (list fs).text d = ", ".intercalate (fs.map (text d)) :=
  text_separated d ", " fs

@[simp] theorem text_lines (fs : List Fragment) : (lines fs).text d = "\n".intercalate (fs.map (text d)) :=
  text_separated d "\n" fs

@[simp] theorem text_paren (f : Fragment) : (paren f).text d = "(" ++ f.text d ++ ")" := by
  simp only [paren, text_append, text_word]

@[simp] theorem text_labelled (f : Fragment) (label : String) :
    (labelled f label).text d = f.text d ++ " AS " ++ d.quote label := by
  simp only [labelled, text_append, text_word, text_identifier]

end Fragment

theorem quoted_identifier (name : String) : Quoted ((Fragment.identifier name).text .sqlServer) :=
  ⟨name, Fragment.text_identifier _ name⟩

theorem dotted_table (t : StoredTable) : Dotted ((Fragment.table t).text .sqlServer) := by
  unfold Fragment.table
  split
  next schema _ =>
    rw [Fragment.text_append, Fragment.text_append, Fragment.text_word]
    exact .qualified (quoted_identifier _) (quoted_identifier _)
  next => exact .plain (quoted_identifier _)

theorem labelledTable (t : StoredTable) : LabelledTable (((Fragment.table t).labelled t.label).text .sqlServer) :=
  ⟨_, _, dotted_table t, ⟨_, rfl⟩, Fragment.text_labelled _ _ _⟩

section

variable {P : String → Prop} {fs : List Fragment}

theorem listed_separated {separator : String} (each : ∀ f ∈ fs, P (f.text .sqlServer)) :
    Listed separator P ((Fragment.separated separator fs).text .sqlServer) :=
  ⟨_, List.forall_mem_map.2 each, Fragment.text_separated _ _ _⟩

theorem listed_list (each : ∀ f ∈ fs, P (f.text .sqlServer)) : Listed ", " P ((Fragment.list fs).text .sqlServer) :=
  listed_separated each

theorem listed_identifiers (names : List String) :
    Listed ", " Quoted ((Fragment.list (names.map .identifier)).text .sqlServer) :=
  listed_list (List.forall_mem_map.2 fun name _ => quoted_identifier name)

end

namespace Writer

variable {ps : Parameters} {names : List String}

/-! ## Values, conditions and lists of them -/

theorem sorts_value (e : Scalar) :
    Within ps names (value .sqlServer ps e) fun f => Written .value names (f.text .sqlServer) :=
  within_bind (within_registerBound _) fun _ => within_pure fun known =>
    ⟨_, sort?_value e, known, Fragment.text_value _ _⟩

theorem sorts_condition (e : Scalar) :
    Within ps names (condition .sqlServer ps e) fun f => Written .condition names (f.text .sqlServer) :=
  within_bind (within_registerBound _) fun _ => within_pure fun known =>
    ⟨_, sort?_condition e, known, Fragment.text_condition _ _⟩

theorem sorts_valueList (es : List Scalar) :
    Within ps names (valueList .sqlServer ps es) fun fs => ∀ f ∈ fs, Written .value names (f.text .sqlServer) := by
  induction es with
  | nil => exact within_pure (by simp)
  | cons e rest ih =>
    exact within_bind (sorts_value e) fun f => within_bind ih fun fs => within_pure fun later first =>
      List.forall_mem_cons.2 ⟨first, later⟩

theorem sorts_conditionLine (keyword : String) (e : Option Scalar) :
    Within ps names (conditionLine .sqlServer ps keyword e) fun fs =>
      Clause keyword (Written .condition names) (fs.map (Fragment.text .sqlServer)) := by
  cases e with
  | none => exact within_pure (.inl rfl)
  | some e =>
    exact within_bind (sorts_condition e) fun f => within_pure fun condition => .inr ⟨_, condition, by simp⟩

/-! ## Selects -/

/-- The words of a paging clause hold values, and bring an ordering only where there is none. -/
structure PagingSorts (names : List String) (ordered : Bool) (words : Fragment × List Fragment) : Prop where
  top : TopText names (words.1.text .sqlServer)
  tail : ∃ order rows : List Fragment, words.2 = order ++ rows ∧ (ordered = true → order = []) ∧
    Clause "ORDER BY " (Listed ", " (OrderText names)) (order.map (Fragment.text .sqlServer)) ∧
    PagingLines names (rows.map (Fragment.text .sqlServer))

theorem written_one (names : List String) : Written .value names "1" :=
  ⟨.literal (.int 1), rfl, List.nil_subset _, rfl⟩

theorem clause_constantOrder (names : List String) (ordered : Bool) :
    Clause "ORDER BY " (Listed ", " (OrderText names))
      ((if ordered then [] else [Fragment.word "ORDER BY (SELECT 1)"]).map (Fragment.text .sqlServer)) := by
  cases ordered with
  | true => exact .inl rfl
  | false =>
    have constant : Listed ", " (OrderText names) "(SELECT 1)" :=
      ⟨["(SELECT 1)"], List.forall_mem_singleton.2 (.constant (written_one names)), rfl⟩
    exact .inr ⟨_, constant, by simp⟩

theorem sorts_paging (limit offset : Option Scalar) (ordered : Bool) :
    Within ps names (paging .sqlServer ps limit offset ordered) (PagingSorts names ordered) := by
  unfold paging
  cases limit with
  | none =>
    cases offset with
    | none => exact within_pure ⟨.none, [], [], rfl, fun _ => rfl, .inl rfl, .none⟩
    | some o =>
      refine within_bind (sorts_value o) fun f => within_pure fun skipped =>
        ⟨.none, _, _, rfl, fun h => if_pos h, ?_, ?_⟩
      · exact clause_constantOrder names ordered
      · simpa [String.append_assoc] using PagingLines.offset skipped
  | some l =>
    cases offset with
    | none =>
      refine within_bind (sorts_value l) fun f => within_pure fun count =>
        ⟨?_, [], [], rfl, fun _ => rfl, .inl rfl, .none⟩
      simpa [String.append_assoc] using TopText.top count
    | some o =>
      refine within_bind (sorts_value o) fun f => within_bind (sorts_value l) fun g => within_pure fun count skipped =>
        ⟨.none, _, _, rfl, fun h => if_pos h, ?_, ?_⟩
      · exact clause_constantOrder names ordered
      · simpa [String.append_assoc] using PagingLines.fetch skipped count

theorem sorts_outputColumn (p : Projection) :
    Within ps names (outputColumn .sqlServer ps p) fun f => ColumnText names (f.text .sqlServer) := by
  refine within_bind (sorts_value p.value) fun f => ?_
  have labelled (value : Written .value names (f.text .sqlServer)) :
      ColumnText names ((f.labelled p.name).text .sqlServer) := by
    rw [Fragment.text_labelled]
    exact .labelled value ⟨_, rfl⟩
  split
  next =>
    refine within_pure fun value => ?_
    split
    · exact .plain value
    · exact labelled value
  next => exact within_pure labelled

theorem sorts_outputColumns (columns : List Projection) :
    Within ps names (outputColumns .sqlServer ps columns) fun fs => ∀ f ∈ fs, ColumnText names (f.text .sqlServer) := by
  induction columns with
  | nil => exact within_pure (by simp)
  | cons p rest ih =>
    exact within_bind (sorts_outputColumn p) fun f => within_bind ih fun fs => within_pure fun later first =>
      List.forall_mem_cons.2 ⟨first, later⟩

theorem sorts_projection (columns : List Projection) :
    Within ps names (projection .sqlServer ps columns) fun f => ColumnsText names (f.text .sqlServer) := by
  unfold projection
  split
  next => exact within_pure (by simpa using ColumnsText.all)
  next =>
    exact within_bind (sorts_outputColumns columns) fun fs => within_pure fun each => .listed (listed_list each)

theorem sorts_orderItems (items : List OrderItem) :
    Within ps names (orderItems .sqlServer ps items) fun fs => ∀ f ∈ fs, OrderText names (f.text .sqlServer) := by
  induction items with
  | nil => exact within_pure (by simp)
  | cons item rest ih =>
    refine within_bind (sorts_value item.key) fun f => within_bind ih fun fs => within_pure fun later first =>
      List.forall_mem_cons.2 ⟨?_, later⟩
    split
    · simpa using OrderText.descending first
    · exact .ascending first

/-! ## Literal tables -/

section

variable {α β : Type} {P Q : α → Prop} {R : β → Prop}

def Returns (x : Writer α) (P : α → Prop) : Prop :=
  ∀ used a used', x used = .ok (a, used') → P a

theorem returns_pure {a : α} (h : P a) : Returns (pure a) P := by
  rintro used b used' ⟨⟩
  exact h

theorem returns_bind {x : Writer α} {f : α → Writer β} (first : Returns x P) (second : ∀ a, P a → Returns (f a) R) :
    Returns (x >>= f) R := by
  intro used b used' run
  obtain ⟨⟨a, between⟩, here, there⟩ := bind_eq_ok.1 run
  exact second a (first used a between here) between b used' there

theorem Within.and {x : Writer α} (h : Within ps names x Q) (always : Returns x P) :
    Within ps names x fun a => Q a ∧ P a :=
  fun used a used' run =>
    let ⟨grows, sound, result⟩ := h used a used' run
    ⟨grows, sound, fun below => ⟨result below, always used a used' run⟩⟩

end

theorem returns_boundCells (parameter : String) (i j : Nat) (row : Row) :
    Returns (boundCells parameter i j row) fun fs => ∀ f ∈ fs, ∃ name, f = [.value (.placeholder name)] := by
  induction row generalizing j with
  | nil => exact returns_pure (by simp)
  | cons v rest ih =>
    have cell : Returns (cell (LiteralTable.cellName parameter i j) v) fun f =>
        ∃ name, f = [.value (.placeholder name)] :=
      returns_bind (P := fun _ => True) (fun _ _ _ _ => trivial) fun _ _ => returns_pure ⟨_, rfl⟩
    exact returns_bind cell fun f first => returns_bind (ih (j + 1)) fun fs later =>
      returns_pure (List.forall_mem_cons.2 ⟨first, later⟩)

theorem returns_boundRows (parameter : String) (i : Nat) (rows : List Row) :
    Returns (boundRows parameter i rows) fun cells =>
      ∀ fs ∈ cells, ∀ f ∈ fs, ∃ name, f = [.value (.placeholder name)] := by
  induction rows generalizing i with
  | nil => exact returns_pure (by simp)
  | cons row rest ih =>
    exact returns_bind (returns_boundCells parameter i 0 row) fun fs first =>
      returns_bind (ih (i + 1)) fun rows later => returns_pure (List.forall_mem_cons.2 ⟨first, later⟩)

theorem sorts_immediateRows (rows : List (List Scalar)) :
    Within ps names (immediateRows .sqlServer ps rows) fun cells =>
      ∀ fs ∈ cells, ∀ f ∈ fs, Written .value names (f.text .sqlServer) := by
  induction rows with
  | nil => exact within_pure (by simp)
  | cons row rest ih =>
    exact within_bind (sorts_valueList row) fun fs => within_bind ih fun rows => within_pure fun later first =>
      List.forall_mem_cons.2 ⟨first, later⟩

theorem sorts_boundRows {parameter : String} {rows : List Row} (held : ps.rows parameter = .ok rows) (count : Nat) :
    Within ps names (boundRows parameter 0 (rows.take count)) fun cells =>
      ∀ fs ∈ cells, ∀ f ∈ fs, Written .value names (f.text .sqlServer) := by
  refine ((within_takenRows held count).and (returns_boundRows parameter 0 _)).imp ?_
  rintro cells ⟨known, placeholders⟩ fs row f cell
  obtain ⟨name, rfl⟩ := placeholders fs row f cell
  exact ⟨.placeholder name, rfl, known fs row _ cell, Fragment.text_value _ _⟩

theorem sorts_literalCells (v : LiteralTable) :
    Within ps names (literalCells .sqlServer ps v) fun cells =>
      ∀ fs ∈ cells, ∀ f ∈ fs, Written .value names (f.text .sqlServer) := by
  unfold literalCells
  split
  next => exact sorts_immediateRows _
  next => exact within_throw
  next =>
    split
    next => exact within_throw
    next rows held => exact sorts_boundRows held _

theorem sorts_emptyLiteral (v : LiteralTable) :
    Grammatical names .source ((emptyLiteral .sqlServer v).text .sqlServer) := by
  have null : Written .value names "NULL" := ⟨.literal .null, rfl, List.nil_subset _, rfl⟩
  have never : Written .condition names "1 = 0" :=
    ⟨.binary (.literal (.int 1)) .equal (.literal (.int 0)), rfl, List.nil_subset _, rfl⟩
  have nulls : Listed ", " (ColumnText names)
      ((Fragment.list (v.columns.map fun c => (Fragment.word "NULL").labelled c)).text .sqlServer) := by
    refine listed_list (List.forall_mem_map.2 fun c _ => ?_)
    rw [Fragment.text_labelled, Fragment.text_word]
    exact .labelled null ⟨_, rfl⟩
  have filtered := Grammatical.filteredRow (.listed nulls) never ⟨v.label, rfl⟩
  have clause (s : String) : "SELECT " ++ s ++ " WHERE " ++ "1 = 0" = "SELECT " ++ s ++ " WHERE 1 = 0" := by
    rw [String.append_assoc]
    rfl
  rw [clause] at filtered
  simpa only [emptyLiteral, Fragment.text_append, Fragment.text_word, Fragment.text_paren, Fragment.text_labelled]
    using filtered

theorem sorts_filledLiteral (v : LiteralTable) {first : List Fragment} {rest : List (List Fragment)}
    (values : ∀ fs ∈ first :: rest, ∀ f ∈ fs, Written .value names (f.text .sqlServer)) :
    Grammatical names .source ((filledLiteral .sqlServer v first rest).text .sqlServer) := by
  have rows : Listed ", " (RowText names)
      ((Fragment.list ((first :: rest).map fun cells => .paren (.list cells))).text .sqlServer) := by
    refine listed_list (List.forall_mem_map.2 fun cells row => ⟨_, listed_list (values cells row), ?_⟩)
    exact Fragment.text_paren _ _
  have written := Grammatical.rows rows ⟨v.label, rfl⟩ (listed_identifiers v.columns)
  simpa only [filledLiteral, Fragment.text_append, Fragment.text_word, Fragment.text_paren, Fragment.text_labelled]
    using written

theorem sorts_literalTable (v : LiteralTable) :
    Within ps names (literalTable .sqlServer ps v) fun f => Grammatical names .source (f.text .sqlServer) := by
  refine within_bind (sorts_literalCells v) fun cells => ?_
  split
  next => exact within_pure fun _ => sorts_emptyLiteral v
  next first rest => exact within_pure (sorts_filledLiteral v)

/-! ## Sources, joins and selects -/

theorem sorts_joinCondition (kind : JoinKind) (on : Option Scalar) :
    Within ps names (joinCondition .sqlServer ps kind on) fun on =>
      ∀ f ∈ on, Written .condition names (f.text .sqlServer) := by
  unfold joinCondition
  split
  next => exact within_pure (by simp)
  next => exact within_pure (by simp)
  next => exact within_bind (sorts_condition _) fun f => within_pure fun condition => by simpa using condition

theorem sorts_joined (kind : JoinKind) {f : Fragment} (source : Grammatical names .source (f.text .sqlServer))
    {on : Option Fragment} (conditions : ∀ g ∈ on, Written .condition names (g.text .sqlServer)) :
    Grammatical names .join ((joined kind f on).text .sqlServer) := by
  have always : Written .condition names "1 = 1" :=
    ⟨.binary (.literal (.int 1)) .equal (.literal (.int 1)), rfl, List.nil_subset _, rfl⟩
  have crossed : Grammatical names .join ((Fragment.word "CROSS JOIN " ++ f).text .sqlServer) := by
    simpa only [Fragment.text_append, Fragment.text_word] using Grammatical.crossJoin source
  cases on with
  | none =>
    cases kind with
    | inner | cross => exact crossed
    | leftOuter =>
      have joined := Grammatical.leftJoin source always
      have clause : " ON " ++ "1 = 1" = " ON 1 = 1" := rfl
      rw [String.append_assoc, clause] at joined
      simpa only [Writer.joined, Fragment.text_append, Fragment.text_word] using joined
  | some g =>
    have on := conditions g rfl
    cases kind with
    | inner =>
      simpa only [Writer.joined, Fragment.text_append, Fragment.text_word] using Grammatical.innerJoin source on
    | leftOuter =>
      simpa only [Writer.joined, Fragment.text_append, Fragment.text_word] using Grammatical.leftJoin source on
    | cross => exact crossed

theorem grammatical_select {words : Fragment × List Fragment} {columns source : Fragment} {ordered : Bool}
    {joins filter keys having united order : List Fragment} {other : Option String}
    (paging : PagingSorts names ordered words) (listed : ColumnsText names (columns.text .sqlServer))
    (read : Grammatical names .source (source.text .sqlServer))
    (joined : ∀ f ∈ joins, Grammatical names .join (f.text .sqlServer))
    (filtered : Clause "WHERE " (Written .condition names) (filter.map (Fragment.text .sqlServer)))
    (grouped : ∀ f ∈ keys, Written .value names (f.text .sqlServer))
    (chosen : Clause "HAVING " (Written .condition names) (having.map (Fragment.text .sqlServer)))
    (second : ∀ s ∈ other, Grammatical names .select s)
    (split : united.map (Fragment.text .sqlServer) = other.elim [] fun s => ["UNION", s])
    (own : Clause "ORDER BY " (Listed ", " (OrderText names)) (order.map (Fragment.text .sqlServer)))
    (once : ordered = false → order = []) :
    Grammatical names .select ((Fragment.lines ([.word "SELECT " ++ words.1 ++ columns, .word "FROM " ++ source]
      ++ joins ++ filter ++ (if keys.isEmpty then [] else [.word "GROUP BY " ++ Fragment.list keys]) ++ having
      ++ united ++ order ++ words.2)).text .sqlServer) := by
  obtain ⟨top, constant, rows, tail, unneeded, without, paged⟩ := paging
  have group : Clause "GROUP BY " (Listed ", " (Written .value names))
      ((if keys.isEmpty then [] else [.word "GROUP BY " ++ Fragment.list keys]).map (Fragment.text .sqlServer)) := by
    split
    · exact .inl rfl
    · exact .inr ⟨_, listed_list grouped, by simp⟩
  -- the select orders either by its own keys or by the constant that paging asks for
  have ordering : Clause "ORDER BY " (Listed ", " (OrderText names))
      ((order ++ constant).map (Fragment.text .sqlServer)) := by
    cases ordered with
    | true => rwa [unneeded rfl, List.append_nil]
    | false => rwa [once rfl, List.nil_append]
  have written := Grammatical.select top listed read (List.forall_mem_map.2 joined) filtered group chosen second
    ordering paged
  rw [Fragment.text_lines, tail]
  simpa [split, String.append_assoc] using written

mutual

theorem sorts_select (s : Select) (nested : Bool) :
    Within ps names (select .sqlServer ps s nested) fun f => Grammatical names .select (f.text .sqlServer) := by
  obtain ⟨source', joined, predicate, groupBy, having, columns, union, orderBy, limit, offset⟩ := s
  unfold select
  refine within_bind (sorts_paging _ _ _) fun words => ?_
  refine within_bind (sorts_projection columns) fun list => ?_
  refine within_bind (sorts_source source') fun from' => ?_
  refine within_bind (sorts_joins joined) fun joined => ?_
  refine within_bind (sorts_conditionLine _ predicate) fun filter => ?_
  refine within_bind (sorts_valueList groupBy) fun keys => ?_
  refine within_bind (sorts_conditionLine _ having) fun having => ?_
  refine within_bind (sorts_unionLines union) fun united => ?_
  simp only [pure_bind]
  split
  -- an ordering is written unless it belongs to a subquery that is not paged
  next paged =>
    refine within_bind (sorts_orderItems orderBy) fun items => within_pure ?_
    rintro order ⟨other, second, lines⟩ having keys filter joined from' list words
    refine grammatical_select words list from' joined filter keys having second lines ?_ ?_
    · exact .inr ⟨_, listed_list order, by simp⟩
    · intro none
      simp [none] at paged
  next =>
    refine within_pure ?_
    rintro ⟨other, second, lines⟩ having keys filter joined from' list words
    exact grammatical_select words list from' joined filter keys having second lines (.inl rfl) fun _ => rfl

theorem sorts_source (s : Source) :
    Within ps names (source .sqlServer ps s) fun f => Grammatical names .source (f.text .sqlServer) := by
  cases s with
  | table ref => exact within_pure (.table (labelledTable ref))
  | literal v => exact sorts_literalTable v
  | subquery inner label =>
    refine within_bind (sorts_select inner true) fun f => within_pure fun select => ?_
    simpa only [Fragment.text_append, Fragment.text_word, Fragment.text_labelled]
      using Grammatical.subquery select ⟨label, rfl⟩

theorem sorts_joins (js : List (Join Select)) :
    Within ps names (joins .sqlServer ps js) fun fs => ∀ f ∈ fs, Grammatical names .join (f.text .sqlServer) := by
  cases js with
  | nil => exact within_pure (by simp)
  | cons j rest =>
    exact within_bind (sorts_join j) fun f => within_bind (sorts_joins rest) fun fs => within_pure fun later first =>
      List.forall_mem_cons.2 ⟨first, later⟩

theorem sorts_join (j : Join Select) :
    Within ps names (join .sqlServer ps j) fun f => Grammatical names .join (f.text .sqlServer) := by
  obtain ⟨kind, source', on⟩ := j
  exact within_bind (sorts_source source') fun f => within_bind (sorts_joinCondition kind on) fun on =>
    within_pure fun conditions source => sorts_joined kind source conditions

theorem sorts_unionLines (s : Option Select) :
    Within ps names (unionLines .sqlServer ps s) fun fs => ∃ other : Option String,
      (∀ s ∈ other, Grammatical names .select s) ∧
        fs.map (Fragment.text .sqlServer) = other.elim [] fun s => ["UNION", s] := by
  cases s with
  | none => exact within_pure ⟨none, by simp, rfl⟩
  | some other =>
    exact within_bind (sorts_select other true) fun f => within_pure fun select =>
      ⟨some _, fun s member => Option.some.inj member ▸ select, by simp⟩

end

/-! ## Statements -/

theorem sorts_assignments (label : String) (set : List Projection) :
    Within ps names (assignments .sqlServer ps (some label) set) fun fs =>
      ∀ f ∈ fs, AssignmentText names (f.text .sqlServer) := by
  induction set with
  | nil => exact within_pure (by simp)
  | cons p rest ih =>
    refine within_bind (sorts_value p.value) fun f => within_bind ih fun fs => within_pure fun later first =>
      List.forall_mem_cons.2 ⟨?_, later⟩
    simpa only [Fragment.text_append, Fragment.text_word, Fragment.text_identifier]
      using AssignmentText.assign (.qualified ⟨p.name, rfl⟩ ⟨label, rfl⟩) first

theorem sorts_matchedLine (label : String) (updated : Option (List Projection)) :
    Within ps names (matchedLine ps label updated) fun fs => Clause "WHEN MATCHED THEN UPDATE SET "
      (Listed ", " (AssignmentText names)) (fs.map (Fragment.text .sqlServer)) := by
  cases updated with
  | none => exact within_pure (.inl rfl)
  | some set =>
    exact within_bind (sorts_assignments label set) fun fs => within_pure fun each =>
      .inr ⟨_, listed_list each, by simp⟩

theorem listed_nameList (list : List Projection) : Listed ", " Quoted ((nameList list).text .sqlServer) :=
  listed_list (List.forall_mem_map.2 fun p _ => quoted_identifier p.name)

theorem rowText_paren {fs : List Fragment} (each : ∀ f ∈ fs, Written .value names (f.text .sqlServer)) :
    RowText names ((Fragment.paren (.list fs)).text .sqlServer) :=
  ⟨_, listed_list each, Fragment.text_paren _ _⟩

theorem sorts_insertLine (inserted : Option (List Projection)) :
    Within ps names (insertLine ps inserted) fun fs => InsertLines names (fs.map (Fragment.text .sqlServer)) := by
  cases inserted with
  | none => exact within_pure .none
  | some list =>
    refine within_bind (sorts_valueList _) fun fs => within_pure fun values => ?_
    simpa only [List.map_cons, List.map_nil, Fragment.text_append, Fragment.text_word, Fragment.text_paren]
      using InsertLines.insertByTarget (listed_nameList list) (rowText_paren values)

theorem sorts_insertInto (table : String) (schema : Option String) (rows : Select) :
    Within ps names (insertInto .sqlServer ps table schema rows) fun f =>
      Grammatical names .statement (f.text .sqlServer) := by
  refine within_bind (sorts_select rows false) fun f => within_pure fun select => ?_
  have written := Grammatical.insertInto (dotted_table ⟨table, schema, ""⟩) (listed_nameList rows.projection) select
  simpa [String.append_assoc] using written

theorem written_excludedColumn (name : String) : Written .value names ((excludedColumn name).text .sqlServer) :=
  ⟨.excluded name, rfl, List.nil_subset _, Fragment.text_value _ _⟩

theorem text_conflictColumn (label c : String) :
    Fragment.text .sqlServer (.identifier label ++ .word "." ++ .identifier c ++ .word " = " ++ excludedColumn c) =
      (Phrase.binary (.column label c) .equal (.excluded c)).text .sqlServer := by
  have words : " = " = " " ++ "=" ++ " " := rfl
  simp only [Fragment.text_append, Fragment.text_word, Fragment.text_identifier, excludedColumn, Fragment.text_value,
    Phrase.text, Dialect.operator, words, String.append_assoc]

theorem written_conflictFragment (label : String) {columns : List String} (some : columns ≠ []) :
    Written .condition names ((conflictFragment label columns).text .sqlServer) := by
  unfold conflictFragment
  induction columns with
  | nil => exact absurd rfl some
  | cons c rest ih =>
    cases rest with
    | nil =>
      refine ⟨.binary (.column label c) .equal (.excluded c), rfl, List.nil_subset _, ?_⟩
      rw [List.map_singleton, Fragment.separated, text_conflictColumn]
    | cons c' rest =>
      obtain ⟨p, sort, known, text⟩ := ih (List.cons_ne_nil _ _)
      refine ⟨.binary (.binary (.column label c) .equal (.excluded c)) .and p, ?_, ?_, ?_⟩
      · simp [Phrase.sort?, operatorSorts, sort]
      · simpa [Phrase.placeholders] using known
      · rw [Fragment.text_separated] at text ⊢
        rw [List.map_cons, List.map_cons, String.intercalate_cons_of_ne_nil (by simp), text, text_conflictColumn]
        have words : " AND " = " " ++ "AND" ++ " " := rfl
        simp only [Phrase.text, Dialect.operator, words, String.append_assoc]

theorem intercalate_concat_append (separator : String) (ls : List String) (s t : String) :
    separator.intercalate (ls ++ [s ++ t]) = separator.intercalate (ls ++ [s]) ++ t := by
  cases ls with
  | nil => simp
  | cons l ls =>
    have some : l :: ls ≠ [] := List.cons_ne_nil _ _
    rw [String.intercalate_append_of_ne_nil some (by simp), String.intercalate_append_of_ne_nil some (by simp)]
    simp [String.append_assoc]

theorem sorts_mergedUpsert (table : StoredTable) (inserted : List Projection) {conflictColumns : List String}
    (some : conflictColumns ≠ []) {rows : Fragment} {matched : List Fragment}
    (read : Grammatical names .source ((rows.labelled "excluded").text .sqlServer))
    (updated : Clause "WHEN MATCHED THEN UPDATE SET " (Listed ", " (AssignmentText names))
      (matched.map (Fragment.text .sqlServer))) :
    Grammatical names .statement ((mergedUpsert table inserted conflictColumns rows matched).text .sqlServer) := by
  have values : ∀ f ∈ inserted.map (fun p => excludedColumn p.name), Written .value names (f.text .sqlServer) := by
    rintro f member
    obtain ⟨p, -, rfl⟩ := List.mem_map.1 member
    exact written_excludedColumn p.name
  have written := Grammatical.merge (labelledTable table) read (written_conflictFragment table.label some) updated
    (.insert (listed_nameList inserted) (rowText_paren values)) (List.forall_mem_nil _)
  -- The last line brings the semicolon that ends the merge.
  rw [mergedUpsert, Fragment.text_lines, List.map_append, List.map_singleton, insertedLine, Fragment.text_append,
    Fragment.text_word, intercalate_concat_append]
  simpa only [List.map_append, List.map_cons, List.map_nil, List.append_nil, Fragment.text_append, Fragment.text_word,
    Fragment.text_paren] using written

theorem sorts_sqlServerStatement {s : Statement} (conflicts : (Block.affected s).FindsConflicts) :
    Within ps names (sqlServerStatement ps s) fun f => Grammatical names .statement (f.text .sqlServer) := by
  cases s with
  | delete table predicate joined =>
    refine within_bind (sorts_joins joined) fun joined => within_bind (sorts_conditionLine _ predicate) fun filter =>
      within_pure fun filtered joined => ?_
    have written := Grammatical.delete ⟨table.label, rfl⟩ (labelledTable table) (List.forall_mem_map.2 joined) filtered
    simpa only [Fragment.text_lines, List.map_append, List.map_cons, List.map_nil, Fragment.text_append,
      Fragment.text_word, Fragment.text_identifier] using written
  | update table set predicate joined =>
    refine within_bind (sorts_assignments table.label set) fun set => within_bind (sorts_joins joined) fun joined =>
      within_bind (sorts_conditionLine _ predicate) fun filter => within_pure fun filtered joined assigned => ?_
    have written := Grammatical.update ⟨table.label, rfl⟩ (listed_list assigned) (labelledTable table)
      (List.forall_mem_map.2 joined) filtered
    simpa only [Fragment.text_lines, List.map_append, List.map_cons, List.map_nil, Fragment.text_append,
      Fragment.text_word, Fragment.text_identifier] using written
  | insertInto table schema rows => exact sorts_insertInto table schema rows
  -- an upsert becomes a merge from one row of values or from a subquery
  | upsert table rows inserted updated constraint conflictColumns =>
    cases rows with
    | none =>
      simp only [sqlServerStatement, pure_bind]
      refine within_bind (sorts_projection inserted) fun columns => ?_
      refine within_bind (sorts_matchedLine _ updated) fun matched => within_pure fun matched listed =>
        sorts_mergedUpsert table inserted conflicts ?_ matched
      simpa only [Fragment.text_labelled, Fragment.text_paren, Fragment.text_append, Fragment.text_word]
        using Grammatical.row listed ⟨"excluded", rfl⟩
    | some select =>
      simp only [sqlServerStatement, pure_bind]
      refine within_bind (sorts_select _ true) fun rows => ?_
      refine within_bind (sorts_matchedLine _ updated) fun matched => within_pure fun matched read =>
        sorts_mergedUpsert table inserted conflicts ?_ matched
      simpa only [Fragment.text_labelled, Fragment.text_append, Fragment.text_word]
        using Grammatical.subquery read ⟨"excluded", rfl⟩
  | merge target from' on matched inserted deleteUnmatched =>
    refine within_bind (sorts_source from') fun from' => within_bind (sorts_condition on) fun on => ?_
    refine within_bind (sorts_matchedLine _ matched) fun matched => ?_
    refine within_bind (sorts_insertLine inserted) fun inserted => within_pure fun inserted matched on from' => ?_
    have removed : ∀ line ∈ (if deleteUnmatched then [Fragment.word "WHEN NOT MATCHED BY SOURCE THEN DELETE"]
        else []).map (Fragment.text .sqlServer), line = "WHEN NOT MATCHED BY SOURCE THEN DELETE" := by
      split <;> simp
    have written := Grammatical.merge (labelledTable target) from' on matched inserted removed
    simpa only [Fragment.text_lines, List.map_append, List.map_cons, List.map_nil, Fragment.text_append,
      Fragment.text_word] using written
  | truncate table =>
    refine within_pure ?_
    simpa only [deleteAll, Fragment.text_append, Fragment.text_word] using Grammatical.truncate (dotted_table table)
  | noop =>
    have zero : Written .value names "0" := ⟨.literal (.int 0), rfl, List.nil_subset _, rfl⟩
    exact within_pure (by simpa using Grammatical.constant zero)

theorem sorts_block {b : Block} (conflicts : b.FindsConflicts) :
    Within ps names (block .sqlServer ps b) fun f => Grammatical names .statement (f.text .sqlServer) := by
  cases b with
  | select s => exact (sorts_select s false).imp fun _ select => .query select
  | affected s => exact sorts_sqlServerStatement conflicts

end Writer

/-! ## Commands -/

/-- In SQL Server, what is written for an expression is a value where a value is expected, and a condition where a
condition is. In the text of a command, conditions stand behind WHERE, HAVING and ON, and values everywhere else. -/
theorem commands_keep_sorts (ps : Parameters) :
    (∀ (e : Scalar) (used used' : List (String × Value)) (f : Fragment),
      Writer.value .sqlServer ps e used = .ok (f, used') → ∃ p, f = [.value p] ∧ p.sort? = some .value) ∧
    (∀ (e : Scalar) (used used' : List (String × Value)) (f : Fragment),
      Writer.condition .sqlServer ps e used = .ok (f, used') →
        ∃ p, f = [.condition p] ∧ p.sort? = some .condition) ∧
    ∀ (b : Block) (max : Option Nat) (cmd : Command), b.FindsConflicts →
      Command.ofBlock .sqlServer b ps max = .ok cmd →
        Grammatical (cmd.parameters.map Prod.fst) .statement cmd.sql := by
  refine ⟨fun e used used' f run => ?_, fun e used used' f run => ?_, fun b max cmd conflicts made => ?_⟩
  · obtain ⟨_, -, run⟩ := bind_eq_ok.1 run
    obtain rfl : _ = f := congrArg Prod.fst (Except.ok.inj run)
    exact ⟨_, rfl, sort?_value e⟩
  · obtain ⟨_, -, run⟩ := bind_eq_ok.1 run
    obtain rfl : _ = f := congrArg Prod.fst (Except.ok.inj run)
    exact ⟨_, rfl, sort?_condition e⟩
  · obtain ⟨⟨f, used⟩, run, made⟩ := bind_eq_ok.1 made
    dsimp only at made
    split at made
    -- refused for its number of parameters
    next =>
      obtain ⟨_, refused, -⟩ := bind_eq_ok.1 made
      cases refused
    next =>
      obtain rfl := pure_eq_ok.1 made
      exact (Writer.sorts_block conflicts [] f used run).2.2 (List.Subset.refl _)

/-- Store an item that is flagged if it has a certain number. -/
def flaggedUpsert (conflictColumns : List String) : Block :=
  .affected (.upsert ⟨"Items", none, "i"⟩ none
    [⟨"Id", .parameter "__id_0"⟩, ⟨"Flag", .binary (.parameter "__id_0") .equal (.constant (.int 5))⟩]
    none "PK_Items" conflictColumns)

def storeSeven : Parameters :=
  ⟨[("__id_0", .scalar (.int 7))], by decide⟩

/-- The comparison becomes a value, and the columns of the key are compared in a condition. -/
theorem flaggedUpsert_keeps_sorts :
    ∃ cmd, Command.ofBlock .sqlServer (flaggedUpsert ["Id"]) storeSeven none = .ok cmd ∧
      cmd.sql = "\n".intercalate [
        "MERGE INTO [Items] AS [i]",
        "USING (SELECT @__id_0 AS [Id], CASE WHEN @__id_0 = 5 THEN CAST(1 AS bit) ELSE CAST(0 AS bit) END AS [Flag])"
          ++ " AS [excluded]",
        "ON [i].[Id] = [excluded].[Id]",
        "WHEN NOT MATCHED THEN INSERT ([Id], [Flag]) VALUES ([excluded].[Id], [excluded].[Flag]);"] ∧
      Grammatical ["__id_0"] .statement cmd.sql := by
  refine ⟨⟨_, [("__id_0", .int 7)]⟩, rfl, by decide +kernel, ?_⟩
  exact (commands_keep_sorts storeSeven).2.2 (flaggedUpsert ["Id"]) none ⟨_, [("__id_0", .int 7)]⟩
    (List.cons_ne_nil _ _) rfl

theorem Written.ne_empty {names : List String} {s : String} (h : Written .condition names s) : s ≠ "" := by
  obtain ⟨p, sort, -, rfl⟩ := h
  cases p with
  | column | literal | placeholder | excluded => cases sort
  | coalesce | case =>
    rw [Phrase.sort?] at sort
    split at sort <;> cases sort
  | binary | paren | not | isNull | isNotNull => simp [Phrase.text]

/-- Without columns to find conflicts in, nothing stands behind ON. -/
theorem unmatchedUpsert_has_no_condition :
    ∃ cmd, Command.ofBlock .sqlServer (flaggedUpsert []) storeSeven none = .ok cmd ∧
      cmd.sql = "\n".intercalate [
        "MERGE INTO [Items] AS [i]",
        "USING (SELECT @__id_0 AS [Id], CASE WHEN @__id_0 = 5 THEN CAST(1 AS bit) ELSE CAST(0 AS bit) END AS [Flag])"
          ++ " AS [excluded]",
        "ON ",
        "WHEN NOT MATCHED THEN INSERT ([Id], [Flag]) VALUES ([excluded].[Id], [excluded].[Flag]);"] ∧
      ∀ names, ¬ Written .condition names "" :=
  ⟨⟨_, [("__id_0", .int 7)]⟩, rfl, by decide +kernel, fun _ written => written.ne_empty rfl⟩

end Sql

end Setwise
