import Setwise.Proofs.Pruning
import Setwise.Relational.Binding

/-!
Well-scoped statements.

A statement is well scoped when every column that one of its expressions refers to can be read where the
expression is evaluated, and every parameter has a value. Pruning the filters keeps that up
(`Statement.WellScoped.prune`), and so does putting bound literal tables in the place of pending ones
(`Statement.WellScoped.bind`).
-/

set_option autoImplicit false

namespace Setwise.Relational

/-! ## Outlooks -/

abbrev Context := List (String × List String)

def Context.Shows (Γ : Context) (label column : String) : Prop :=
  ∃ columns, Γ.lookup label = some columns ∧ column ∈ columns

structure Outlook where
  context : Context
  /-- The columns of the row that an upsert tries to insert. -/
  incoming : List String
  /-- The parameters that hold single values. -/
  scalars : String → Prop

def Scalar.Visible (V : Outlook) : Scalar → Prop
  | .column source name => V.context.Shows source name
  | .constant _ => True
  | .parameter name => V.scalars name
  | .binary l _ r => l.Visible V ∧ r.Visible V
  | .not e | .isNull e | .isNotNull e => e.Visible V
  | .case test a b => test.Visible V ∧ a.Visible V ∧ b.Visible V
  | .excluded name => name ∈ V.incoming

structure Outlook.Within (V W : Outlook) : Prop where
  columns : ∀ label column, V.context.Shows label column → W.context.Shows label column
  incoming : V.incoming ⊆ W.incoming
  scalars : ∀ name, V.scalars name → W.scalars name

namespace Context

theorem lookup_append (Γ Δ : Context) (label : String) :
    (Γ ++ Δ).lookup label = (Γ.lookup label).or (Δ.lookup label) := by
  induction Γ with
  | nil => rfl
  | cons entry rest ih =>
    obtain ⟨other, columns⟩ := entry
    rw [List.cons_append, List.lookup_cons, List.lookup_cons]
    cases label == other with
    | true => rfl
    | false => exact ih

theorem Shows.append {Γ : Context} {label column : String} (h : Γ.Shows label column) (Δ : Context) :
    (Γ ++ Δ).Shows label column := by
  obtain ⟨columns, found, member⟩ := h
  exact ⟨columns, by rw [lookup_append, found]; rfl, member⟩

theorem shows_last {Γ : Context} {label column : String} {columns : List String}
    (new : label ∉ Γ.map Prod.fst) (member : column ∈ columns) :
    (Γ ++ [(label, columns)]).Shows label column := by
  refine ⟨columns, ?_, member⟩
  have missing : Γ.lookup label = none := by
    rw [List.lookup_eq_none_iff]
    intro entry inside
    exact bne_iff_ne.2 fun same => new (same ▸ List.mem_map_of_mem inside)
  rw [lookup_append, missing, List.lookup_cons_self]
  rfl

theorem shows_single {label column : String} {columns : List String} (member : column ∈ columns) :
    Context.Shows [(label, columns)] label column :=
  ⟨columns, List.lookup_cons_self, member⟩

end Context

theorem Outlook.within_append (Γ Δ : Context) (incoming : List String) (scalars : String → Prop) :
    Outlook.Within ⟨Γ, incoming, scalars⟩ ⟨Γ ++ Δ, incoming, scalars⟩ :=
  ⟨fun _ _ h => h.append Δ, List.Subset.refl _, fun _ => id⟩

namespace Scalar

theorem Visible.mono {V W : Outlook} (within : V.Within W) {e : Scalar} (h : e.Visible V) : e.Visible W := by
  induction e with
  | column source name => exact within.columns source name h
  | constant v => trivial
  | parameter name => exact within.scalars name h
  | binary l op r ihl ihr => exact ⟨ihl h.1, ihr h.2⟩
  | not e ih | isNull e ih | isNotNull e ih => exact ih h
  | case test a b iht iha ihb => exact ⟨iht h.1, iha h.2.1, ihb h.2.2⟩
  | excluded column => exact within.incoming h

theorem Visible.both {V : Outlook} {condition : Option Scalar} {e : Scalar} (first : ∀ c ∈ condition, c.Visible V)
    (second : e.Visible V) : (Scalar.both condition e).Visible V := by
  cases condition with
  | none => exact second
  | some c => exact ⟨first c rfl, second⟩

theorem Visible.prune {V : Outlook} {e : Scalar} (h : e.Visible V) : ∀ p ∈ e.prune, p.Visible V := by
  have whole {e : Scalar} (h : e.Visible V) :
      ∀ p ∈ (if e.isConstantTrue then none else some e), p.Visible V := by
    intro p found
    split at found
    next => cases found
    next => exact Option.some.inj found ▸ h
  induction e with
  | binary l op r ihl ihr =>
    obtain ⟨left, right⟩ := h
    intro p found
    unfold Scalar.prune at found
    split at found
    next conjunction =>
      -- one side or both remain
      cases hl : l.prune with
      | none => exact ihr right p (by simpa [hl] using found)
      | some a =>
        cases hr : r.prune with
        | none =>
          obtain rfl : a = p := by simpa [hl, hr] using found
          exact ihl left a hl
        | some b =>
          obtain rfl : Scalar.binary a .and b = p := by simpa [hl, hr] using found
          exact ⟨ihl left a hl, ihr right b hr⟩
    next => exact Option.some.inj found ▸ ⟨left, right⟩
  | _ => exact whole h

theorem Visible.pruneOption {V : Outlook} {condition : Option Scalar} (h : ∀ e ∈ condition, e.Visible V) :
    ∀ e ∈ condition.bind Scalar.prune, e.Visible V := by
  intro e found
  obtain ⟨c, here, pruned⟩ := Option.bind_eq_some_iff.1 found
  exact (h c here).prune e pruned

end Scalar

/-! ## Well-scoped selects and statements -/

structure Interface where
  /-- The columns of the stored tables. -/
  tables : String → Option (List String)
  /-- The parameters that hold single values. -/
  scalars : String → Prop
  /-- The literal tables that have rows, each with a value for every column. -/
  literals : LiteralTable → Prop

def Interface.view (I : Interface) (Γ : Context) (incoming : List String) : Outlook :=
  ⟨Γ, incoming, I.scalars⟩

def Source.entry (I : Interface) : Source → String × List String
  | .table ref => (ref.label, (I.tables ref.name).getD [])
  | .literal v => (v.label, v.columns)
  | .subquery select label => (label, select.projection.map Projection.name)

def Join.entries (I : Interface) (js : List (Join Select)) : Context :=
  js.map fun j => Source.entry I j.source

def Select.context (I : Interface) (s : Select) : Context :=
  Source.entry I s.source :: Join.entries I s.joins

def Select.paging (s : Select) : List Scalar :=
  s.limit.toList ++ s.offset.toList

mutual

/-- Every expression of a select, and of the selects below it, reads what is visible where it is evaluated. -/
inductive Select.WellScoped (I : Interface) : Select → Prop where
  | intro {s : Select} (source : Source.WellScoped I s.source)
      (joins : Join.WellScoped I [Source.entry I s.source] s.joins)
      (clauses : ∀ e ∈ Planning.clauses s, e.Visible (I.view (s.context I) []))
      (projection : ∀ p ∈ s.projection, p.value.Visible (I.view (s.context I) []))
      (paging : ∀ e ∈ s.paging, e.Visible (I.view [] []))
      (union : Union.WellScoped I s.union)
      (alike : ∀ t ∈ s.union,
        s.orderBy = [] ∧ t.projection.map Projection.name = s.projection.map Projection.name) :
      Select.WellScoped I s

/-- A source is there, and well scoped if it is a subquery. -/
inductive Source.WellScoped (I : Interface) : Source → Prop where
  | table {ref : StoredTable} {columns : List String} (stored : I.tables ref.name = some columns) :
      Source.WellScoped I (.table ref)
  | literal {v : LiteralTable} (held : I.literals v) : Source.WellScoped I (.literal v)
  | subquery {s : Select} (label : String) (inner : Select.WellScoped I s) :
      Source.WellScoped I (.subquery s label)

/-- Each condition reads the sources in front, of which the first ones are given, and the source that joins. -/
inductive Join.WellScoped (I : Interface) : Context → List (Join Select) → Prop where
  | nil (Γ : Context) : Join.WellScoped I Γ []
  | cons {Γ : Context} {j : Join Select} {rest : List (Join Select)} (source : Source.WellScoped I j.source)
      (on : ∀ e ∈ j.on, e.Visible (I.view (Γ ++ [Source.entry I j.source]) []))
      (later : Join.WellScoped I (Γ ++ [Source.entry I j.source]) rest) : Join.WellScoped I Γ (j :: rest)

inductive Union.WellScoped (I : Interface) : Option Select → Prop where
  | none : Union.WellScoped I none
  | some {s : Select} (select : Select.WellScoped I s) : Union.WellScoped I (some s)

end

def Assigns (V : Outlook) (columns : List String) (ps : List Projection) : Prop :=
  ∀ p ∈ ps, p.name ∈ columns ∧ p.value.Visible V

/-- The tables of a statement are there, what it writes to are columns of its table, and every expression
reads what is visible where it is evaluated. -/
inductive Statement.WellScoped (I : Interface) : Statement → Prop where
  | delete {table : StoredTable} {predicate : Option Scalar} {joins : List (Join Select)}
      {columns : List String} (stored : I.tables table.name = some columns)
      (joined : Join.WellScoped I [(table.label, columns)] joins)
      (filter : ∀ e ∈ predicate, e.Visible (I.view ((table.label, columns) :: Join.entries I joins) [])) :
      Statement.WellScoped I (.delete table predicate joins)
  | update {table : StoredTable} {set : List Projection} {predicate : Option Scalar}
      {joins : List (Join Select)} {columns : List String} (stored : I.tables table.name = some columns)
      (joined : Join.WellScoped I [(table.label, columns)] joins)
      (filter : ∀ e ∈ predicate, e.Visible (I.view ((table.label, columns) :: Join.entries I joins) []))
      (assigns : Assigns (I.view ((table.label, columns) :: Join.entries I joins) []) columns set) :
      Statement.WellScoped I (.update table set predicate joins)
  | insertInto {table : String} (schema : Option String) {select : Select} {columns : List String}
      (stored : I.tables table = some columns) (rows : Select.WellScoped I select)
      (named : select.projection ≠ []) (names : ∀ p ∈ select.projection, p.name ∈ columns) :
      Statement.WellScoped I (.insertInto table schema select)
  /-- What an upsert assigns to a row that exists, it computes from that row and the incoming one. -/
  | upsert {table : StoredTable} {source : Option Select} {inserted : List Projection}
      {updated : Option (List Projection)} (constraint : String) {conflictColumns columns : List String}
      (stored : I.tables table.name = some columns) (rows : ∀ s ∈ source, Select.WellScoped I s)
      (inserts : Assigns (I.view (source.elim [] (Select.context I)) []) columns inserted)
      (updates : ∀ set ∈ updated,
        Assigns (I.view [(table.label, columns)] (inserted.map Projection.name)) columns set)
      (conflict : conflictColumns ⊆ columns) :
      Statement.WellScoped I (.upsert table source inserted updated constraint conflictColumns)
  | merge {target : StoredTable} {source : Source} {on : Scalar} {matched inserted : Option (List Projection)}
      (deleteUnmatched : Bool) {columns : List String} (stored : I.tables target.name = some columns)
      (rows : Source.WellScoped I source)
      (condition : on.Visible (I.view [(target.label, columns), Source.entry I source] []))
      (updates : ∀ set ∈ matched,
        Assigns (I.view [(target.label, columns), Source.entry I source] []) columns set)
      (inserts : ∀ ps ∈ inserted, Assigns (I.view [Source.entry I source] []) columns ps) :
      Statement.WellScoped I (.merge target source on matched inserted deleteUnmatched)
  | truncate {table : StoredTable} {columns : List String} (stored : I.tables table.name = some columns) :
      Statement.WellScoped I (.truncate table)
  | noop : Statement.WellScoped I .noop

/-- The select or statement of a block is well scoped. -/
inductive Block.WellScoped (I : Interface) : Block → Prop where
  | select {s : Select} (rows : Select.WellScoped I s) : Block.WellScoped I (.select s)
  | affected {s : Statement} (write : Statement.WellScoped I s) : Block.WellScoped I (.affected s)

/-- A collection that feeds a plan has rows, and what is left where there are none is well scoped. -/
structure Feed.WellScoped (I : Interface) (feed : Feed) : Prop where
  held : ∃ v, I.literals v ∧ v.rows = .pending feed.parameter
  whenEmpty : Statement.WellScoped I feed.whenEmpty.statement

/-- The block of a plan is well scoped, and so is what takes its place. -/
structure Plan.WellScoped (I : Interface) (plan : Plan) : Prop where
  root : Block.WellScoped I plan.root
  feeds : ∀ feed ∈ plan.feeds, Feed.WellScoped I feed

/-! ## Pruned statements -/

section

variable {I : Interface}

theorem entry_prune (s : Source) : Source.entry I (Source.prune s) = Source.entry I s := by
  cases s with
  | table | literal => rfl
  | subquery select label => cases select; rfl

theorem entries_prune (js : List (Join Select)) : Join.entries I (Join.pruneAll js) = Join.entries I js := by
  induction js with
  | nil => rfl
  | cons j rest ih =>
    cases j
    exact List.cons_eq_cons.2 ⟨entry_prune _, ih⟩

theorem prune_paging (s : Select) : s.prune.paging = s.paging := by
  cases s
  rfl

theorem context_prune (s : Select) : s.prune.context I = s.context I := by
  cases s
  exact List.cons_eq_cons.2 ⟨entry_prune _, entries_prune _⟩

mutual

/-- Pruning its filters leaves a select well scoped. -/
theorem Select.WellScoped.prune {s : Select} (h : Select.WellScoped I s) : Select.WellScoped I s.prune := by
  match h with
  | @Select.WellScoped.intro _ s source joins clauses projection paging union alike =>
    have source := Source.WellScoped.prune source
    have joins := Join.WellScoped.prune joins
    have union := Union.WellScoped.prune union
    refine .intro ?_ ?_ (fun e member => ?_) ?_ ?_ ?_ fun t found => ?_
    · rwa [prune_source]
    · rwa [prune_source, entry_prune, prune_joins]
    · rw [context_prune]
      rcases mem_clauses_prune member with before | ⟨c, before, pruned⟩
      · exact clauses e before
      · exact (clauses c before).prune e pruned
    · rwa [context_prune, prune_projection]
    · rwa [prune_paging]
    · rwa [prune_union]
    · rw [prune_union, pruneOption_eq_map] at found
      obtain ⟨u, before, rfl⟩ := Option.map_eq_some_iff.1 found
      rw [prune_projection, prune_projection, prune_orderBy]
      exact alike u before

theorem Source.WellScoped.prune {s : Source} (h : Source.WellScoped I s) :
    Source.WellScoped I (Source.prune s) := by
  match h with
  | .table stored => exact .table stored
  | .literal held => exact .literal held
  | .subquery label inner => exact .subquery label (Select.WellScoped.prune inner)

theorem Join.WellScoped.prune {Γ : Context} {js : List (Join Select)} (h : Join.WellScoped I Γ js) :
    Join.WellScoped I Γ (Join.pruneAll js) := by
  match h with
  | .nil Γ => exact .nil Γ
  | @Join.WellScoped.cons _ Γ j rest source on later =>
    have source := Source.WellScoped.prune source
    have later := Join.WellScoped.prune later
    unfold Join.pruneAll
    rw [prune_join]
    refine .cons source ?_ ?_
    · rwa [entry_prune]
    · rwa [entry_prune]

theorem Union.WellScoped.prune {s : Option Select} (h : Union.WellScoped I s) :
    Union.WellScoped I (Select.pruneOption s) := by
  match h with
  | .none => exact .none
  | .some select => exact .some (Select.WellScoped.prune select)

end

/-- Pruning its filters leaves a statement well scoped. -/
theorem Statement.WellScoped.prune {s : Statement} (h : Statement.WellScoped I s) :
    Statement.WellScoped I s.prune := by
  cases h with
  | delete stored joined filter =>
    refine .delete stored joined.prune (Scalar.Visible.pruneOption ?_)
    -- pruning drops conditions and keeps sources, so every view stays what it was
    rwa [entries_prune]
  | update stored joined filter assigns =>
    refine .update stored joined.prune (Scalar.Visible.pruneOption ?_) ?_
    · rwa [entries_prune]
    · rwa [entries_prune]
  | @insertInto table schema select columns stored rows named names =>
    cases select
    exact .insertInto schema stored rows.prune named names
  | @upsert table source inserted updated constraint conflictColumns columns stored rows inserts updates
      conflict =>
    cases source with
    | none => exact .upsert constraint stored (fun _ h => nomatch h) inserts updates conflict
    | some s =>
      refine .upsert constraint stored ?_ ?_ updates conflict
      · intro t found
        obtain rfl := Option.some.inj found
        exact (rows s rfl).prune
      · have inserts : Assigns (I.view (s.context I) []) columns inserted := inserts
        rwa [← context_prune] at inserts
  | merge deleteUnmatched stored rows condition updates inserts =>
    refine .merge deleteUnmatched stored rows.prune ?_ ?_ ?_
    · rwa [entry_prune]
    · rwa [entry_prune]
    · rwa [entry_prune]
  | truncate stored => exact .truncate stored
  | noop => exact .noop

theorem Block.WellScoped.prune {b : Block} (h : Block.WellScoped I b) : Block.WellScoped I b.prune := by
  cases h with
  | select rows => exact .select rows.prune
  | affected write => exact .affected write.prune

/-! ## Bound statements -/

variable {ε : Type} {f : LiteralTable → Except ε LiteralTable} {held : LiteralTable → Prop}

def Interface.binding (I : Interface) (held : LiteralTable → Prop) : Interface :=
  { I with literals := held }

def Replaces (f : LiteralTable → Except ε LiteralTable) (before after : LiteralTable → Prop) : Prop :=
  ∀ v, before v → ∃ w, f v = .ok w ∧ w.label = v.label ∧ w.columns = v.columns ∧ after w

mutual

/-- The literal tables of a well-scoped select can be replaced, which leaves it well scoped. -/
theorem Select.WellScoped.bind {s : Select} (h : Select.WellScoped I s) (replaces : Replaces f I.literals held) :
    ∃ t, s.mapLiteralTables f = .ok t ∧ Select.WellScoped (I.binding held) t ∧
      t.context (I.binding held) = s.context I ∧ t.projection = s.projection := by
  match h with
  | @Select.WellScoped.intro _ s source joins clauses projection paging union alike =>
    obtain ⟨source', first, wellScoped, entry⟩ := Source.WellScoped.bind source replaces
    obtain ⟨joins', second, wellScoped', entries⟩ := Join.WellScoped.bind joins replaces
    obtain ⟨union', third, wellScoped'', names⟩ := Union.WellScoped.bind union replaces
    obtain ⟨s₁, s₂, predicate, groupBy, having, ps, s₃, orderBy, limit, offset⟩ := s
    have context : Select.context (I.binding held)
        ⟨source', joins', predicate, groupBy, having, ps, union', orderBy, limit, offset⟩ =
          Select.context I ⟨s₁, s₂, predicate, groupBy, having, ps, s₃, orderBy, limit, offset⟩ :=
      List.cons_eq_cons.2 ⟨entry, entries⟩
    refine ⟨_, bind_eq_ok.2 ⟨source', first, bind_eq_ok.2 ⟨joins', second,
      bind_eq_ok.2 ⟨union', third, rfl⟩⟩⟩, ?_, context, rfl⟩
    refine .intro wellScoped ?_ ?_ ?_ paging wellScoped'' fun t found => ?_
    · rwa [entry]
    · rwa [context]
    · rwa [context]
    · obtain rfl := found
      obtain ⟨u, before, same⟩ := Option.map_eq_some_iff.1 names.symm
      rw [← same]
      exact alike u before

theorem Source.WellScoped.bind {s : Source} (h : Source.WellScoped I s) (replaces : Replaces f I.literals held) :
    ∃ t, Source.mapLiteralTables f s = .ok t ∧ Source.WellScoped (I.binding held) t ∧
      Source.entry (I.binding held) t = Source.entry I s := by
  match h with
  | .table stored => exact ⟨_, rfl, .table stored, rfl⟩
  | .literal known =>
    obtain ⟨w, found, label, columns, after⟩ := replaces _ known
    exact ⟨.literal w, bind_eq_ok.2 ⟨w, found, rfl⟩, .literal after, by simp only [Source.entry, label, columns]⟩
  | .subquery label inner =>
    obtain ⟨t, found, wellScoped, -, projection⟩ := Select.WellScoped.bind inner replaces
    refine ⟨.subquery t label, bind_eq_ok.2 ⟨t, found, rfl⟩, .subquery label wellScoped, ?_⟩
    simp only [Source.entry, projection]

theorem Join.WellScoped.bind {Γ : Context} {js : List (Join Select)} (h : Join.WellScoped I Γ js)
    (replaces : Replaces f I.literals held) :
    ∃ ks, Join.mapLiteralTablesAll f js = .ok ks ∧ Join.WellScoped (I.binding held) Γ ks ∧
      Join.entries (I.binding held) ks = Join.entries I js := by
  match h with
  | .nil Γ => exact ⟨[], rfl, .nil Γ, rfl⟩
  | @Join.WellScoped.cons _ Γ j rest source on later =>
    obtain ⟨source', first, wellScoped, entry⟩ := Source.WellScoped.bind source replaces
    obtain ⟨rest', second, wellScoped', entries⟩ := Join.WellScoped.bind later replaces
    obtain ⟨kind, s, condition⟩ := j
    refine ⟨⟨kind, source', condition⟩ :: rest', ?_, .cons wellScoped ?_ ?_, List.cons_eq_cons.2 ⟨entry, entries⟩⟩
    · exact bind_eq_ok.2 ⟨_, bind_eq_ok.2 ⟨source', first, rfl⟩, bind_eq_ok.2 ⟨rest', second, rfl⟩⟩
    · rwa [entry]
    · rwa [entry]

theorem Union.WellScoped.bind {s : Option Select} (h : Union.WellScoped I s) (replaces : Replaces f I.literals held) :
    ∃ t, Select.mapLiteralTablesOption f s = .ok t ∧ Union.WellScoped (I.binding held) t ∧
      t.map Select.projection = s.map Select.projection := by
  match h with
  | .none => exact ⟨none, rfl, .none, rfl⟩
  | .some select =>
    obtain ⟨t, found, wellScoped, -, projection⟩ := Select.WellScoped.bind select replaces
    exact ⟨some t, bind_eq_ok.2 ⟨t, found, rfl⟩, .some wellScoped, congrArg some projection⟩

end

/-- The literal tables of a well-scoped statement can be replaced, which leaves it well scoped. -/
theorem Statement.WellScoped.bind {s : Statement} (h : Statement.WellScoped I s) (replaces : Replaces f I.literals held) :
    ∃ t, s.mapLiteralTables f = .ok t ∧ Statement.WellScoped (I.binding held) t := by
  cases h with
  | delete stored joined filter =>
    -- binding leaves labels and columns, so every view stays what it was
    obtain ⟨ks, found, wellScoped, entries⟩ := joined.bind replaces
    exact ⟨_, bind_eq_ok.2 ⟨ks, found, rfl⟩, .delete stored wellScoped (by rwa [entries])⟩
  | update stored joined filter assigns =>
    obtain ⟨ks, found, wellScoped, entries⟩ := joined.bind replaces
    exact ⟨_, bind_eq_ok.2 ⟨ks, found, rfl⟩, .update stored wellScoped (by rwa [entries]) (by rwa [entries])⟩
  | insertInto schema stored rows named names =>
    obtain ⟨t, found, wellScoped, -, projection⟩ := rows.bind replaces
    exact ⟨_, bind_eq_ok.2 ⟨t, found, rfl⟩,
      .insertInto schema stored wellScoped (by rwa [projection]) (by rwa [projection])⟩
  | @upsert table source inserted updated constraint conflictColumns columns stored rows inserts updates
      conflict =>
    cases source with
    | none =>
      exact ⟨_, bind_eq_ok.2 ⟨none, rfl, rfl⟩,
        .upsert constraint stored (fun _ h => nomatch h) inserts updates conflict⟩
    | some s =>
      obtain ⟨t, found, wellScoped, context, -⟩ := (rows s rfl).bind replaces
      refine ⟨_, bind_eq_ok.2 ⟨some t, bind_eq_ok.2 ⟨t, found, rfl⟩, rfl⟩,
        .upsert constraint stored ?_ ?_ updates conflict⟩
      · exact fun _ same => Option.some.inj same ▸ wellScoped
      · have inserts : Assigns (I.view (s.context I) []) columns inserted := inserts
        rwa [← context] at inserts
  | merge deleteUnmatched stored rows condition updates inserts =>
    obtain ⟨t, found, wellScoped, entry⟩ := rows.bind replaces
    exact ⟨_, bind_eq_ok.2 ⟨t, found, rfl⟩,
      .merge deleteUnmatched stored wellScoped (by rwa [entry]) (by rwa [entry]) (by rwa [entry])⟩
  | truncate stored => exact ⟨_, rfl, .truncate stored⟩
  | noop => exact ⟨_, rfl, .noop⟩

theorem Block.WellScoped.bind {b : Block} (h : Block.WellScoped I b) (replaces : Replaces f I.literals held) :
    ∃ c, b.mapLiteralTables f = .ok c ∧ Block.WellScoped (I.binding held) c := by
  cases h with
  | select rows =>
    obtain ⟨t, found, wellScoped, -⟩ := rows.bind replaces
    exact ⟨_, bind_eq_ok.2 ⟨t, found, rfl⟩, .select wellScoped⟩
  | affected write =>
    obtain ⟨t, found, wellScoped⟩ := write.bind replaces
    exact ⟨_, bind_eq_ok.2 ⟨t, found, rfl⟩, .affected wellScoped⟩

end

/-! ## Bound plans -/

section

variable {I : Interface} {ps : Parameters}

def LiteralTable.Awaits (ps : Parameters) (v : LiteralTable) : Prop :=
  ∃ parameter rows, v.rows = .pending parameter ∧ ps.rows parameter = .ok rows ∧
    ∀ r ∈ rows, r.length = v.columns.length

def LiteralTable.Holds (ps : Parameters) (v : LiteralTable) : Prop :=
  ∃ parameter count rows, v.rows = .resolved parameter count ∧ ps.rows parameter = .ok rows ∧
    ∀ r ∈ rows, r.length = v.columns.length

theorem resolve_replaces (ps : Parameters) :
    Replaces (LiteralTable.resolve ps) (LiteralTable.Awaits ps) (LiteralTable.Holds ps) := by
  rintro v ⟨parameter, rows, pending, found, wide⟩
  refine ⟨{ v with rows := .resolved parameter rows.length }, ?_, rfl, rfl, parameter, _, rows, rfl, found, wide⟩
  rw [LiteralTable.resolve, pending]
  refine bind_eq_ok.2 ⟨rows, found, ?_⟩
  rw [misfit?_eq_none.2 wide]
  rfl

theorem Statement.WellScoped.fallback {f : Fallback} (h : Statement.WellScoped I f.statement)
    (held : LiteralTable → Prop) : Statement.WellScoped (I.binding held) f.statement := by
  cases f with
  | skip => exact .noop
  | truncate table =>
    cases h with
    | truncate stored => exact .truncate stored

theorem emptyStatement?_wellScoped {feeds : List Feed}
    (h : ∀ feed ∈ feeds, Feed.WellScoped (I.binding (LiteralTable.Awaits ps)) feed) (held : LiteralTable → Prop) :
    ∃ s, emptyStatement? ps feeds = .ok s ∧ ∀ t ∈ s, Statement.WellScoped (I.binding held) t := by
  induction feeds with
  | nil => exact ⟨none, rfl, by simp⟩
  | cons feed rest ih =>
    obtain ⟨⟨⟨v, ⟨parameter, rows, pending, found, -⟩, rows'⟩, whenEmpty⟩, later⟩ := List.forall_mem_cons.1 h
    obtain rfl : parameter = feed.parameter := LiteralRows.pending.inj (pending.symm.trans rows')
    cases empty : rows.isEmpty with
    | true =>
      refine ⟨some feed.whenEmpty.statement, bind_eq_ok.2 ⟨rows, found, ?_⟩, ?_⟩
      · rw [empty]
        rfl
      · rintro _ ⟨⟩
        exact whenEmpty.fallback held
    | false =>
      obtain ⟨s, rest, wellScoped⟩ := ih later
      refine ⟨s, bind_eq_ok.2 ⟨rows, found, ?_⟩, wellScoped⟩
      rw [empty]
      exact rest

/-- Binding a well-scoped plan to parameters that have the rows of its collections gives a well-scoped block. -/
theorem Plan.WellScoped.bind {plan : Plan} (h : Plan.WellScoped (I.binding (LiteralTable.Awaits ps)) plan) :
    ∃ b, plan.bind ps = .ok b ∧ Block.WellScoped (I.binding (LiteralTable.Holds ps)) b := by
  obtain ⟨s, empty, fallback⟩ := emptyStatement?_wellScoped h.feeds (LiteralTable.Holds ps)
  cases s with
  | some s => exact ⟨_, bind_eq_ok.2 ⟨_, empty, rfl⟩, .affected (fallback s rfl)⟩
  | none =>
    obtain ⟨b, found, wellScoped⟩ := h.root.bind (resolve_replaces ps)
    exact ⟨b, bind_eq_ok.2 ⟨_, empty, found⟩, wellScoped⟩

end

end Setwise.Relational
