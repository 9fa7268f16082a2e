import Mathlib.Data.List.Forall2
import Setwise.Proofs.Arrangement
import Setwise.Proofs.Pruning
import Setwise.Relational.Binding

/-!
Selects that agree.

Two selects over the same tables, each with parameters of its own, agree when their sources have the same labels
and the expressions of their clauses have equal values in frames that show the same rows. A ledger says for every
label whether the columns behind it have the same names on both sides. Pruning the filters and binding the
parameters keeps selects in agreement (`SelectsAgree.prune`, `SelectsAgree.bind`).
-/

set_option autoImplicit false

namespace Setwise.Execution

open Relational Planning

/-! ## Frames that show the same rows -/

inductive Naming where
  | same
  /-- Both sources show one column, each under a name of its own. -/
  | single (left right : String)
  /-- No column is read. -/
  | unread

abbrev Ledger := List (String × Naming)

def Naming.Fits : Naming → List String → List String → Prop
  | same, cs, cs' => cs = cs'
  | single left right, cs, cs' => cs = [left] ∧ cs' = [right]
  | unread, cs, cs' => cs.length = cs'.length

namespace Ledger

theorem lookup_of_prefix {K K' : Ledger} (later : K <+: K') {label : String} {n : Naming}
    (found : K.lookup label = some n) : K'.lookup label = some n := by
  obtain ⟨more, rfl⟩ := later
  induction K with
  | nil => cases found
  | cons entry rest ih =>
    obtain ⟨other, n'⟩ := entry
    rw [List.cons_append, List.lookup_cons]
    rw [List.lookup_cons] at found
    cases same : label == other with
    | true => simpa [same] using found
    | false => exact ih (by simpa [same] using found)

theorem lookup_new {K : Ledger} {label : String} (new : label ∉ K.map Prod.fst) (n : Naming) :
    (K ++ [(label, n)]).lookup label = some n := by
  induction K with
  | nil => simp
  | cons entry rest ih =>
    obtain ⟨other, n'⟩ := entry
    simp only [List.map_cons, List.mem_cons, not_or] at new
    rw [List.cons_append, List.lookup_cons, beq_false_of_ne new.1]
    exact ih new.2

end Ledger

/-- Two rows of sources under one label have the same values, in columns that are as the ledger says. -/
structure VisibleAlike (K : Ledger) (b b' : Visible) : Prop where
  label : b.label = b'.label
  values : b.values = b'.values
  columns : ∀ n ∈ K.lookup b.label, n.Fits b.columns b'.columns

def FrameAlike (K : Ledger) : Frame → Frame → Prop :=
  List.Forall₂ (VisibleAlike K)

theorem FrameAlike.earlier {K K' : Ledger} (later : K <+: K') {f g : Frame} (h : FrameAlike K' f g) :
    FrameAlike K f g :=
  h.imp fun _ _ alike => ⟨alike.label, alike.values, fun n found => alike.columns n (Ledger.lookup_of_prefix later found)⟩

theorem FrameAlike.values {K : Ledger} {f g : Frame} (h : FrameAlike K f g) :
    f.flatMap Visible.values = g.flatMap Visible.values := by
  induction h with
  | nil => rfl
  | cons first _ ih => rw [List.flatMap_cons, List.flatMap_cons, first.values, ih]

theorem FrameAlike.find? {K : Ledger} {f g : Frame} (h : FrameAlike K f g) (label : String) :
    f.find? (fun b => b.label == label) = none ∧ g.find? (fun b => b.label == label) = none ∨
      ∃ b b', f.find? (fun b => b.label == label) = some b ∧ g.find? (fun b => b.label == label) = some b' ∧
        b.label = label ∧ VisibleAlike K b b' := by
  induction h with
  | nil => exact .inl ⟨rfl, rfl⟩
  | @cons b b' f g first _ ih =>
    rw [List.find?_cons, List.find?_cons, ← first.label]
    cases same : b.label == label with
    | true => exact .inr ⟨b, b', rfl, rfl, beq_iff_eq.1 same, first⟩
    | false => exact ih

section

variable {K : Ledger} {env env' : Environment} {f g : Frame}

theorem valueOf_column_same {label : String} (known : K.lookup label = some .same) (h : FrameAlike K f g)
    (name : String) : valueOf env f (.column label name) = valueOf env' g (.column label name) := by
  unfold valueOf eval
  rcases h.find? label with ⟨missing, missing'⟩ | ⟨b, b', found, found', rfl, alike⟩
  · rw [missing, missing']
  · have columns : b.columns = b'.columns := alike.columns _ known
    rw [found, found']
    dsimp only
    rw [columns, alike.values]

theorem valueOf_column_single {label left right : String} (known : K.lookup label = some (.single left right))
    (h : FrameAlike K f g) : valueOf env f (.column label left) = valueOf env' g (.column label right) := by
  unfold valueOf eval
  rcases h.find? label with ⟨missing, missing'⟩ | ⟨b, b', found, found', rfl, alike⟩
  · rw [missing, missing']
    rfl
  · obtain ⟨columns, columns'⟩ := alike.columns _ known
    rw [found, found']
    dsimp only
    rw [columns, columns', alike.values, columnValue, columnValue]
    simp only [List.findIdx?_cons, beq_self_eq_true, if_true]
    cases b'.values[0]? <;> rfl

end

/-! ## Agreement -/

structure Sides where
  left : Parameters
  right : Parameters

def HoldSame (S : Sides) (name name' : String) : Prop :=
  ∀ rows rows', S.left.rows name = .ok rows → S.right.rows name' = .ok rows' → rows = rows'

/-- Two literal tables have the same columns and, once they are bound, the same rows. -/
inductive TablesAgree (S : Sides) : LiteralTable → LiteralTable → Prop
  | pending {label : String} {columns : List String} {name name' : String} (same : HoldSame S name name') :
      TablesAgree S ⟨label, columns, .pending name⟩ ⟨label, columns, .pending name'⟩
  | resolved {label : String} {columns : List String} {name name' : String} {rows : List Row}
      (held : S.left.rows name = .ok rows) (held' : S.right.rows name' = .ok rows) :
      TablesAgree S ⟨label, columns, .resolved name rows.length⟩ ⟨label, columns, .resolved name' rows.length⟩

def Naming.Covers (n : Naming) (ps ps' : List Projection) : Prop :=
  match n with
  | same => ps.map Projection.name = ps'.map Projection.name ∧ ps ≠ []
  | single left right => ps.map Projection.name = [left] ∧ ps'.map Projection.name = [right]
  | unread => ps.length = ps'.length

section

variable (S : Sides) (K : Ledger)

def ScalarsAgree (a b : Scalar) : Prop :=
  ∀ incoming f g, FrameAlike K f g → valueOf ⟨S.left, incoming⟩ f a = valueOf ⟨S.right, incoming⟩ g b

def ConditionsAgree (c d : Option Scalar) : Prop :=
  ∀ incoming f g, FrameAlike K f g → passes ⟨S.left, incoming⟩ c f = passes ⟨S.right, incoming⟩ d g

structure ItemsAgree (i j : OrderItem) : Prop where
  key : ScalarsAgree S K i.key j.key
  descending : i.descending = j.descending

def ProjectionsAgree (ps ps' : List Projection) : Prop :=
  List.Forall₂ (ScalarsAgree S K) (ps.map Projection.value) (ps'.map Projection.value)

/-- The clauses of two selects agree. Where there is a union, neither select is ordered or paged. -/
structure ClausesAgree (s s' : Select) : Prop where
  predicate : ConditionsAgree S K s.predicate s'.predicate
  groupBy : List.Forall₂ (ScalarsAgree S K) s.groupBy s'.groupBy
  having : ConditionsAgree S K s.having s'.having
  projection : ProjectionsAgree S K s.projection s'.projection
  orderBy : List.Forall₂ (ItemsAgree S K) s.orderBy s'.orderBy
  limit : Option.Rel (ScalarsAgree S K) s.limit s'.limit
  offset : Option.Rel (ScalarsAgree S K) s.offset s'.offset
  plain : s.union.isSome = true → s.orderBy = [] ∧ s.limit = none ∧ s.offset = none

mutual

inductive SelectsAgree : Select → Select → Prop
  | intro {s s' : Select} (source : SourcesAgree s.source s'.source) (joins : JoinsAgree s.joins s'.joins)
      (clauses : ClausesAgree S K s s') (union : UnionsAgree s.union s'.union) : SelectsAgree s s'

inductive SourcesAgree : RowSource Select → RowSource Select → Prop
  | table (t : StoredTable) (known : K.lookup t.label = some .same) : SourcesAgree (.table t) (.table t)
  | literal {v v' : LiteralTable} (known : K.lookup v.label = some .same) (tables : TablesAgree S v v') :
      SourcesAgree (.literal v) (.literal v')
  | subquery {s s' : Select} {label : String} {n : Naming} (known : K.lookup label = some n)
      (covers : n.Covers s.projection s'.projection) (select : SelectsAgree s s') :
      SourcesAgree (.subquery s label) (.subquery s' label)

inductive JoinsAgree : List (Join Select) → List (Join Select) → Prop
  | nil : JoinsAgree [] []
  | cons {j j' : Join Select} {js js' : List (Join Select)} (kind : j.kind = j'.kind)
      (source : SourcesAgree j.source j'.source) (on : ConditionsAgree S K j.on j'.on) (rest : JoinsAgree js js') :
      JoinsAgree (j :: js) (j' :: js')

inductive UnionsAgree : Option Select → Option Select → Prop
  | none : UnionsAgree none none
  | some {s s' : Select} (select : SelectsAgree s s') : UnionsAgree (some s) (some s')

end

end

variable {S : Sides} {K K' : Ledger}

/-! ## Conditions and joins -/

theorem ScalarsAgree.binary {a a' b b' : Scalar} (left : ScalarsAgree S K a a') (op : Operator)
    (right : ScalarsAgree S K b b') : ScalarsAgree S K (.binary a op b) (.binary a' op b') := by
  intro incoming f g alike
  rw [valueOf_binary, valueOf_binary, left incoming f g alike, right incoming f g alike]

theorem ScalarsAgree.both {c c' : Option Scalar} (before : Option.Rel (ScalarsAgree S K) c c') {e e' : Scalar}
    (h : ScalarsAgree S K e e') : ScalarsAgree S K (Scalar.both c e) (Scalar.both c' e') := by
  cases before with
  | none => exact h
  | some left => exact left.binary .and h

theorem ConditionsAgree.of_scalars {c c' : Option Scalar} (h : Option.Rel (ScalarsAgree S K) c c') :
    ConditionsAgree S K c c' := by
  intro incoming f g alike
  cases h with
  | none => rfl
  | some agree => rw [passes_some, passes_some, agree incoming f g alike]

theorem JoinsAgree.append {js js' ks ks' : List (Join Select)} (h : JoinsAgree S K js js') (more : JoinsAgree S K ks ks') :
    JoinsAgree S K (js ++ ks) (js' ++ ks') := by
  match h with
  | .nil => exact more
  | .cons kind source on rest => exact .cons kind source on (JoinsAgree.append rest more)

/-! ## Later ledgers -/

theorem ScalarsAgree.later (more : K <+: K') {a b : Scalar} (h : ScalarsAgree S K a b) : ScalarsAgree S K' a b :=
  fun incoming f g alike => h incoming f g (alike.earlier more)

theorem ScalarsAgree.laterOption (more : K <+: K') {a b : Option Scalar} (h : Option.Rel (ScalarsAgree S K) a b) :
    Option.Rel (ScalarsAgree S K') a b := by
  cases h with
  | some agree => exact .some (agree.later more)
  | none => exact .none

theorem ConditionsAgree.later (more : K <+: K') {c d : Option Scalar} (h : ConditionsAgree S K c d) :
    ConditionsAgree S K' c d :=
  fun incoming f g alike => h incoming f g (alike.earlier more)

theorem ClausesAgree.later (more : K <+: K') {s s' : Select} (h : ClausesAgree S K s s') : ClausesAgree S K' s s' where
  predicate := h.predicate.later more
  groupBy := h.groupBy.imp fun _ _ => .later more
  having := h.having.later more
  projection := h.projection.imp fun _ _ => .later more
  orderBy := h.orderBy.imp fun _ _ item => ⟨item.key.later more, item.descending⟩
  limit := ScalarsAgree.laterOption more h.limit
  offset := ScalarsAgree.laterOption more h.offset
  plain := h.plain

mutual

theorem SelectsAgree.later (more : K <+: K') {s s' : Select} (h : SelectsAgree S K s s') : SelectsAgree S K' s s' := by
  match h with
  | .intro source joins clauses union =>
    exact .intro (source.later more) (joins.later more) (clauses.later more) (union.later more)

theorem SourcesAgree.later (more : K <+: K') {s s' : Source} (h : SourcesAgree S K s s') : SourcesAgree S K' s s' := by
  match h with
  | .table t known => exact .table t (Ledger.lookup_of_prefix more known)
  | .literal known tables => exact .literal (Ledger.lookup_of_prefix more known) tables
  | .subquery known covers select => exact .subquery (Ledger.lookup_of_prefix more known) covers (select.later more)

theorem JoinsAgree.later (more : K <+: K') {js js' : List (Join Select)} (h : JoinsAgree S K js js') :
    JoinsAgree S K' js js' := by
  match h with
  | .nil => exact .nil
  | .cons kind source on rest => exact .cons kind (source.later more) (on.later more) (rest.later more)

theorem UnionsAgree.later (more : K <+: K') {s s' : Option Select} (h : UnionsAgree S K s s') :
    UnionsAgree S K' s s' := by
  match h with
  | .none => exact .none
  | .some select => exact .some (select.later more)

end

/-! ## Pruned selects -/

theorem ConditionsAgree.prune {c d : Option Scalar} (h : ConditionsAgree S K c d) :
    ConditionsAgree S K (c.bind Scalar.prune) (d.bind Scalar.prune) := by
  intro incoming f g alike
  rw [passes_pruned, passes_pruned]
  exact h incoming f g alike

mutual

/-- Pruning their filters keeps selects in agreement. -/
theorem SelectsAgree.prune {s s' : Select} (h : SelectsAgree S K s s') : SelectsAgree S K s.prune s'.prune := by
  match h with
  | @SelectsAgree.intro _ _ s s' source joins clauses union =>
    -- The parts come first: no recursion is seen to be structural behind `cases s`.
    have source := source.prune
    have joins := joins.prune
    have pruned := union.prune
    cases s
    cases s'
    refine .intro source joins ?_ pruned
    refine { clauses with predicate := clauses.predicate.prune, having := clauses.having.prune, plain := fun united => ?_ }
    refine clauses.plain ?_
    cases union with
    | none => cases united
    | some => rfl

theorem SourcesAgree.prune {s s' : Source} (h : SourcesAgree S K s s') :
    SourcesAgree S K (Source.prune s) (Source.prune s') := by
  match h with
  | .table t known => exact .table t known
  | .literal known tables => exact .literal known tables
  | .subquery known covers select =>
    refine .subquery known ?_ select.prune
    rwa [prune_projection, prune_projection]

theorem JoinsAgree.prune {js js' : List (Join Select)} (h : JoinsAgree S K js js') :
    JoinsAgree S K (Join.pruneAll js) (Join.pruneAll js') := by
  match h with
  | .nil => exact .nil
  | @JoinsAgree.cons _ _ j j' _ _ kind source on rest =>
    have source := source.prune
    have rest := rest.prune
    cases j
    cases j'
    exact .cons kind source on rest

theorem UnionsAgree.prune {s s' : Option Select} (h : UnionsAgree S K s s') :
    UnionsAgree S K (Select.pruneOption s) (Select.pruneOption s') := by
  match h with
  | .none => exact .none
  | .some select => exact .some select.prune

end

/-! ## Bound selects -/

theorem resolve_pending {ps : Parameters} {label : String} {columns : List String} {name : String} {w : LiteralTable}
    (bound : LiteralTable.resolve ps ⟨label, columns, .pending name⟩ = .ok w) :
    ∃ rows, ps.rows name = .ok rows ∧ w = ⟨label, columns, .resolved name rows.length⟩ := by
  obtain ⟨rows, held, bound⟩ := bind_eq_ok.1 bound
  split at bound
  next => cases bound
  next => exact ⟨rows, held, (pure_eq_ok.1 bound).symm⟩

theorem TablesAgree.resolve {v v' w w' : LiteralTable} (h : TablesAgree S v v') (bound : v.resolve S.left = .ok w)
    (bound' : v'.resolve S.right = .ok w') : TablesAgree S w w' ∧ w.label = v.label := by
  cases h with
  | pending same =>
    obtain ⟨rows, held, rfl⟩ := resolve_pending bound
    obtain ⟨rows', held', rfl⟩ := resolve_pending bound'
    obtain rfl := same rows rows' held held'
    exact ⟨.resolved held held', rfl⟩
  | resolved held held' =>
    obtain rfl := Except.ok.inj bound
    obtain rfl := Except.ok.inj bound'
    exact ⟨.resolved held held', rfl⟩

mutual

/-- Binding their parameters keeps selects in agreement. -/
theorem SelectsAgree.bind {s s' t t' : Select} (h : SelectsAgree S K s s')
    (bound : s.mapLiteralTables (LiteralTable.resolve S.left) = .ok t)
    (bound' : s'.mapLiteralTables (LiteralTable.resolve S.right) = .ok t') :
    SelectsAgree S K t t' ∧ t.projection = s.projection ∧ t'.projection = s'.projection := by
  match h with
  | @SelectsAgree.intro _ _ s s' source joins clauses union =>
    have sources := fun t t' => @SourcesAgree.bind s.source s'.source t t' source
    have joins := fun ks ks' => @JoinsAgree.bind s.joins s'.joins ks ks' joins
    have unions := fun t t' => @UnionsAgree.bind s.union s'.union t t' union
    cases s
    cases s'
    obtain ⟨first, here, bound⟩ := bind_eq_ok.1 bound
    obtain ⟨more, behind, bound⟩ := bind_eq_ok.1 bound
    obtain ⟨other, beside, bound⟩ := bind_eq_ok.1 bound
    obtain rfl := pure_eq_ok.1 bound
    obtain ⟨first', here', bound'⟩ := bind_eq_ok.1 bound'
    obtain ⟨more', behind', bound'⟩ := bind_eq_ok.1 bound'
    obtain ⟨other', beside', bound'⟩ := bind_eq_ok.1 bound'
    obtain rfl := pure_eq_ok.1 bound'
    obtain ⟨unions, exist⟩ := unions _ _ beside beside'
    refine ⟨.intro (sources _ _ here here') (joins _ _ behind behind') ?_ unions, rfl, rfl⟩
    exact { clauses with plain := fun united => clauses.plain (exist.symm.trans united) }

theorem SourcesAgree.bind {s s' t t' : Source} (h : SourcesAgree S K s s')
    (bound : Source.mapLiteralTables (LiteralTable.resolve S.left) s = .ok t)
    (bound' : Source.mapLiteralTables (LiteralTable.resolve S.right) s' = .ok t') : SourcesAgree S K t t' := by
  match h with
  | .table u known =>
    obtain rfl := Except.ok.inj bound
    obtain rfl := Except.ok.inj bound'
    exact .table u known
  | .literal known tables =>
    obtain ⟨v, resolved, bound⟩ := bind_eq_ok.1 bound
    obtain rfl := pure_eq_ok.1 bound
    obtain ⟨v', resolved', bound'⟩ := bind_eq_ok.1 bound'
    obtain rfl := pure_eq_ok.1 bound'
    obtain ⟨tables, label⟩ := tables.resolve resolved resolved'
    exact .literal (by rwa [label]) tables
  | .subquery known covers select =>
    obtain ⟨u, inside, bound⟩ := bind_eq_ok.1 bound
    obtain rfl := pure_eq_ok.1 bound
    obtain ⟨u', inside', bound'⟩ := bind_eq_ok.1 bound'
    obtain rfl := pure_eq_ok.1 bound'
    obtain ⟨agree, projection, projection'⟩ := select.bind inside inside'
    exact .subquery known (by rwa [projection, projection']) agree

theorem JoinsAgree.bind {js js' ks ks' : List (Join Select)} (h : JoinsAgree S K js js')
    (bound : Join.mapLiteralTablesAll (LiteralTable.resolve S.left) js = .ok ks)
    (bound' : Join.mapLiteralTablesAll (LiteralTable.resolve S.right) js' = .ok ks') : JoinsAgree S K ks ks' := by
  match h with
  | .nil =>
    obtain rfl := Except.ok.inj bound
    obtain rfl := Except.ok.inj bound'
    exact .nil
  | @JoinsAgree.cons _ _ j j' _ _ kind source on rest =>
    have sources := fun t t' => @SourcesAgree.bind j.source j'.source t t' source
    cases j
    cases j'
    obtain ⟨k, first, bound⟩ := bind_eq_ok.1 bound
    obtain ⟨source₁, here, first⟩ := bind_eq_ok.1 first
    obtain rfl := pure_eq_ok.1 first
    obtain ⟨ks, later, bound⟩ := bind_eq_ok.1 bound
    obtain rfl := pure_eq_ok.1 bound
    obtain ⟨k', first', bound'⟩ := bind_eq_ok.1 bound'
    obtain ⟨source₂, here', first'⟩ := bind_eq_ok.1 first'
    obtain rfl := pure_eq_ok.1 first'
    obtain ⟨ks', later', bound'⟩ := bind_eq_ok.1 bound'
    obtain rfl := pure_eq_ok.1 bound'
    exact .cons kind (sources _ _ here here') on (rest.bind later later')

theorem UnionsAgree.bind {s s' t t' : Option Select} (h : UnionsAgree S K s s')
    (bound : Select.mapLiteralTablesOption (LiteralTable.resolve S.left) s = .ok t)
    (bound' : Select.mapLiteralTablesOption (LiteralTable.resolve S.right) s' = .ok t') :
    UnionsAgree S K t t' ∧ t.isSome = s.isSome := by
  match h with
  | .none =>
    obtain rfl := Except.ok.inj bound
    obtain rfl := Except.ok.inj bound'
    exact ⟨.none, rfl⟩
  | .some select =>
    obtain ⟨u, inside, bound⟩ := bind_eq_ok.1 bound
    obtain rfl := pure_eq_ok.1 bound
    obtain ⟨u', inside', bound'⟩ := bind_eq_ok.1 bound'
    obtain rfl := pure_eq_ok.1 bound'
    exact ⟨.some (select.bind inside inside').1, rfl⟩

end

end Setwise.Execution
