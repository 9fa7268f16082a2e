import Setwise.Proofs.ExposedInStep

/-!
Queries and their reducts, planned in step.

Two queries correspond when their lambdas reduce wherever planning comes to them and their collections hold the same
rows (`QueriesReduce`). Operator by operator, both are planned as selects whose clauses agree, with elements that show
the same (`query_beside`).
-/

set_option autoImplicit false

namespace Setwise.Planning

open Client Relational Execution

/-! ## Planned queries that agree -/

section

variable (m : Model) (S : Sides) (K : Ledger)

/-- The clauses of two selects that have no projection and no union of their own agree one by one. -/
structure SelectsMatch (s s' : Select) : Prop where
  source : SourcesAgree S K s.source s'.source
  joins : JoinsAgree S K s.joins s'.joins
  predicate : Option.Rel (ScalarsAgree S K) s.predicate s'.predicate
  groupBy : List.Forall₂ (ScalarsAgree S K) s.groupBy s'.groupBy
  having : Option.Rel (ScalarsAgree S K) s.having s'.having
  projection : s.projection = [] ∧ s'.projection = []
  union : s.union = none ∧ s'.union = none
  orderBy : List.Forall₂ (ItemsAgree S K) s.orderBy s'.orderBy
  limit : Option.Rel (ScalarsAgree S K) s.limit s'.limit
  offset : Option.Rel (ScalarsAgree S K) s.offset s'.offset

structure PlannedAgree (p p' : Planned) : Prop where
  select : SelectsMatch S K p.select p'.select
  shape : ShapesAlike m S K p.shape p'.shape
  operators : p.operators = p'.operators

def PlannedInStep (p p' : Planned) (v v' : Workspace) : Prop :=
  ∃ K', K <+: K' ∧ Beside K' v v' ∧ PlannedAgree m S K' p p'

end

section

variable {m : Model} {S : Sides} {K K' : Ledger} {s s' : Select}

theorem isSome_of_rel {α β : Type} {R : α → β → Prop} {a : Option α} {b : Option β} (h : Option.Rel R a b) :
    a.isSome = b.isSome := by
  cases h <;> rfl

theorem isEmpty_of_forall₂ {α β : Type} {R : α → β → Prop} {as : List α} {bs : List β} (h : List.Forall₂ R as bs) :
    as.isEmpty = bs.isEmpty := by
  cases h <;> rfl

theorem SelectsMatch.later (more : K <+: K') (h : SelectsMatch S K s s') : SelectsMatch S K' s s' where
  source := h.source.later more
  joins := h.joins.later more
  predicate := ScalarsAgree.laterOption more h.predicate
  groupBy := h.groupBy.imp fun _ _ => .later more
  having := ScalarsAgree.laterOption more h.having
  projection := h.projection
  union := h.union
  orderBy := h.orderBy.imp fun _ _ item => ⟨item.key.later more, item.descending⟩
  limit := ScalarsAgree.laterOption more h.limit
  offset := ScalarsAgree.laterOption more h.offset

theorem PlannedAgree.later (more : K <+: K') {p p' : Planned} (h : PlannedAgree m S K p p') : PlannedAgree m S K' p p' :=
  ⟨h.select.later more, h.shape.later more, h.operators⟩

theorem PlannedInStep.trans (more : K <+: K') {p p' : Planned} {v v' : Workspace}
    (h : PlannedInStep m S K' p p' v v') : PlannedInStep m S K p p' v v' := by
  obtain ⟨K'', later, rest⟩ := h
  exact ⟨K'', more.trans later, rest⟩

theorem SelectsMatch.bare {source source' : Source} (h : SourcesAgree S K source source') :
    SelectsMatch S K { source } { source := source' } :=
  ⟨h, .nil, .none, .nil, .none, ⟨rfl, rfl⟩, ⟨rfl, rfl⟩, .nil, .none, .none⟩

theorem SelectsMatch.clauses (h : SelectsMatch S K s s') {ps ps' : List Projection} (values : ProjectionsAgree S K ps ps')
    (union union' : Option Select) (plain : union.isSome = true → s.orderBy = [] ∧ s.limit = none ∧ s.offset = none) :
    ClausesAgree S K { s with projection := ps, union } { s' with projection := ps', union := union' } where
  predicate := .of_scalars h.predicate
  groupBy := h.groupBy
  having := .of_scalars h.having
  projection := values
  orderBy := h.orderBy
  limit := h.limit
  offset := h.offset
  plain := plain

theorem SelectsMatch.projected (h : SelectsMatch S K s s') {ps ps' : List Projection}
    (values : ProjectionsAgree S K ps ps') :
    SelectsAgree S K { s with projection := ps } { s' with projection := ps' } := by
  have alone : s.union.isSome = true → s.orderBy = [] ∧ s.limit = none ∧ s.offset = none := fun united => by
    rw [h.union.1] at united
    cases united
  refine .intro h.source h.joins (h.clauses values s.union s'.union alone) ?_
  rw [h.union.1, h.union.2]
  exact .none

theorem SelectsMatch.agree (h : SelectsMatch S K s s') : SelectsAgree S K s s' := by
  have values : ProjectionsAgree S K s.projection s'.projection := by
    rw [h.projection.1, h.projection.2]
    exact .nil
  cases s
  cases s'
  exact h.projected values

theorem SelectsMatch.united (h : SelectsMatch S K s s') {ps ps' : List Projection}
    (values : ProjectionsAgree S K ps ps') (plain : s.orderBy = [] ∧ s.limit = none ∧ s.offset = none)
    {r r' : Select} (other : SelectsAgree S K r r') :
    SelectsAgree S K { s with projection := ps, union := some r } { s' with projection := ps', union := some r' } :=
  .intro h.source h.joins (h.clauses values _ _ fun _ => plain) (.some other)

/-! ### What planning asks of selects -/

theorem SelectsMatch.isPaged (h : SelectsMatch S K s s') : s.isPaged = s'.isPaged := by
  unfold Select.isPaged
  rw [isSome_of_rel h.limit, isSome_of_rel h.offset]

theorem SelectsMatch.isClosed (h : SelectsMatch S K s s') : Planning.isClosed s = Planning.isClosed s' := by
  unfold Planning.isClosed
  rw [h.isPaged, h.union.1, h.union.2]

theorem SelectsMatch.isGrouped (h : SelectsMatch S K s s') : s.groupBy.isEmpty = s'.groupBy.isEmpty :=
  isEmpty_of_forall₂ h.groupBy

theorem SelectsMatch.isOrdered (h : SelectsMatch S K s s') : s.orderBy.isEmpty = s'.orderBy.isEmpty :=
  isEmpty_of_forall₂ h.orderBy

theorem JoinsAgree.isEmpty {js js' : List (Join Select)} (h : JoinsAgree S K js js') : js.isEmpty = js'.isEmpty := by
  cases h <;> rfl

theorem SelectsMatch.isBare (h : SelectsMatch S K s s') : s.isBare = s'.isBare := by
  have none {a b : Option Scalar} (h : Option.Rel (ScalarsAgree S K) a b) : a.isNone = b.isNone := by cases h <;> rfl
  unfold Select.isBare
  rw [JoinsAgree.isEmpty h.joins, none h.predicate, h.isGrouped, none h.having, h.projection.1, h.projection.2,
    h.union.1, h.union.2, h.isOrdered, none h.limit, none h.offset]

theorem SelectsMatch.addFilter (h : SelectsMatch S K s s') {c c' : Scalar} (condition : ScalarsAgree S K c c') :
    SelectsMatch S K (Planning.addFilter s c) (Planning.addFilter s' c') := by
  unfold Planning.addFilter
  rw [h.isGrouped]
  split
  next => exact { h with predicate := .some (.both h.predicate condition) }
  next => exact { h with having := .some (.both h.having condition) }

theorem SelectsMatch.joined (h : SelectsMatch S K s s') {source source' : Source}
    (sources : SourcesAgree S K source source') {on on' : Scalar} (condition : ScalarsAgree S K on on') :
    SelectsMatch S K { s with joins := s.joins ++ [⟨.inner, source, some on⟩] }
      { s' with joins := s'.joins ++ [⟨.inner, source', some on'⟩] } :=
  { h with joins := h.joins.append (.cons rfl sources (.of_scalars (.some condition)) .nil) }

end

/-! ## Scopes -/

section

variable {m : Model} {S : Sides} {K : Ledger}

theorem ScopesAlike.nil : ScopesAlike m S K [] [] :=
  fun _ _ _ _ => trivial

theorem ScopesAlike.cons (x : String) {s s' : Shape} {scope scope' : Scope} (first : ShapesAlike m S K s s')
    (rest : ScopesAlike m S K scope scope') : ScopesAlike m S K ((x, s) :: scope) ((x, s') :: scope') :=
  fun incoming f g alike => ⟨⟨rfl, first incoming f g alike⟩, rest incoming f g alike⟩

theorem ScopesAlike.zip {shapes shapes' : List Shape} (h : List.Forall₂ (ShapesAlike m S K) shapes shapes')
    (params : List String) : ScopesAlike m S K (params.zip shapes) (params.zip shapes') := by
  induction h generalizing params with
  | nil => simpa using ScopesAlike.nil
  | cons first _ ih =>
    cases params with
    | nil => exact .nil
    | cons x params => exact .cons x first (ih params)

end

/-! ## Operators -/

section

variable {m : Model} {S : Sides} {K : Ledger} {w w' v v' : Workspace} {subject subject' : Subject}

theorem wrap_beside (finite : Finite m) {s s' p p' : Planned} (beside : Beside K w w')
    (agree : PlannedAgree m S K s s') (run : Step.Yields (wrap m subject s) w p v)
    (run' : Step.Yields (wrap m subject' s') w' p' v') : PlannedInStep m S K p p' v v' := by
  simp only [wrap, Step.yields_bind, Step.yields_ofResult, Step.yields_pure] at run run'
  obtain ⟨label, _, new, ⟨shape, columns⟩, _, ⟨exposed, rfl⟩, rfl, rfl⟩ := run
  obtain ⟨label', _, new', ⟨shape', columns'⟩, _, ⟨exposed', rfl⟩, rfl, rfl⟩ := run'
  obtain rfl := beside.newLabel new new'
  obtain ⟨fresh, rfl⟩ := newLabel_yields new
  obtain ⟨-, rfl⟩ := newLabel_yields new'
  obtain ⟨n, covers, values, shows⟩ := Shape.expose_beside finite agree.shape exposed exposed'
  have entered := beside.lookup_new fresh n
  have more : K <+: K ++ [(label, n)] := List.prefix_append _ _
  refine ⟨_, more, beside.labelled label n, .bare (.subquery entered covers ?_), shows _ entered, agree.operators⟩
  exact (agree.select.projected values).later more

theorem wrapIf_beside (finite : Finite m) {needed needed' : Bool} (same : needed = needed') {s s' p p' : Planned}
    (beside : Beside K w w') (agree : PlannedAgree m S K s s') (run : Step.Yields (wrapIf m subject needed s) w p v)
    (run' : Step.Yields (wrapIf m subject' needed' s') w' p' v') : PlannedInStep m S K p p' v v' := by
  subst same
  cases needed with
  | true => exact wrap_beside finite beside agree run run'
  | false =>
    obtain ⟨rfl, rfl⟩ := Step.yields_pure.1 run
    obtain ⟨rfl, rfl⟩ := Step.yields_pure.1 run'
    exact ⟨K, List.prefix_refl _, beside, agree⟩

theorem asSource_beside (finite : Finite m) {s s' : Planned} {source source' : Source} {shape shape' : Shape}
    (beside : Beside K w w') (agree : PlannedAgree m S K s s')
    (run : Step.Yields (asSource m subject s) w (source, shape) v)
    (run' : Step.Yields (asSource m subject' s') w' (source', shape') v') :
    ∃ K', K <+: K' ∧ Beside K' v v' ∧ SourcesAgree S K' source source' ∧ ShapesAlike m S K' shape shape' := by
  simp only [asSource, Step.yields_bind, Step.yields_pure] at run run'
  obtain ⟨p, _, wrapped, same, rfl⟩ := run
  obtain ⟨rfl, rfl⟩ := Prod.mk.inj same
  obtain ⟨p', _, wrapped', same', rfl⟩ := run'
  obtain ⟨rfl, rfl⟩ := Prod.mk.inj same'
  have bare : (!s.select.isBare) = !s'.select.isBare := by rw [agree.select.isBare]
  obtain ⟨K', more, after, sources⟩ := wrapIf_beside finite bare beside agree wrapped wrapped'
  exact ⟨K', more, after, sources.select.source, sources.shape⟩

theorem against_beside (written : ∀ name, S.right.known name = none) {scope scope' : Scope} {e e' : Expr}
    (reduces : Reduces (filling m S.left.known scope scope') e e') (scopes : ScopesAlike m S K scope scope')
    (beside : Beside K w w') {s s' r r' : Select} (selects : SelectsMatch S K s s') {t t' : Shape}
    (run : Step.Yields (against s (expr m scope e)) w (t, r) v)
    (run' : Step.Yields (against s' (expr m scope' e')) w' (t', r') v') :
    ∃ K', K <+: K' ∧ Beside K' v v' ∧ SelectsMatch S K' r r' ∧ ShapesAlike m S K' t t' := by
  obtain ⟨inside, rfl⟩ := against_yields.1 run
  obtain ⟨inside', rfl⟩ := against_yields.1 run'
  obtain ⟨K', more, after, joins, alike⟩ :=
    expr_beside written reduces scopes (beside.withJoins s.joins s'.joins) selects.joins inside inside'
  exact ⟨K', more, after, { selects.later more with joins }, alike⟩

theorem against_scalar_beside (written : ∀ name, S.right.known name = none) {scope scope' : Scope} {e e' : Expr}
    (reduces : Reduces (filling m S.left.known scope scope') e e') (scopes : ScopesAlike m S K scope scope')
    (beside : Beside K w w') {s s' r r' : Select} (selects : SelectsMatch S K s s') {c c' : Scalar}
    (run : Step.Yields (against s (scalar m scope e)) w (c, r) v)
    (run' : Step.Yields (against s' (scalar m scope' e')) w' (c', r') v') :
    ∃ K', K <+: K' ∧ Beside K' v v' ∧ SelectsMatch S K' r r' ∧ ScalarsAgree S K' c c' := by
  obtain ⟨inside, rfl⟩ := against_yields.1 run
  obtain ⟨inside', rfl⟩ := against_yields.1 run'
  exact against_beside written reduces scopes beside selects (against_yields.2 ⟨scalar_yields.1 inside, rfl⟩)
    (against_yields.2 ⟨scalar_yields.1 inside', rfl⟩)

theorem standalone_beside (written : ∀ name, S.right.known name = none) {scope scope' : Scope} {e e' : Expr}
    (reduces : Reduces (filling m S.left.known scope scope') e e') (scopes : ScopesAlike m S K scope scope')
    (beside : Beside K w w') {t t' : Shape} (run : Step.Yields (standalone m scope subject e) w t v)
    (run' : Step.Yields (standalone m scope' subject' e') w' t' v') :
    ∃ K', K <+: K' ∧ Beside K' v v' ∧ ShapesAlike m S K' t t' := by
  obtain ⟨run, -⟩ := standalone_yields run
  obtain ⟨run', -⟩ := standalone_yields run'
  obtain ⟨K', more, after, -, alike⟩ := expr_beside written reduces scopes (beside.withJoins [] []) .nil run run'
  exact ⟨K', more, after, alike⟩

end

/-! ## Queries -/

/-- What the elements of two queries look like to lambdas at the same place, in front of subqueries or behind them. -/
def Elements (m : Model) (q q' : Query) (s s' : Shape) : Prop :=
  ∃ w p v w' p' v', Step.Yields (query m q) w p v ∧ Step.Yields (query m q') w' p' v' ∧
    (s = p.shape ∧ s' = p'.shape ∨ ∃ subject subject' label label' ps ps',
      p.shape.expose m subject label none [] = .ok (s, ps) ∧ p'.shape.expose m subject' label' none [] = .ok (s', ps'))

def Admits (args : List (Shape → Shape → Prop)) (pairs : List (Shape × Shape)) : Prop :=
  List.Forall₂ (fun P s => P s.1 s.2) args pairs

section

variable (m : Model) (known : String → Option Value) (B : Reduction → Expr → Expr → Prop) (H : String → String → Prop)

/-- The bodies of two lambdas are related, whatever elements the parameters may stand for. -/
structure LambdasMatch (args : List (Shape → Shape → Prop)) (l l' : Lambda) : Prop where
  params : l.params = l'.params
  body : ∀ pairs, Admits args pairs →
    B (filling m known (l.params.zip (pairs.map Prod.fst)) (l.params.zip (pairs.map Prod.snd))) l.body l'.body

/-- Two queries are made in the same way from lambdas whose bodies are related and from collections whose names
are. -/
inductive QueriesMatch : Query → Query → Prop
  | set (name : String) : QueriesMatch (.set name) (.set name)
  | rows {name name' : String} (fields : List String) (same : H name name') :
      QueriesMatch (.rows (.parameter name fields)) (.rows (.parameter name' fields))
  | filter {q q' : Query} {l l' : Lambda} (input : QueriesMatch q q')
      (predicate : LambdasMatch m known B [Elements m q q'] l l') : QueriesMatch (.filter q l) (.filter q' l')
  | map {q q' : Query} {l l' : Lambda} (input : QueriesMatch q q')
      (selector : LambdasMatch m known B [Elements m q q'] l l') : QueriesMatch (.map q l) (.map q' l')
  | join {q q' r r' : Query} {k k' l l' n n' : Lambda} (outer : QueriesMatch q q') (inner : QueriesMatch r r')
      (outerKey : LambdasMatch m known B [Elements m q q'] k k')
      (innerKey : LambdasMatch m known B [Elements m r r'] l l')
      (result : LambdasMatch m known B [Elements m q q', Elements m r r'] n n') :
      QueriesMatch (.join q r k l n) (.join q' r' k' l' n')
  | orderBy {q q' : Query} {l l' : Lambda} (input : QueriesMatch q q')
      (key : LambdasMatch m known B [Elements m q q'] l l') (descending : Bool) :
      QueriesMatch (.orderBy q l descending) (.orderBy q' l' descending)
  | take {q q' : Query} {e e' : Expr} (input : QueriesMatch q q') (count : B (filling m known [] []) e e') :
      QueriesMatch (.take q e) (.take q' e')
  | skip {q q' : Query} {e e' : Expr} (input : QueriesMatch q q') (count : B (filling m known [] []) e e') :
      QueriesMatch (.skip q e) (.skip q' e')
  | groupBy {q q' : Query} {l l' : Lambda} (input : QueriesMatch q q')
      (key : LambdasMatch m known B [Elements m q q'] l l') : QueriesMatch (.groupBy q l) (.groupBy q' l')
  | union {q q' r r' : Query} (left : QueriesMatch q q') (right : QueriesMatch r r') :
      QueriesMatch (.union q r) (.union q' r')

variable {m known B}

theorem LambdasMatch.one {l l' : Lambda} {P : Shape → Shape → Prop} (h : LambdasMatch m known B [P] l l')
    {s s' : Shape} (inside : P s s') : B (filling m known (l.params.zip [s]) (l.params.zip [s'])) l.body l'.body :=
  h.body [(s, s')] (.cons inside .nil)

theorem LambdasMatch.two {l l' : Lambda} {P Q : Shape → Shape → Prop} (h : LambdasMatch m known B [P, Q] l l')
    {s s' t t' : Shape} (first : P s s') (second : Q t t') :
    B (filling m known (l.params.zip [s, t]) (l.params.zip [s', t'])) l.body l'.body :=
  h.body [(s, s'), (t, t')] (.cons first (.cons second .nil))

end

/-- The body of one lambda reduces to that of the other one, where the captured values of the left side are known. -/
abbrev LambdasReduce (m : Model) (S : Sides) : List (Shape → Shape → Prop) → Lambda → Lambda → Prop :=
  LambdasMatch m S.left.known Reduces

/-- The lambdas of one query reduce to those of the other one, and its collections hold the same rows. -/
abbrev QueriesReduce (m : Model) (S : Sides) : Query → Query → Prop :=
  QueriesMatch m S.left.known Reduces (HoldSame S)

section

variable {m : Model} {S : Sides} {K : Ledger} {w w' v v' : Workspace} {subject subject' : Subject}

section

variable {q q' : Query} {s s' p p' : Planned} {u u' x x' : Workspace} (first : Step.Yields (query m q) w s v)
  (first' : Step.Yields (query m q') w' s' v')
include first first'

theorem Elements.planned : Elements m q q' s.shape s'.shape :=
  ⟨w, s, v, w', s', v', first, first', .inl ⟨rfl, rfl⟩⟩

theorem Elements.wrapIf {needed needed' : Bool} (same : needed = needed')
    (wrapped : Step.Yields (wrapIf m subject needed s) u p x)
    (wrapped' : Step.Yields (wrapIf m subject' needed' s') u' p' x') : Elements m q q' p.shape p'.shape := by
  subst same
  cases needed with
  | true =>
    obtain ⟨label, shape, columns, -, -, exposed, rfl⟩ := wrap_yields wrapped
    obtain ⟨label', shape', columns', -, -, exposed', rfl⟩ := wrap_yields wrapped'
    exact ⟨w, s, v, w', s', v', first, first', .inr ⟨_, _, _, _, _, _, exposed, exposed'⟩⟩
  | false =>
    obtain ⟨rfl, rfl⟩ := Step.yields_pure.1 wrapped
    obtain ⟨rfl, rfl⟩ := Step.yields_pure.1 wrapped'
    exact .planned first first'

theorem Elements.asSource (bare : s.select.isBare = s'.select.isBare) {source source' : Source} {shape shape' : Shape}
    (sourced : Step.Yields (asSource m subject s) u (source, shape) x)
    (sourced' : Step.Yields (asSource m subject' s') u' (source', shape') x') : Elements m q q' shape shape' := by
  obtain ⟨p, wrapped, -, rfl⟩ := asSource_yields sourced
  obtain ⟨p', wrapped', -, rfl⟩ := asSource_yields sourced'
  exact .wrapIf first first' (by rw [bare]) wrapped wrapped'

end

theorem columns_agree {label : String} (known : K.lookup label = some .same) (fields : List String) :
    ShapesAlike m S K (.record (fields.map fun c => (c, .scalar (.column label c))))
      (.record (fields.map fun c => (c, .scalar (.column label c)))) := by
  intro incoming f g alike
  unfold Shape.Alike
  induction fields with
  | nil => trivial
  | cons c rest ih => exact ⟨⟨rfl, valueOf_column_same known alike c⟩, ih⟩

theorem unite_label {l r p : Planned} (run : Step.Yields (unite m subject l r) w p v) :
    ∃ label, Step.Yields (newLabel "t") w label v ∧ p.select.source.label = label := by
  simp only [unite, Step.yields_bind, Step.yields_ofResult] at run
  obtain ⟨label, _, new, ⟨shape, columns⟩, _, ⟨-, rfl⟩, ⟨t, others⟩, _, ⟨-, rfl⟩, run⟩ := run
  split at run
  next =>
    obtain ⟨_, _, run, -⟩ := Step.yields_bind.1 run
    exact absurd run (Step.yields_fail _ _)
  next =>
    obtain ⟨rfl, rfl⟩ := Step.yields_pure.1 run
    exact ⟨label, new, rfl⟩

theorem unite_beside (finite : Finite m) {l l' r r' p p' : Planned} (beside : Beside K w w')
    (left : PlannedAgree m S K l l') (right : PlannedAgree m S K r r')
    (plain : l.select.orderBy = [] ∧ l.select.limit = none ∧ l.select.offset = none)
    (run : Step.Yields (unite m subject l r) w p v) (run' : Step.Yields (unite m subject' l' r') w' p' v') :
    PlannedInStep m S K p p' v v' := by
  obtain ⟨_, new, same⟩ := unite_label run
  obtain ⟨_, new', same'⟩ := unite_label run'
  have labels := beside.newLabel new new'
  obtain ⟨label, shape, columns, others, fresh, rfl, exposed, ⟨t, exposedRight⟩, -, rfl⟩ := unite_yields run
  obtain ⟨label', shape', columns', others', -, rfl, exposed', ⟨t', exposedRight'⟩, -, rfl⟩ := unite_yields run'
  obtain rfl : label = label' := same.trans (labels.trans same'.symm)
  obtain ⟨n, covers, values, shows⟩ := Shape.expose_beside finite left.shape exposed exposed'
  obtain ⟨-, -, valuesRight, -⟩ := Shape.expose_beside finite right.shape exposedRight exposedRight'
  have entered := beside.lookup_new fresh n
  have more : K <+: K ++ [(label, n)] := List.prefix_append _ _
  refine ⟨_, more, beside.labelled label n, .bare (.subquery entered covers ?_), shows _ entered, ?_⟩
  · exact (left.select.united values plain (right.select.projected valuesRight)).later more
  · rw [left.operators]

theorem wrapIf_plain {s p : Planned}
    (run : Step.Yields (wrapIf m subject (s.select.isPaged || !s.select.orderBy.isEmpty) s) w p v) :
    p.select.orderBy = [] ∧ p.select.limit = none ∧ p.select.offset = none := by
  refine of_wrapIf (P := fun t => t.orderBy = [] ∧ t.limit = none ∧ t.offset = none) (fun _ => ⟨rfl, rfl, rfl⟩)
    (fun unneeded => ?_) run
  simp only [Select.isPaged, Bool.or_eq_false_iff, Bool.not_eq_false', Option.isSome_eq_false_iff,
    Option.isNone_iff_eq_none, List.isEmpty_iff] at unneeded
  exact ⟨unneeded.2, unneeded.1.1, unneeded.1.2⟩

theorem key_beside (written : ∀ name, S.right.known name = none) {R : Shape → Shape → Prop} {l l' : Lambda}
    (reduces : LambdasReduce m S [R] l l') {t t' a a' : Shape} (related : R t t') (alike : ShapesAlike m S K t t')
    (beside : Beside K w w') {s s' r r' : Select} (selects : SelectsMatch S K s s')
    (run : Step.Yields (against s (expr m (l.params.zip [t]) l.body)) w (a, r) v)
    (run' : Step.Yields (against s' (expr m (l'.params.zip [t']) l'.body)) w' (a', r') v') :
    ∃ K', K <+: K' ∧ Beside K' v v' ∧ SelectsMatch S K' r r' ∧ ShapesAlike m S K' a a' := by
  rw [← reduces.params] at run'
  exact against_beside written (reduces.one related) (.zip (.cons alike .nil) l.params) beside selects run run'

theorem standaloneKey_beside (written : ∀ name, S.right.known name = none) {R : Shape → Shape → Prop} {l l' : Lambda}
    (reduces : LambdasReduce m S [R] l l') {t t' a a' : Shape} (related : R t t') (alike : ShapesAlike m S K t t')
    (beside : Beside K w w') (run : Step.Yields (standalone m (l.params.zip [t]) subject l.body) w a v)
    (run' : Step.Yields (standalone m (l'.params.zip [t']) subject' l'.body) w' a' v') :
    ∃ K', K <+: K' ∧ Beside K' v v' ∧ ShapesAlike m S K' a a' := by
  rw [← reduces.params] at run'
  exact standalone_beside written (reduces.one related) (.zip (.cons alike .nil) l.params) beside run run'

theorem joinOn_beside (written : ∀ name, S.right.known name = none) {P Q : Shape → Shape → Prop} {k k' l l' : Lambda}
    (outerKey : LambdasReduce m S [P] k k') (innerKey : LambdasReduce m S [Q] l l') {s s' : Planned}
    {source source' : Source} {shape shape' a a' b b' : Shape} {select select' : Select} {on on' : Scalar}
    {x x' : Workspace} (outers : P s.shape s'.shape) (inners : Q shape shape') (beside : Beside K w w')
    (agree : PlannedAgree m S K s s') (sources : SourcesAgree S K source source') (shapes : ShapesAlike m S K shape shape')
    (run : Step.Yields (against s.select (expr m (k.params.zip [s.shape]) k.body)) w (a, select) x)
    (run' : Step.Yields (against s'.select (expr m (k'.params.zip [s'.shape]) k'.body)) w' (a', select') x')
    (alone : Step.Yields (standalone m (l.params.zip [shape]) subject l.body) x b v)
    (alone' : Step.Yields (standalone m (l'.params.zip [shape']) subject' l'.body) x' b' v')
    (equality : Shape.equality m subject a b = .ok on) (equality' : Shape.equality m subject' a' b' = .ok on') :
    ∃ K', K <+: K' ∧ Beside K' v v' ∧
      SelectsMatch S K' { select with joins := select.joins ++ [⟨.inner, source, some on⟩] }
        { select' with joins := select'.joins ++ [⟨.inner, source', some on'⟩] } ∧
      List.Forall₂ (ShapesAlike m S K') [s.shape, shape] [s'.shape, shape'] := by
  obtain ⟨K₁, more₁, beside, selects, left⟩ :=
    key_beside written outerKey outers agree.shape beside agree.select run run'
  obtain ⟨K₂, more₂, beside, right⟩ :=
    standaloneKey_beside written innerKey inners (shapes.later more₁) beside alone alone'
  have condition := Shape.equality_agree (left.later more₂) right equality equality'
  have more := more₁.trans more₂
  exact ⟨K₂, more, beside, (selects.later more₂).joined (sources.later more) condition,
    .cons (agree.shape.later more) (.cons (shapes.later more) .nil)⟩

/-- Two queries that correspond are planned in step, as selects that match, with elements that show the same. -/
theorem query_beside (finite : Finite m) (written : ∀ name, S.right.known name = none) {q q' : Query}
    (h : QueriesReduce m S q q') {p p' : Planned} (beside : Beside K w w') (run : Step.Yields (query m q) w p v)
    (run' : Step.Yields (query m q') w' p' v') : PlannedInStep m S K p p' v v' := by
  -- the ledger grows with every label, and what agreed under the smaller ledger agrees under the larger one (`later`)
  induction h generalizing K w w' v v' p p' with
  | set name =>
    obtain ⟨e, t, known, -, new, rfl⟩ := set_yields run
    obtain ⟨e', t', known', -, new', rfl⟩ := set_yields run'
    obtain rfl := Option.some.inj (known.symm.trans known')
    obtain rfl := beside.newTable new new'
    obtain ⟨fresh, -, rfl⟩ := newTable_yields new
    obtain ⟨-, -, rfl⟩ := newTable_yields new'
    have entered := beside.lookup_new fresh .same
    refine ⟨_, List.prefix_append _ _, beside.labelled t.label .same, .bare (.table t entered), ?_, rfl⟩
    exact fun incoming f g alike => ⟨rfl, rfl, fun c _ => valueOf_column_same entered alike _⟩
  | rows fields same =>
    obtain ⟨label, new, rfl⟩ := rows_yields run
    obtain ⟨label', new', rfl⟩ := rows_yields run'
    obtain rfl := beside.newLabel new new'
    obtain ⟨fresh, rfl⟩ := newLabel_yields new
    obtain ⟨-, rfl⟩ := newLabel_yields new'
    have entered := beside.lookup_new fresh .same
    refine ⟨_, List.prefix_append _ _, beside.labelled label .same, .bare (.literal entered (.pending same)), ?_, rfl⟩
    exact columns_agree entered fields
  | @filter q q' l l' input predicate ih =>
    obtain ⟨s, _, t, _, condition, select, first, wrapped, inside, rfl⟩ := filter_yields run
    obtain ⟨s', _, t', _, condition', select', first', wrapped', inside', rfl⟩ := filter_yields run'
    obtain ⟨K₁, more₁, beside, agree⟩ := ih beside first first'
    -- selects that agree have the same clauses, so both operands are wrapped or neither is
    have needed := agree.select.isClosed
    obtain ⟨K₂, more₂, beside, agree⟩ := wrapIf_beside finite needed beside agree wrapped wrapped'
    have scopes := ScopesAlike.zip (.cons agree.shape .nil) l.params
    rw [← predicate.params] at inside'
    obtain ⟨K₃, more₃, beside, selects, same⟩ := against_scalar_beside written
      (predicate.one (.wrapIf first first' needed wrapped wrapped')) scopes beside agree.select inside inside'
    refine ⟨K₃, more₁.trans (more₂.trans more₃), beside, selects.addFilter same, agree.shape.later more₃, ?_⟩
    exact agree.operators
  | @map q q' l l' input selector ih =>
    obtain ⟨s, _, shape, select, first, inside, rfl⟩ := map_yields run
    obtain ⟨s', _, shape', select', first', inside', rfl⟩ := map_yields run'
    obtain ⟨K₁, more₁, beside, agree⟩ := ih beside first first'
    obtain ⟨K₂, more₂, beside, selects, alike⟩ :=
      key_beside written selector (.planned first first') agree.shape beside agree.select inside inside'
    exact ⟨K₂, more₁.trans more₂, beside, selects, alike, agree.operators⟩
  | @join q q' r r' k k' l l' n n' outer inner outerKey innerKey result ihOuter ihInner =>
    obtain ⟨s, _, t, _, i, _, source, shape, _, a, select, _, b, _, on, element, select', first, wrapped, second,
      sourced, reading, alone, equality, inside, rfl⟩ := join_yields run
    obtain ⟨s', _, t', _, i', _, source', shape', _, a', selected, _, b', _, on', element', selected', first', wrapped',
      second', sourced', reading', alone', equality', inside', rfl⟩ := join_yields run'
    obtain ⟨K₁, more₁, beside, agree⟩ := ihOuter beside first first'
    have needed := congrArg₂ (· || !·) agree.select.isClosed agree.select.isGrouped
    obtain ⟨K₂, more₂, beside, agree⟩ := wrapIf_beside finite needed beside agree wrapped wrapped'
    have outers := Elements.wrapIf first first' needed wrapped wrapped'
    obtain ⟨K₃, more₃, beside, inputs⟩ := ihInner beside second second'
    have inners := Elements.asSource second second' inputs.select.isBare sourced sourced'
    obtain ⟨K₄, more₄, beside, sources, shapes⟩ := asSource_beside finite beside inputs sourced sourced'
    have agree := agree.later (more₃.trans more₄)
    obtain ⟨K₅, more₅, beside, selects, both⟩ := joinOn_beside written outerKey innerKey outers inners beside agree
      sources shapes reading reading' alone alone' equality equality'
    rw [← result.params] at inside'
    obtain ⟨K₆, more₆, beside, selects, alike⟩ := against_beside written (result.two outers inners)
      (.zip both n.params) beside selects inside inside'
    refine ⟨K₆, ?_, beside, selects, alike, ?_⟩
    · exact more₁.trans (more₂.trans (more₃.trans (more₄.trans (more₅.trans more₆))))
    · rw [agree.operators]
  | @orderBy q q' l l' input key descending ih =>
    obtain ⟨s, _, t, _, k, select, keys, first, wrapped, inside, scalars, rfl⟩ := orderBy_yields run
    obtain ⟨s', _, t', _, k', select', keys', first', wrapped', inside', scalars', rfl⟩ := orderBy_yields run'
    obtain ⟨K₁, more₁, beside, agree⟩ := ih beside first first'
    have needed := agree.select.isClosed
    obtain ⟨K₂, more₂, beside, agree⟩ := wrapIf_beside finite needed beside agree wrapped wrapped'
    obtain ⟨K₃, more₃, beside, selects, alike⟩ := key_beside written key (.wrapIf first first' needed wrapped wrapped')
      agree.shape beside agree.select inside inside'
    have items := (Shape.scalars_agree alike scalars scalars').imp fun a b same => (⟨same, rfl⟩ : ItemsAgree S K₃ ⟨a, descending⟩ ⟨b, descending⟩)
    refine ⟨K₃, more₁.trans (more₂.trans more₃), beside, { selects with orderBy := ?_ }, agree.shape.later more₃, ?_⟩
    · exact List.forall₂_map_left_iff.2 (List.forall₂_map_right_iff.2 items)
    · rw [agree.operators]
  | @take q q' e e' input count ih =>
    obtain ⟨s, _, t, _, limit, select, first, wrapped, inside, rfl⟩ := take_yields run
    obtain ⟨s', _, t', _, limit', select', first', wrapped', inside', rfl⟩ := take_yields run'
    obtain ⟨K₁, more₁, beside, agree⟩ := ih beside first first'
    have needed : (s.select.limit.isSome || s.select.union.isSome) = (s'.select.limit.isSome || s'.select.union.isSome) := by
      rw [isSome_of_rel agree.select.limit, agree.select.union.1, agree.select.union.2]
    obtain ⟨K₂, more₂, beside, agree⟩ := wrapIf_beside finite needed beside agree wrapped wrapped'
    obtain ⟨K₃, more₃, beside, selects, same⟩ := against_scalar_beside written count .nil beside agree.select inside inside'
    refine ⟨K₃, more₁.trans (more₂.trans more₃), beside, { selects with limit := .some same }, agree.shape.later more₃, ?_⟩
    rw [agree.operators]
  | @skip q q' e e' input count ih =>
    obtain ⟨s, _, t, _, offset, select, first, wrapped, inside, rfl⟩ := skip_yields run
    obtain ⟨s', _, t', _, offset', select', first', wrapped', inside', rfl⟩ := skip_yields run'
    obtain ⟨K₁, more₁, beside, agree⟩ := ih beside first first'
    obtain ⟨K₂, more₂, beside, agree⟩ := wrapIf_beside finite agree.select.isClosed beside agree wrapped wrapped'
    obtain ⟨K₃, more₃, beside, selects, same⟩ := against_scalar_beside written count .nil beside agree.select inside inside'
    refine ⟨K₃, more₁.trans (more₂.trans more₃), beside, { selects with offset := .some same }, agree.shape.later more₃, ?_⟩
    rw [agree.operators]
  | @groupBy q q' l l' input key ih =>
    obtain ⟨s, _, t, _, k, select, keys, first, wrapped, inside, scalars, rfl⟩ := groupBy_yields run
    obtain ⟨s', _, t', _, k', select', keys', first', wrapped', inside', scalars', rfl⟩ := groupBy_yields run'
    obtain ⟨K₁, more₁, beside, agree⟩ := ih beside first first'
    have needed := congrArg₂ (· || !·) agree.select.isClosed agree.select.isGrouped
    obtain ⟨K₂, more₂, beside, agree⟩ := wrapIf_beside finite needed beside agree wrapped wrapped'
    obtain ⟨K₃, more₃, beside, selects, alike⟩ := key_beside written key (.wrapIf first first' needed wrapped wrapped')
      agree.shape beside agree.select inside inside'
    refine ⟨K₃, more₁.trans (more₂.trans more₃), beside,
      { selects with groupBy := Shape.scalars_agree alike scalars scalars', orderBy := .nil }, alike, ?_⟩
    rw [agree.operators]
  | union left right ihLeft ihRight =>
    obtain ⟨l, _, r, _, lt, _, rt, _, first, second, wrapped, wrappedRight, united⟩ := union_yields run
    obtain ⟨l', _, r', _, lt', _, rt', _, first', second', wrapped', wrappedRight', united'⟩ := union_yields run'
    obtain ⟨K₁, more₁, beside, lefts⟩ := ihLeft beside first first'
    obtain ⟨K₂, more₂, beside, rights⟩ := ihRight beside second second'
    have lefts := lefts.later more₂
    have needed := congrArg₂ (· || !·) lefts.select.isPaged lefts.select.isOrdered
    obtain ⟨K₃, more₃, beside, lefts⟩ := wrapIf_beside finite needed beside lefts wrapped wrapped'
    have rights := rights.later more₃
    have needed := congrArg₂ (· || !·) rights.select.isPaged rights.select.isOrdered
    obtain ⟨K₄, more₄, beside, rights⟩ := wrapIf_beside finite needed beside rights wrappedRight wrappedRight'
    have results := unite_beside finite beside (lefts.later more₄) rights (wrapIf_plain wrapped) united united'
    exact results.trans (more₁.trans (more₂.trans (more₃.trans more₄)))

end

end Setwise.Planning
