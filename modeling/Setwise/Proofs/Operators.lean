import Setwise.Planning.Query
import Setwise.Proofs.Members

/-!
What planning a query does, operator by operator, and what planning an expression does, form by form.

Each lemma takes a successful run of the planner apart into the runs of its parts and what becomes of their
results.
-/

set_option autoImplicit false

namespace Setwise.Planning

open Client Relational

/-! ## Lambdas -/

theorem against_yields {α : Type} {s t : Select} {x : Step α} {a : α} {w w' : Workspace} :
    Step.Yields (against s x) w (a, t) w' ↔
      Step.Yields x { w with joins := s.joins } a w' ∧ t = { s with joins := w'.joins } := by
  simp only [against, Step.yields_bind, Step.yields_modify, Step.yields_get, Step.yields_pure]
  constructor
  · rintro ⟨_, _, rfl, b, v, run, _, _, ⟨rfl, rfl⟩, same, rfl⟩
    obtain ⟨rfl, rfl⟩ := Prod.mk.inj same
    exact ⟨run, rfl⟩
  · rintro ⟨run, rfl⟩
    exact ⟨⟨⟩, _, rfl, a, w', run, w', w', ⟨rfl, rfl⟩, rfl, rfl⟩

theorem scopeOf_yields {l : Lambda} {args : List Shape} {scope : Scope} {w w' : Workspace}
    (h : Step.Yields (scopeOf l args) w scope w') : scope = l.params.zip args ∧ w = w' := by
  unfold scopeOf at h
  split at h
  next => exact (Step.yields_pure.1 h).imp_left Eq.symm
  next => exact absurd h (Step.yields_fail _ _)

theorem asScalar_yields {whole : Expr} {s : Shape} {c : Scalar} {w w' : Workspace} :
    Step.Yields (asScalar whole s) w c w' ↔ s = .scalar c ∧ w = w' := by
  cases s with
  | scalar d => simp [asScalar]
  | entity | record | grouping | excluded => simp [asScalar]

theorem scalar_yields {m : Model} {scope : Scope} {e : Expr} {c : Scalar} {w w' : Workspace} :
    Step.Yields (scalar m scope e) w c w' ↔ Step.Yields (expr m scope e) w (.scalar c) w' := by
  simp only [scalar, Step.yields_bind, asScalar_yields]
  constructor
  · rintro ⟨_, _, h, rfl, rfl⟩
    exact h
  · exact fun h => ⟨_, _, h, rfl, rfl⟩

/-! ## Expressions -/

-- the equations of `expr`, one for each form, which the lemmas below take a run apart with
attribute [grind =] expr fieldList

section

variable {m : Model} {scope : Scope} {s : Shape} {fs : List (String × Shape)} {whole : Expr} {w w' : Workspace}

theorem param_yields {name : String} :
    Step.Yields (expr m scope (.param name)) w s w' ↔ scope.lookup name = some s ∧ w = w' := by
  unfold expr
  split
  next found => rw [Step.yields_pure, found, Option.some.injEq]
  next missing => simp [missing]

theorem constant_yields {v : Value} :
    Step.Yields (expr m scope (.constant v)) w s w' ↔ s = .scalar (.constant v) ∧ w = w' := by
  unfold expr
  rw [Step.yields_pure, eq_comm]

theorem captured_yields {name : String} {v : Value} :
    Step.Yields (expr m scope (.captured name v)) w s w' ↔ s = .scalar (.constant v) ∧ w = w' := by
  unfold expr
  rw [Step.yields_pure, eq_comm]

theorem runtime_yields {name : String} :
    Step.Yields (expr m scope (.runtime name)) w s w' ↔ s = .scalar (.parameter name) ∧ w = w' := by
  unfold expr
  rw [Step.yields_pure, eq_comm]

theorem member_yields {of : Expr} {name : String} :
    Step.Yields (expr m scope (.member of name)) w s w' ↔
      ∃ t v, Step.Yields (expr m scope of) w t v ∧ Step.Yields (readMember m t name (.member of name)) v s w' := by
  rw [expr]
  exact Step.yields_bind

theorem binary_yields {l r : Expr} {op : Operator} :
    Step.Yields (expr m scope (.binary l op r)) w s w' ↔
      ∃ a u b c, Step.Yields (expr m scope l) w a u ∧ Step.Yields (expr m scope r) u b w' ∧
        shapeOperator m a op b (.binary l op r) = .ok c ∧ s = .scalar c := by
  simp only [expr, Step.yields_bind, Step.yields_ofResult, Step.yields_pure]
  constructor
  · rintro ⟨a, u, left, b, _, right, c, _, ⟨applied, rfl⟩, rfl, rfl⟩
    exact ⟨a, u, b, c, left, right, applied, rfl⟩
  · rintro ⟨a, u, b, c, left, right, applied, rfl⟩
    exact ⟨a, u, left, b, w', right, c, w', ⟨applied, rfl⟩, rfl, rfl⟩

theorem not_yields {operand : Expr} :
    Step.Yields (expr m scope (.not operand)) w s w' ↔
      ∃ c, Step.Yields (expr m scope operand) w (.scalar c) w' ∧ s = .scalar (.not c) := by
  simp only [expr, Step.yields_bind, asScalar_yields, Step.yields_pure]
  constructor
  · rintro ⟨_, _, run, c, _, ⟨rfl, rfl⟩, rfl, rfl⟩
    exact ⟨c, run, rfl⟩
  · rintro ⟨c, run, rfl⟩
    exact ⟨_, w', run, c, w', ⟨rfl, rfl⟩, rfl, rfl⟩

theorem conditional_yields {test a b : Expr} :
    Step.Yields (expr m scope (.conditional test a b)) w s w' ↔
      ∃ c u d v e, Step.Yields (expr m scope test) w (.scalar c) u ∧ Step.Yields (expr m scope a) u (.scalar d) v ∧
        Step.Yields (expr m scope b) v (.scalar e) w' ∧ s = .scalar (.case c d e) := by
  simp only [expr, Step.yields_bind, asScalar_yields, Step.yields_pure]
  constructor
  · rintro ⟨_, u, first, c, _, ⟨rfl, rfl⟩, _, v, second, d, _, ⟨rfl, rfl⟩, _, _, third, e, _, ⟨rfl, rfl⟩, rfl, rfl⟩
    exact ⟨c, u, d, v, e, first, second, third, rfl⟩
  · rintro ⟨c, u, d, v, e, first, second, third, rfl⟩
    exact ⟨_, u, first, c, u, ⟨rfl, rfl⟩, _, v, second, d, v, ⟨rfl, rfl⟩, _, w', third, e, w', ⟨rfl, rfl⟩, rfl, rfl⟩

theorem new_yields {type : Option String} {args : List Expr} {bindings : List (Binding Expr)} :
    Step.Yields (expr m scope (.new type args bindings)) w s w' ↔
      args = [] ∧ ∃ fs, Step.Yields (fieldList m scope (.new type args bindings) bindings) w fs w' ∧ s = .record fs := by
  unfold expr
  split
  next empty =>
    simp only [Step.yields_bind, Step.yields_pure, List.isEmpty_iff.1 empty, true_and]
    constructor
    · rintro ⟨fs, _, fields, rfl, rfl⟩
      exact ⟨fs, fields, rfl⟩
    · rintro ⟨fs, fields, rfl⟩
      exact ⟨fs, w', fields, rfl, rfl⟩
  next some => simpa [List.isEmpty_iff] using fun none => absurd none (by simpa using some)

theorem noFields_yields : Step.Yields (fieldList m scope whole []) w fs w' ↔ fs = [] ∧ w = w' := by
  unfold fieldList
  rw [Step.yields_pure, eq_comm]

theorem assign_yields {member : String} {value : Expr} {rest : List (Binding Expr)} :
    Step.Yields (fieldList m scope whole (.assign member value :: rest)) w fs w' ↔
      ∃ t v others, Step.Yields (expr m scope value) w t v ∧ Step.Yields (fieldList m scope whole rest) v others w' ∧
        fs = (member, t) :: others := by
  simp only [fieldList, field, Step.yields_bind, Step.yields_pure]
  constructor
  · rintro ⟨_, _, ⟨t, v, run, rfl, rfl⟩, others, _, more, rfl, rfl⟩
    exact ⟨t, v, others, run, more, rfl⟩
  · rintro ⟨t, v, others, run, more, rfl⟩
    exact ⟨_, v, ⟨t, v, run, rfl, rfl⟩, others, w', more, rfl, rfl⟩

theorem not_items_yields {member : String} {values : List Expr} {rest : List (Binding Expr)} :
    ¬ Step.Yields (fieldList m scope whole (.items member values :: rest)) w fs w' := by
  rw [fieldList, field, Step.yields_bind]
  rintro ⟨_, _, failed, -⟩
  exact Step.yields_fail _ _ failed

end

/-! ## Expressions on their own -/

theorem standalone_yields {m : Model} {scope : Scope} {subject : Subject} {e : Expr} {s : Shape}
    {w w' : Workspace} (h : Step.Yields (standalone m scope subject e) w s w') :
    Step.Yields (expr m scope e) { w with joins := [] } s w' ∧ w'.joins = [] := by
  simp only [standalone, Step.yields_bind, Step.yields_modify, Step.yields_get] at h
  obtain ⟨_, _, rfl, t, v, run, _, _, ⟨rfl, rfl⟩, h⟩ := h
  split at h
  next empty =>
    obtain ⟨rfl, rfl⟩ := Step.yields_pure.1 h
    exact ⟨run, List.isEmpty_iff.1 empty⟩
  next => exact absurd h (Step.yields_fail _ _)

theorem standaloneScalar_yields {m : Model} {scope : Scope} {subject : Subject} {e : Expr} {c : Scalar}
    {w w' : Workspace} (h : Step.Yields (standaloneScalar m scope subject e) w c w') :
    Step.Yields (standalone m scope subject e) w (.scalar c) w' := by
  simp only [standaloneScalar, Step.yields_bind, asScalar_yields] at h
  obtain ⟨_, _, run, rfl, rfl⟩ := h
  exact run

/-! ## Subqueries -/

theorem wrap_yields {m : Model} {subject : Subject} {s p : Planned} {w w' : Workspace}
    (h : Step.Yields (wrap m subject s) w p w') :
    ∃ label shape columns, label ∉ w.labels ∧ w' = { w with labels := w.labels ++ [label] } ∧
      s.shape.expose m subject label none [] = .ok (shape, columns) ∧
      p = ⟨{ source := .subquery { s.select with projection := columns } label }, shape, s.operators⟩ := by
  simp only [wrap, Step.yields_bind, Step.yields_ofResult, Step.yields_pure] at h
  obtain ⟨label, _, new, ⟨shape, columns⟩, _, ⟨exposed, rfl⟩, rfl, rfl⟩ := h
  obtain ⟨fresh, rfl⟩ := newLabel_yields new
  exact ⟨label, shape, columns, fresh, rfl, exposed, rfl⟩

theorem wrapIf_yields {m : Model} {subject : Subject} {needed : Bool} {s p : Planned} {w w' : Workspace}
    (h : Step.Yields (wrapIf m subject needed s) w p w') :
    needed = true ∧ Step.Yields (wrap m subject s) w p w' ∨ needed = false ∧ p = s ∧ w = w' := by
  unfold wrapIf at h
  split at h
  next needed => exact .inl ⟨needed, h⟩
  next needed =>
    obtain ⟨rfl, rfl⟩ := Step.yields_pure.1 h
    exact .inr ⟨by simpa using needed, rfl, rfl⟩

theorem eq_of_isBare {s : Select} (h : s.isBare = true) : s = { source := s.source } := by
  obtain ⟨source, joins, predicate, groupBy, having, projection, union, orderBy, limit, offset⟩ := s
  simp only [Select.isBare, Bool.and_eq_true, List.isEmpty_iff, Option.isNone_iff_eq_none] at h
  simp_all

theorem asSource_yields {m : Model} {subject : Subject} {s : Planned} {source : Source} {shape : Shape}
    {w w' : Workspace} (h : Step.Yields (asSource m subject s) w (source, shape) w') :
    ∃ p, Step.Yields (wrapIf m subject (!s.select.isBare) s) w p w' ∧ p.select = { source } ∧
      p.shape = shape := by
  simp only [asSource, Step.yields_bind, Step.yields_pure] at h
  obtain ⟨p, _, wrapped, same, rfl⟩ := h
  obtain ⟨rfl, rfl⟩ := Prod.mk.inj same
  refine ⟨p, wrapped, ?_, rfl⟩
  rcases wrapIf_yields wrapped with ⟨-, wrapped⟩ | ⟨bare, rfl, -⟩
  · obtain ⟨label, shape, columns, -, -, -, rfl⟩ := wrap_yields wrapped
    rfl
  · exact eq_of_isBare (by simpa using bare)

theorem unite_yields {m : Model} {subject : Subject} {l r p : Planned} {w w' : Workspace}
    (h : Step.Yields (unite m subject l r) w p w') :
    ∃ label shape columns others, label ∉ w.labels ∧ w' = { w with labels := w.labels ++ [label] } ∧
      l.shape.expose m subject label none [] = .ok (shape, columns) ∧
      (∃ t, r.shape.expose m subject label none [] = .ok (t, others)) ∧
      columns.map Projection.name = others.map Projection.name ∧
      p = ⟨{ source := .subquery { l.select with
          projection := columns, union := some { r.select with projection := others } } label },
        shape, l.operators ++ ["Union"]⟩ := by
  simp only [unite, Step.yields_bind, Step.yields_ofResult] at h
  obtain ⟨label, _, new, ⟨shape, columns⟩, _, ⟨exposed, rfl⟩, ⟨t, others⟩, _, ⟨exposed', rfl⟩, h⟩ := h
  obtain ⟨fresh, rfl⟩ := newLabel_yields new
  split at h
  next =>
    obtain ⟨_, _, h, -⟩ := Step.yields_bind.1 h
    exact absurd h (Step.yields_fail _ _)
  next same =>
    obtain ⟨rfl, rfl⟩ := Step.yields_pure.1 h
    exact ⟨label, shape, columns, others, fresh, rfl, exposed, ⟨t, exposed'⟩, by simpa using same, rfl⟩

/-! ## Operators -/

-- the equations of `query`, one for each operator, which the lemmas below take a run apart with
attribute [grind =] query

section

variable {m : Model} {w w' : Workspace} {p : Planned}

theorem set_yields {name : String} (h : Step.Yields (query m (.set name)) w p w') :
    ∃ e t, m.entity? name = some e ∧ e.owned = false ∧ Step.Yields (newTable e) w t w' ∧
      p = ⟨{ source := .table t }, .entity { entity := e.name, label := t.label }, []⟩ := by
  simp only [query, Step.yields_bind, Step.yields_lookUp] at h
  obtain ⟨e, _, ⟨known, rfl⟩, h⟩ := h
  split at h
  next =>
    obtain ⟨_, _, h, -⟩ := Step.yields_bind.1 h
    exact absurd h (Step.yields_fail _ _)
  next stored =>
    simp only [Step.yields_bind, Step.yields_pure] at h
    obtain ⟨t, _, table, rfl, rfl⟩ := h
    exact ⟨e, t, entity_eq_ok.1 known, by simpa using stored, table, rfl⟩

def cells : LocalRows → LiteralRows
  | .parameter name _ => .pending name
  | .records _ elements => .immediate (elements.map fun r => r.fields.map fun (_, v) => .constant v)

theorem rows_yields {rows : LocalRows} (h : Step.Yields (query m (.rows rows)) w p w') :
    ∃ label, Step.Yields (newLabel "v") w label w' ∧
      p = ⟨{ source := .literal { label, columns := rows.fields, rows := cells rows } },
        .record (rows.fields.map fun c => (c, .scalar (.column label c))), []⟩ := by
  simp only [query, localRows, Step.yields_bind, Step.yields_pure] at h
  obtain ⟨label, _, added, rfl, rfl⟩ := h
  exact ⟨label, added, rfl⟩

theorem filter_yields {input : Query} {predicate : Lambda}
    (h : Step.Yields (query m (.filter input predicate)) w p w') :
    ∃ s v t v' condition select, Step.Yields (query m input) w s v ∧
      Step.Yields (wrapIf m (.query (.filter input predicate)) (isClosed s.select) s) v t v' ∧
      Step.Yields (against t.select (scalar m (predicate.params.zip [t.shape]) predicate.body)) v'
        (condition, select) w' ∧
      p = { t with select := addFilter select condition } := by
  simp only [query, Step.yields_bind, Step.yields_pure] at h
  obtain ⟨s, v, first, t, v', wrapped, scope, _, scoping, ⟨condition, select⟩, _, run, rfl, rfl⟩ := h
  obtain ⟨rfl, rfl⟩ := scopeOf_yields scoping
  exact ⟨s, v, t, v', condition, select, first, wrapped, run, rfl⟩

theorem map_yields {input : Query} {selector : Lambda}
    (h : Step.Yields (query m (.map input selector)) w p w') :
    ∃ s v shape select, Step.Yields (query m input) w s v ∧
      Step.Yields (against s.select (expr m (selector.params.zip [s.shape]) selector.body)) v
        (shape, select) w' ∧
      p = { s with select, shape } := by
  simp only [query, Step.yields_bind, Step.yields_pure] at h
  obtain ⟨s, v, first, scope, _, scoping, ⟨shape, select⟩, _, run, rfl, rfl⟩ := h
  obtain ⟨rfl, rfl⟩ := scopeOf_yields scoping
  exact ⟨s, v, shape, select, first, run, rfl⟩

theorem join_yields {outer inner : Query} {outerKey innerKey result : Lambda}
    (h : Step.Yields (query m (.join outer inner outerKey innerKey result)) w p w') :
    let subject := Subject.query (.join outer inner outerKey innerKey result)
    ∃ s v t x i y source shape z l select z' r z'' on element select',
      Step.Yields (query m outer) w s v ∧
      Step.Yields (wrapIf m subject (isClosed s.select || !s.select.groupBy.isEmpty) s) v t x ∧
      Step.Yields (query m inner) x i y ∧ Step.Yields (asSource m subject i) y (source, shape) z ∧
      Step.Yields (against t.select (expr m (outerKey.params.zip [t.shape]) outerKey.body)) z (l, select) z' ∧
      Step.Yields (standalone m (innerKey.params.zip [shape]) subject innerKey.body) z' r z'' ∧
      Shape.equality m subject l r = .ok on ∧
      Step.Yields (against { select with joins := select.joins ++ [⟨.inner, source, some on⟩] }
        (expr m (result.params.zip [t.shape, shape]) result.body)) z'' (element, select') w' ∧
      p = ⟨select', element, t.operators ++ ["Join"]⟩ := by
  simp only [query, Step.yields_bind, Step.yields_pure, Step.yields_ofResult] at h
  obtain ⟨s, v, first, t, x, wrapped, i, y, second, ⟨source, shape⟩, z, sourced, scope, _, scoping,
    ⟨l, select⟩, z', run, inside, _, scoping', r, z'', alone, on, _, ⟨equality, rfl⟩, both, _, scoping'',
    ⟨element, select'⟩, _, run', rfl, rfl⟩ := h
  obtain ⟨rfl, rfl⟩ := scopeOf_yields scoping
  obtain ⟨rfl, rfl⟩ := scopeOf_yields scoping'
  obtain ⟨rfl, rfl⟩ := scopeOf_yields scoping''
  exact ⟨s, v, t, x, i, y, source, shape, z, l, select, z', r, z'', on, element, select', first, wrapped,
    second, sourced, run, alone, equality, run', rfl⟩

theorem orderBy_yields {input : Query} {key : Lambda} {descending : Bool}
    (h : Step.Yields (query m (.orderBy input key descending)) w p w') :
    ∃ s v t v' k select keys, Step.Yields (query m input) w s v ∧
      Step.Yields (wrapIf m (.query (.orderBy input key descending)) (isClosed s.select) s) v t v' ∧
      Step.Yields (against t.select (expr m (key.params.zip [t.shape]) key.body)) v' (k, select) w' ∧
      Shape.scalars (.query (.orderBy input key descending)) k = .ok keys ∧
      p = ⟨{ select with orderBy := keys.map fun key => { key, descending } }, t.shape,
        t.operators ++ ["OrderBy"]⟩ := by
  simp only [query, Step.yields_bind, Step.yields_pure, Step.yields_ofResult] at h
  obtain ⟨s, v, first, t, v', wrapped, scope, _, scoping, ⟨k, select⟩, _, run, keys, _, ⟨found, rfl⟩, rfl,
    rfl⟩ := h
  obtain ⟨rfl, rfl⟩ := scopeOf_yields scoping
  exact ⟨s, v, t, v', k, select, keys, first, wrapped, run, found, rfl⟩

theorem take_yields {input : Query} {count : Expr}
    (h : Step.Yields (query m (.take input count)) w p w') :
    ∃ s v t v' limit select, Step.Yields (query m input) w s v ∧
      Step.Yields (wrapIf m (.query (.take input count)) (s.select.limit.isSome || s.select.union.isSome) s)
        v t v' ∧
      Step.Yields (against t.select (scalar m [] count)) v' (limit, select) w' ∧
      p = ⟨{ select with limit := some limit }, t.shape, t.operators ++ ["Take"]⟩ := by
  simp only [query, Step.yields_bind, Step.yields_pure] at h
  obtain ⟨s, v, first, t, v', wrapped, ⟨limit, select⟩, _, run, rfl, rfl⟩ := h
  exact ⟨s, v, t, v', limit, select, first, wrapped, run, rfl⟩

theorem skip_yields {input : Query} {count : Expr}
    (h : Step.Yields (query m (.skip input count)) w p w') :
    ∃ s v t v' offset select, Step.Yields (query m input) w s v ∧
      Step.Yields (wrapIf m (.query (.skip input count)) (isClosed s.select) s) v t v' ∧
      Step.Yields (against t.select (scalar m [] count)) v' (offset, select) w' ∧
      p = ⟨{ select with offset := some offset }, t.shape, t.operators ++ ["Skip"]⟩ := by
  simp only [query, Step.yields_bind, Step.yields_pure] at h
  obtain ⟨s, v, first, t, v', wrapped, ⟨offset, select⟩, _, run, rfl, rfl⟩ := h
  exact ⟨s, v, t, v', offset, select, first, wrapped, run, rfl⟩

theorem groupBy_yields {input : Query} {key : Lambda}
    (h : Step.Yields (query m (.groupBy input key)) w p w') :
    ∃ s v t v' k select keys, Step.Yields (query m input) w s v ∧
      Step.Yields (wrapIf m (.query (.groupBy input key))
        (isClosed s.select || !s.select.groupBy.isEmpty) s) v t v' ∧
      Step.Yields (against t.select (expr m (key.params.zip [t.shape]) key.body)) v' (k, select) w' ∧
      Shape.scalars (.query (.groupBy input key)) k = .ok keys ∧
      p = ⟨{ select with groupBy := keys, orderBy := [] }, .grouping k, t.operators ++ ["GroupBy"]⟩ := by
  simp only [query, Step.yields_bind, Step.yields_pure, Step.yields_ofResult] at h
  obtain ⟨s, v, first, t, v', wrapped, scope, _, scoping, ⟨k, select⟩, _, run, keys, _, ⟨found, rfl⟩, rfl,
    rfl⟩ := h
  obtain ⟨rfl, rfl⟩ := scopeOf_yields scoping
  exact ⟨s, v, t, v', k, select, keys, first, wrapped, run, found, rfl⟩

theorem union_yields {left right : Query} (h : Step.Yields (query m (.union left right)) w p w') :
    let subject := Subject.query (.union left right)
    ∃ l v r x l' y r' z, Step.Yields (query m left) w l v ∧ Step.Yields (query m right) v r x ∧
      Step.Yields (wrapIf m subject (l.select.isPaged || !l.select.orderBy.isEmpty) l) x l' y ∧
      Step.Yields (wrapIf m subject (r.select.isPaged || !r.select.orderBy.isEmpty) r) y r' z ∧
      Step.Yields (unite m subject l' r') z p w' := by
  simpa only [query, Step.yields_bind, exists_and_left] using h

theorem of_wrapIf {P : Select → Prop} {subject : Subject} {needed : Bool} {s : Planned}
    (bare : ∀ source : Source, P { source }) (kept : needed = false → P s.select)
    (h : Step.Yields (wrapIf m subject needed s) w p w') : P p.select := by
  rcases wrapIf_yields h with ⟨-, wrapped⟩ | ⟨unneeded, rfl, -⟩
  · obtain ⟨label, shape, columns, -, -, -, rfl⟩ := wrap_yields wrapped
    exact bare _
  · exact kept unneeded

theorem wrapIf_union {subject : Subject} {needed : Bool} {s : Planned} (union : s.select.union = none)
    (h : Step.Yields (wrapIf m subject needed s) w p w') : p.select.union = none :=
  of_wrapIf (P := fun t => t.union = none) (fun _ => rfl) (fun _ => union) h

theorem query_union {q : Query} (h : Step.Yields (query m q) w p w') : p.select.union = none := by
  induction q generalizing w w' p with
  | set name =>
    obtain ⟨e, t, -, -, -, rfl⟩ := set_yields h
    rfl
  | rows rows =>
    obtain ⟨label, -, rfl⟩ := rows_yields h
    rfl
  | filter input predicate ih =>
    obtain ⟨s, v, t, v', condition, select, first, wrapped, run, rfl⟩ := filter_yields h
    obtain ⟨-, rfl⟩ := against_yields.1 run
    -- every other operator changes its input in place, or wraps it
    have union := wrapIf_union (ih first) wrapped
    unfold addFilter
    split <;> exact union
  | map input selector ih =>
    obtain ⟨s, v, shape, select, first, run, rfl⟩ := map_yields h
    obtain ⟨-, rfl⟩ := against_yields.1 run
    have union := ih first
    exact union
  | join outer inner outerKey innerKey result ih =>
    obtain ⟨s, v, t, x, i, y, source, shape, z, l, select, z', r, z'', on, element, select', first, wrapped,
      -, -, run, -, -, run', rfl⟩ := join_yields h
    obtain ⟨-, rfl⟩ := against_yields.1 run
    obtain ⟨-, rfl⟩ := against_yields.1 run'
    have union := wrapIf_union (ih first) wrapped
    exact union
  | orderBy input key descending ih =>
    obtain ⟨s, v, t, v', k, select, keys, first, wrapped, run, -, rfl⟩ := orderBy_yields h
    obtain ⟨-, rfl⟩ := against_yields.1 run
    have union := wrapIf_union (ih first) wrapped
    exact union
  | take input count ih =>
    obtain ⟨s, v, t, v', limit, select, first, wrapped, run, rfl⟩ := take_yields h
    obtain ⟨-, rfl⟩ := against_yields.1 run
    have union := wrapIf_union (ih first) wrapped
    exact union
  | skip input count ih =>
    obtain ⟨s, v, t, v', offset, select, first, wrapped, run, rfl⟩ := skip_yields h
    obtain ⟨-, rfl⟩ := against_yields.1 run
    have union := wrapIf_union (ih first) wrapped
    exact union
  | groupBy input key ih =>
    obtain ⟨s, v, t, v', k, select, keys, first, wrapped, run, -, rfl⟩ := groupBy_yields h
    obtain ⟨-, rfl⟩ := against_yields.1 run
    have union := wrapIf_union (ih first) wrapped
    exact union
  | union left right =>
    obtain ⟨l, v, r, x, l', y, r', z, -, -, -, -, united⟩ := union_yields h
    obtain ⟨label, shape, columns, others, -, -, -, -, -, rfl⟩ := unite_yields united
    rfl

end

end Setwise.Planning
