import Setwise.Proofs.CompiledSelects
import Setwise.Proofs.RepeatedReads
import Setwise.Proofs.ShownElements

/-!
What has been planned against a select, behind the select as it is bound.

Binding changes literal tables, and pruning the filters of subqueries. The bound select has the same labels, clauses and
joins of stored tables, so everything that planning did to the select it does to the bound one as well (`against_bound`,
`wrap_bound`, `unite_bound`).
-/

set_option autoImplicit false

namespace Setwise

open Client Relational Execution

namespace Relational

section

variable {ps : Parameters} {a a' : Source} {js ks : List (Join Select)} {s b : Select}

theorem Source.Resolves.label (h : Source.Resolves ps a a') : a'.label = a.label := by
  cases h with
  | table | subquery => rfl
  | literal related => cases related <;> rfl

theorem Source.Resolves.of_table {t : StoredTable} (h : Source.Resolves ps (.table t) a) : a = .table t := by
  cases h
  rfl

theorem JoinsResolve.labels (h : JoinsResolve ps js ks) : joinLabels ks = joinLabels js := by
  induction h with
  | nil => rfl
  | cons here _ ih =>
    obtain ⟨_, _, source⟩ := here
    rw [joinLabels, joinLabels, List.map_cons, List.map_cons, Source.Resolves.label source]
    exact congrArg _ ih

theorem JoinsResolve.stands (h : JoinsResolve ps js ks) : Planning.StandFor js ks := by
  induction h with
  | nil => exact nofun
  | cons here _ ih =>
    intro k member
    rcases List.mem_cons.1 member with rfl | later
    · obtain ⟨kind, on, source⟩ := here
      refine ⟨_, List.mem_cons_self, (Source.Resolves.label source).symm, fun t table => ?_⟩
      cases table
      cases source
      rfl
    · obtain ⟨j, inside, same⟩ := ih k later
      exact ⟨j, List.mem_cons_of_mem _ inside, same⟩

theorem JoinsResolve.tables (tables : ∀ j ∈ js, ∃ t, j.source = .table t) (h : JoinsResolve ps js ks) : ks = js := by
  induction h with
  | nil => rfl
  | cons here _ ih =>
    obtain ⟨⟨t, table⟩, later⟩ := List.forall_mem_cons.1 tables
    obtain ⟨_, _, source⟩ := here
    cases table
    cases source
    rw [ih later]

theorem JoinsResolve.split {more : List (Join Select)} (h : JoinsResolve ps (js ++ more) ks) :
    ∃ before after, JoinsResolve ps js before ∧ JoinsResolve ps more after ∧ ks = before ++ after := by
  refine ⟨ks.take js.length, ks.drop js.length, ?_, ?_, (List.take_append_drop ..).symm⟩
  · simpa [JoinsResolve] using List.forall₂_take js.length h
  · simpa [JoinsResolve] using List.forall₂_drop js.length h

theorem JoinsResolve.append {more : List (Join Select)} (tables : ∀ j ∈ more, ∃ t, j.source = .table t)
    (h : JoinsResolve ps (js ++ more) ks) : ∃ before, JoinsResolve ps js before ∧ ks = before ++ more := by
  obtain ⟨before, after, first, second, rfl⟩ := h.split
  exact ⟨before, first, by rw [second.tables tables]⟩

theorem JoinsResolve.last {j : Join Select} (h : JoinsResolve ps (js ++ [j]) ks) :
    ∃ before source, JoinsResolve ps js before ∧ Source.Resolves ps j.source source ∧
      ks = before ++ [{ j with source }] := by
  obtain ⟨before, after, first, second, rfl⟩ := h.split
  obtain ⟨k, rest, ⟨_, _, source⟩, none, rfl⟩ := List.forall₂_cons_left_iff.1 second
  rw [List.forall₂_nil_left_iff.1 none]
  exact ⟨before, _, first, source, rfl⟩

namespace Select.Resolves

theorem source (h : s.Resolves ps b) : Source.Resolves ps s.source b.source := by
  cases h with
  | intro source => exact source

theorem joins (h : s.Resolves ps b) : JoinsResolve ps s.joins b.joins := by
  cases h with
  | intro _ joins => exact joins

theorem same (h : s.Resolves ps b) : b = { s with source := b.source, joins := b.joins, union := b.union } := by
  cases h with
  | intro _ _ _ same => exact same

theorem clauses (h : s.Resolves ps b) :
    b.groupBy = s.groupBy ∧ b.orderBy = s.orderBy ∧ b.limit = s.limit ∧ b.offset = s.offset := by
  rw [h.same]
  exact ⟨rfl, rfl, rfl, rfl⟩

theorem union (h : s.Resolves ps b) (single : s.union = none) : b.union = none := by
  cases h with
  | intro _ _ union =>
    rw [single] at union
    generalize b.union = other at union
    cases union
    rfl

theorem single {source : Source} (h : ({ source } : Select).Resolves ps b) : b = { source := b.source } := by
  have joins := h.joins
  have same := h.same
  rw [h.union rfl, List.forall₂_nil_left_iff.1 joins] at same
  exact same

theorem subquery {inner : Select} {label : String} (h : ({ source := .subquery inner label } : Select).Resolves ps b) :
    ∃ t, inner.Resolves ps t ∧ b = { source := .subquery t.sift label } := by
  have source : Source.Resolves ps (.subquery inner label) b.source := h.source
  rw [h.single]
  generalize b.source = bound at source
  cases source with
  | subquery _ compiled =>
    obtain ⟨resolved⟩ := compiled
    exact ⟨_, resolved, rfl⟩

theorem united {other : Select} (h : s.Resolves ps b) (double : s.union = some other) :
    ∃ t, other.Resolves ps t ∧ b.union = some t.sift := by
  cases h with
  | intro _ _ union =>
    rw [double] at union
    generalize b.union = bound at union
    cases union with
    | some compiled =>
      obtain ⟨resolved⟩ := compiled
      exact ⟨_, resolved, rfl⟩

theorem of_tables {t : StoredTable} (h : s.Resolves ps b) (source : s.source = .table t)
    (tables : ∀ j ∈ s.joins, ∃ t, j.source = .table t) (single : s.union = none) : b = s := by
  have first : Source.Resolves ps (.table t) b.source := source ▸ h.source
  rw [h.same, first.of_table, h.joins.tables tables, h.union single, ← source, ← single]
  cases s
  rfl

/-- A select that has other clauses is bound in the same way. -/
theorem of_clauses {t : Select} (h : t.Resolves ps b) (source : t.source = s.source) (joins : t.joins = s.joins)
    (union : t.union = s.union) :
    s.Resolves ps { s with source := b.source, joins := b.joins, union := b.union } := by
  cases h with
  | intro first second third =>
    exact .intro (source ▸ first) (joins ▸ second) (union ▸ third) rfl

theorem join {j : Join Select} (h : ({ s with joins := s.joins ++ [j] } : Select).Resolves ps b) :
    ∃ a source, s.Resolves ps a ∧ Source.Resolves ps j.source source ∧
      b = { a with joins := a.joins ++ [{ j with source }] } := by
  obtain ⟨before, source, joins, resolved, split⟩ := h.joins.last
  refine ⟨{ s with source := b.source, joins := before, union := b.union }, source, ?_, resolved, ?_⟩
  · cases h with
    | intro first _ third => exact .intro first joins third rfl
  · rw [h.same, split]

end Select.Resolves

theorem Select.Compiles.clauses (h : s.Compiles ps b) :
    b.groupBy = s.groupBy ∧ b.orderBy = s.orderBy ∧ b.limit = s.limit ∧ b.offset = s.offset := by
  obtain ⟨resolved⟩ := h
  exact resolved.clauses

theorem Select.Compiles.union (h : s.Compiles ps b) (single : s.union = none) : b.union = none := by
  obtain ⟨resolved⟩ := h
  exact resolved.union single

end

end Relational

namespace Planning

/-! ## Selects with the same labels -/

section

variable {u w : Workspace} {s b : Select}

theorem Scoped.alike (inScope : Scoped w s) (source : b.source.label = s.source.label)
    (joins : joinLabels b.joins = joinLabels s.joins) : Scoped w b := by
  have labels : b.labels = s.labels := by rw [Select.labels, Select.labels, source, joins]
  refine ⟨inScope.sound, labels ▸ inScope.distinct, labels ▸ inScope.known, fun entry member from_ => ?_⟩
  obtain ⟨before, j, after, split, target, behind⟩ := inScope.joined entry member (labels ▸ from_)
  rw [split, joinLabels_append] at joins
  obtain ⟨front, rest, split', front', rest'⟩ := List.map_eq_append_iff.1 joins
  obtain ⟨k, back, rfl, label, -⟩ := List.map_eq_cons_iff.1 rest'
  exact ⟨front, k, back, split', label.trans target, by rw [joinLabels, front', source]; exact behind⟩

theorem FreshlyPlanned.alike {p : Planned} (planned : FreshlyPlanned u w p)
    (source : b.source.label = p.select.source.label) (joins : joinLabels b.joins = joinLabels p.select.joins)
    (clauses : Planning.clauses b = Planning.clauses p.select) : FreshlyPlanned u w { p with select := b } := by
  have labels : b.labels = p.select.labels := by rw [Select.labels, Select.labels, source, joins]
  exact ⟨planned.grows, planned.inScope.alike source joins, labels ▸ planned.fresh, labels ▸ planned.shape,
    by rw [clauses, labels]; exact planned.clauses⟩

end

section

variable {ps : Parameters} {m : Model} {u v w : Workspace} {s p : Planned} {b : Select}

theorem FreshlyPlanned.bound (planned : FreshlyPlanned u w p) (bound : p.select.Resolves ps b) :
    FreshlyPlanned u w { p with select := b } :=
  planned.alike bound.source.label bound.joins.labels (by rw [bound.same]; rfl)

theorem Planned.Regular.bound (regular : p.Regular) (bound : p.select.Resolves ps b) :
    ({ p with select := b } : Planned).Regular := by
  rw [bound.same]
  exact ⟨regular.ungrouped, regular.grouped⟩

/-! ## Planning against bound selects -/

theorem against_bound {scope : Scope} {e : Expr} {t : Shape} {r select : Select}
    (run : Step.Yields (against r (expr m scope e)) v (t, select) w) (bound : select.Resolves ps b) :
    ∃ a, r.Resolves ps a ∧ Step.Yields (against a (expr m scope e)) v (t, b) { w with joins := b.joins } := by
  obtain ⟨planned, rfl⟩ := against_yields.1 run
  obtain ⟨more, joins, tables, -, again⟩ := expr_replays e planned
  have all : JoinsResolve ps (r.joins ++ more) b.joins := joins ▸ bound.joins
  obtain ⟨before, first, split⟩ := all.append tables
  have source := bound.source
  have same := bound.same
  refine ⟨{ r with source := b.source, joins := before, union := b.union }, ?_, against_yields.2 ⟨?_, same⟩⟩
  · cases bound with
    | intro source _ union => exact .intro source first union rfl
  · rw [split]
    exact again before

theorem wrap_bound {subject : Subject} (h : Step.Yields (wrap m subject s) v p w) (bound : p.select.Resolves ps b) :
    ∃ a, s.select.Compiles ps a ∧
      Step.Yields (wrap m subject { s with select := a }) v { p with select := b } w := by
  simp only [wrap, Step.yields_bind, Step.yields_ofResult, Step.yields_pure] at h ⊢
  obtain ⟨label, x, new, ⟨shape, columns⟩, _, ⟨exposed, rfl⟩, rfl, rfl⟩ := h
  obtain ⟨inner, resolved, rfl⟩ := bound.subquery
  have operand := resolved.of_clauses (s := s.select) rfl rfl rfl
  refine ⟨_, .intro operand, label, x, new, (shape, columns), x, ⟨exposed, rfl⟩, ?_, rfl⟩
  rw [resolved.same]
  rfl

theorem unite_bound {subject : Subject} {l r : Planned} (h : Step.Yields (unite m subject l r) v p w)
    (bound : p.select.Resolves ps b) (single : l.select.union = none) :
    ∃ a a', l.select.Compiles ps a ∧ r.select.Compiles ps a' ∧
      Step.Yields (unite m subject { l with select := a } { r with select := a' }) v { p with select := b } w := by
  simp only [unite, Step.yields_bind, Step.yields_ofResult] at h ⊢
  obtain ⟨label, x, new, ⟨shape, columns⟩, _, ⟨exposed, rfl⟩, ⟨t, others⟩, _, ⟨exposed', rfl⟩, rest⟩ := h
  dsimp only at rest
  split at rest
  next => exact absurd rest (Step.yields_fail _ _)
  next alike =>
    obtain ⟨rfl, rfl⟩ := Step.yields_pure.1 rest
    -- pruning and binding reach both sides through the subquery that unites them
    obtain ⟨first, left, rfl⟩ := bound.subquery
    obtain ⟨second, right, united⟩ := left.united rfl
    have here : l.select.Resolves ps { l.select with source := first.source, joins := first.joins } :=
      .intro left.source left.joins (by rw [single]; exact .none) rfl
    have there := right.of_clauses (s := r.select) rfl rfl rfl
    refine ⟨_, _, .intro here, .intro there, label, x, new, (shape, columns), x, ⟨exposed, rfl⟩, (t, others), x,
      ⟨exposed', rfl⟩, ?_⟩
    dsimp only
    rw [if_neg alike]
    refine Step.yields_pure.2 ⟨?_, rfl⟩
    rw [left.same, united, right.same]
    rfl

end

end Planning

end Setwise
