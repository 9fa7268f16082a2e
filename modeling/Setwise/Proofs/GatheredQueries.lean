import Setwise.Proofs.GatheredJoins

/-!
Planned queries gather what the queries gather.

Where no lambda of a query finds a reference joined that is not its own (`Query.ReadsOwn`), the frames that the bound
select keeps stand for what the query gathers (`query_gathered`), whatever the parameters are, and those that it delivers
show what the query delivers (`query_delivered`).
-/

set_option autoImplicit false

namespace Setwise

open Client Relational Execution Planning

namespace Client

section

variable (m : Model)

/-- Planned from a workspace, all lambdas of the query read their references on joins of their own foreign keys, and both
sides of a union show their elements in the same columns. -/
def Query.ReadsOwn : Query → Workspace → Prop
  | .set _, _ | .rows _, _ => True
  | .filter input l, u | .orderBy input l _, u =>
    input.ReadsOwn u ∧ ∀ subject s v t v', Step.Yields (query m input) u s v →
      Step.Yields (wrapIf m subject (isClosed s.select) s) v t v' → l.ReadsOwn m [t.shape] t.select v'
  | .groupBy input l, u =>
    input.ReadsOwn u ∧ ∀ subject s v t v', Step.Yields (query m input) u s v →
      Step.Yields (wrapIf m subject (isClosed s.select || !s.select.groupBy.isEmpty) s) v t v' →
        l.ReadsOwn m [t.shape] t.select v'
  | .map input l, u =>
    input.ReadsOwn u ∧ ∀ s v, Step.Yields (query m input) u s v → l.ReadsOwn m [s.shape] s.select v
  | .take input _, u | .skip input _, u => input.ReadsOwn u
  | .join outer inner outerKey innerKey result, u =>
    outer.ReadsOwn u ∧ ∀ subject s v t x, Step.Yields (query m outer) u s v →
      Step.Yields (wrapIf m subject (isClosed s.select || !s.select.groupBy.isEmpty) s) v t x →
        inner.ReadsOwn x ∧ ∀ i y source shape z, Step.Yields (query m inner) x i y →
          Step.Yields (asSource m subject i) y (source, shape) z →
            outerKey.ReadsOwn m [t.shape] t.select z ∧ ∀ l select z' r z'' on,
              Step.Yields (against t.select (expr m (outerKey.params.zip [t.shape]) outerKey.body)) z (l, select) z' →
              Step.Yields (standalone m (innerKey.params.zip [shape]) subject innerKey.body) z' r z'' →
              Shape.equality m subject l r = .ok on →
                result.ReadsOwn m [t.shape, shape]
                  { select with joins := select.joins ++ [⟨.inner, source, some on⟩] } z''
  | .union left right, u =>
    left.ReadsOwn u ∧ ∀ subject l v r x l' y r' z, Step.Yields (query m left) u l v → Step.Yields (query m right) v r x →
      Step.Yields (wrapIf m subject (l.select.isPaged || !l.select.orderBy.isEmpty) l) x l' y →
      Step.Yields (wrapIf m subject (r.select.isPaged || !r.select.orderBy.isEmpty) r) y r' z →
        right.ReadsOwn v ∧ ∀ label s ps t qs, l'.shape.expose m subject label none [] = .ok (s, ps) →
          r'.shape.expose m subject label none [] = .ok (t, qs) → s = t

end

end Client

namespace Planning

section

variable {m : Model} {db : Database} {env : Environment} {u w : Workspace} {p : Planned} {b : Select}

theorem query_gathered (on : LeadsOn m db) {q : Query} (sound : u.Sound) (own : q.ReadsOwn m u)
    (h : Step.Yields (query m q) u p w) : Gathering m db env q p := by
  -- the operand of an operator keeps its frames whatever is planned behind it, so each operator is seen alone
  induction q generalizing u p w with
  | set name =>
    obtain ⟨e, t, known, -, added, rfl⟩ := set_yields h
    exact set_gathered known added
  | rows collection =>
    obtain ⟨label, -, rfl⟩ := rows_yields h
    exact rows_gathered
  | filter input l ih =>
    obtain ⟨s, v, t, v', condition, select, first, wrapped, run, rfl⟩ := filter_yields h
    exact filter_gathered on sound (ih sound own.1 first) first wrapped (own.2 _ _ _ _ _ first wrapped) run
  | map input l ih =>
    obtain ⟨s, v, shape, select, first, run, rfl⟩ := map_yields h
    exact map_gathered env on sound (ih sound own.1 first) first (own.2 _ _ first) run
  | orderBy input l descending ih =>
    obtain ⟨s, v, t, v', k, select, keys, first, wrapped, run, found, rfl⟩ := orderBy_yields h
    exact orderBy_gathered on sound (ih sound own.1 first) first wrapped (own.2 _ _ _ _ _ first wrapped) run found
  | groupBy input l ih =>
    obtain ⟨s, v, t, v', k, select, keys, first, wrapped, run, found, rfl⟩ := groupBy_yields h
    exact groupBy_gathered on sound (ih sound own.1 first) first wrapped (own.2 _ _ _ _ _ first wrapped) run found
  | take input count ih =>
    obtain ⟨s, v, t, v', limit, select, first, wrapped, run, rfl⟩ := take_yields h
    exact take_gathered on (ih sound own first) first wrapped run
  | skip input count ih =>
    obtain ⟨s, v, t, v', offset, select, first, wrapped, run, rfl⟩ := skip_yields h
    exact skip_gathered on (ih sound own first) first wrapped run
  | join outer inner outerKey innerKey result iho ihi =>
    obtain ⟨s, v, t, x, i, y, source, shape, z, l, select, z', r, z'', on', element, select', first, wrapped, second,
      sourced, run, alone, equality, run', rfl⟩ := join_yields h
    obtain ⟨innerOwn, keysOwn⟩ := own.2 _ _ _ _ _ first wrapped
    obtain ⟨keyOwn, resultOwn⟩ := keysOwn _ _ _ _ _ second sourced
    have planned := (query_planned sound first).wrapIf wrapped
    exact join_gathered on sound (iho sound own.1 first) (ihi planned.inScope.sound innerOwn second) first wrapped second
      sourced keyOwn run alone equality (resultOwn _ _ _ _ _ _ run alone equality) run'
  | union left right ihl ihr =>
    obtain ⟨l, v, r, x, l', y, r', z, first, second, wrapped, wrapped', united⟩ := union_yields h
    obtain ⟨rightOwn, alike⟩ := own.2 _ _ _ _ _ _ _ _ _ first second wrapped wrapped'
    exact union_gathered (ihl sound own.1 first) (ihr (query_planned sound first).inScope.sound rightOwn second)
      (query_union first) (query_union second) wrapped wrapped' alike united

variable (env) in
theorem query_delivered (on : LeadsOn m db) {q : Query} (sound : u.Sound) (own : q.ReadsOwn m u)
    (run : Step.Yields (query m q) u p w) (bound : p.select.Compiles env.parameters b) {frames : List Frame}
    (delivered : deliveredFrames db env b = .ok frames) :
    q.Delivers m db env.parameters (frames.map (p.shape.element m env)) := by
  obtain ⟨all, base, c, -, gathers, -, found⟩ := (query_gathered on sound own run).delivered bound delivered
  exact ⟨c, gathers, found⟩

end

end Planning

end Setwise
