import Setwise.Proofs.Pruning
import Setwise.Proofs.ResolvedTables

/-!
Selects behind pruning and binding.

A plan is pruned before it is kept and bound when it is run. What then stands for a planned select has pruned filters and
counted literal tables at every depth (`Select.Compiles`). Its own filters may still be as they were planned
(`Select.Resolves`): pruning them changes nothing about the frames that pass (`passes_pruned`).
-/

set_option autoImplicit false

namespace Setwise.Relational

/-- The select with its own filters pruned; its subqueries stay. -/
def Select.sift (s : Select) : Select :=
  { s with predicate := s.predicate.bind Scalar.prune, having := s.having.bind Scalar.prune }

section

variable (ps : Parameters)

mutual

/-- The second select is the first one with subqueries that are pruned, bound to parameters. -/
inductive Select.Resolves : Select → Select → Prop
  | intro {s t : Select} (source : Source.Resolves s.source t.source)
      (joins : List.Forall₂ Join.Resolves s.joins t.joins) (union : Option.Rel Select.Compiles s.union t.union)
      (same : t = { s with source := t.source, joins := t.joins, union := t.union }) : Select.Resolves s t

/-- The second select is the first one, pruned and bound to parameters. -/
inductive Select.Compiles : Select → Select → Prop
  | intro {s t : Select} (resolved : Select.Resolves s t) : Select.Compiles s t.sift

inductive Source.Resolves : Source → Source → Prop
  | table (t : StoredTable) : Source.Resolves (.table t) (.table t)
  | literal {v w : LiteralTable} (related : LiteralTable.Resolves ps v w) : Source.Resolves (.literal v) (.literal w)
  | subquery {s t : Select} (label : String) (inner : Select.Compiles s t) :
      Source.Resolves (.subquery s label) (.subquery t label)

inductive Join.Resolves : Join Select → Join Select → Prop
  | intro (kind : JoinKind) {s t : Source} (on : Option Scalar) (source : Source.Resolves s t) :
      Join.Resolves ⟨kind, s, on⟩ ⟨kind, t, on⟩

end

def JoinsResolve : List (Join Select) → List (Join Select) → Prop :=
  List.Forall₂ (Join.Resolves ps)

end

section

variable {ps : Parameters}

mutual

/-- Bound to parameters, a pruned select stands for the one that was planned. -/
theorem Select.compiles_of_prune {s b : Select} (h : s.prune.Replaced (LiteralTable.Resolves ps) b) : s.Compiles ps b := by
  match s with
  | { source, joins, predicate, groupBy, having, projection, union, orderBy, limit, offset } =>
    unfold Select.prune at h
    cases h with
    | intro first second third same =>
      rw [same]
      let kept : Select :=
        { source := b.source, joins := b.joins, predicate, groupBy, having, projection, union := b.union, orderBy, limit,
          offset }
      exact Select.Compiles.intro (t := kept) (.intro (Source.resolves_of_prune first) (Join.resolves_of_pruneAll second)
        (Select.compiles_of_pruneOption third) rfl)
termination_by structural s

theorem Source.resolves_of_prune {s b : Source} (h : Source.Replaced (LiteralTable.Resolves ps) (Source.prune s) b) :
    Source.Resolves ps s b := by
  match s with
  | .table ref =>
    cases h
    exact .table ref
  | .literal v =>
    cases h with
    | literal related => exact .literal related
  | .subquery select label =>
    unfold Source.prune at h
    cases h with
    | subquery _ inner => exact .subquery label (Select.compiles_of_prune inner)
termination_by structural s

theorem Join.resolves_of_pruneAll {js ks : List (Join Select)}
    (h : List.Forall₂ (Join.Replaced (LiteralTable.Resolves ps)) (Join.pruneAll js) ks) : JoinsResolve ps js ks := by
  match js with
  | [] =>
    cases h
    exact .nil
  | j :: rest =>
    unfold Join.pruneAll at h
    cases h with
    | cons here later => exact .cons (Join.resolves_of_prune here) (Join.resolves_of_pruneAll later)
termination_by structural js

theorem Join.resolves_of_prune {j k : Join Select} (h : Join.Replaced (LiteralTable.Resolves ps) (Join.prune j) k) :
    Join.Resolves ps j k := by
  match j with
  | { kind, source, on } =>
    unfold Join.prune at h
    cases h with
    | intro _ _ first => exact .intro kind on (Source.resolves_of_prune first)
termination_by structural j

theorem Select.compiles_of_pruneOption {s b : Option Select}
    (h : Option.Rel (Select.Replaced (LiteralTable.Resolves ps)) (Select.pruneOption s) b) :
    Option.Rel (Select.Compiles ps) s b := by
  match s with
  | none =>
    cases h
    exact .none
  | some select =>
    unfold Select.pruneOption at h
    cases h with
    | some inner => exact .some (Select.compiles_of_prune inner)
termination_by structural s

end

end

end Setwise.Relational
