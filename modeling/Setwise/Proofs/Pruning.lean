import Setwise.Proofs.Arrangement
import Setwise.Relational.Pruning

/-!
Pruned selects, field by field.

Pruning reaches the source, the joins, the filters and the union of a select, and leaves its other clauses
as they are. A pruned filter is passed by the same frames (`passes_pruned`).
-/

set_option autoImplicit false

namespace Setwise.Relational

open Execution

theorem prune_join (j : Join Select) : j.prune = ⟨j.kind, Source.prune j.source, j.on⟩ := by
  cases j
  rfl

theorem prune_source (s : Select) : s.prune.source = Source.prune s.source := by
  cases s
  rfl

theorem prune_joins (s : Select) : s.prune.joins = Join.pruneAll s.joins := by
  cases s
  rfl

theorem prune_projection (s : Select) : s.prune.projection = s.projection := by
  cases s
  rfl

theorem prune_orderBy (s : Select) : s.prune.orderBy = s.orderBy := by
  cases s
  rfl

theorem prune_union (s : Select) : s.prune.union = Select.pruneOption s.union := by
  cases s
  rfl

theorem pruneOption_eq_map (s : Option Select) : Select.pruneOption s = s.map Select.prune := by
  cases s <;> rfl

theorem mem_clauses_prune {s : Select} {e : Scalar} (member : e ∈ Planning.clauses s.prune) :
    e ∈ Planning.clauses s ∨ ∃ c ∈ Planning.clauses s, e ∈ c.prune := by
  cases s
  simp only [Planning.mem_clauses] at member ⊢
  rcases member with found | grouped | found | sorted
  · obtain ⟨c, here, pruned⟩ := Option.bind_eq_some_iff.1 found
    exact .inr ⟨c, .inl here, pruned⟩
  · exact .inl (.inr (.inl grouped))
  · obtain ⟨c, here, pruned⟩ := Option.bind_eq_some_iff.1 found
    exact .inr ⟨c, .inr (.inr (.inl here)), pruned⟩
  · exact .inl (.inr (.inr (.inr sorted)))

theorem passes_prune (env : Environment) (f : Frame) (e : Scalar) : passes env e.prune f = passes env (some e) f := by
  -- an operand that is constantly true is dropped, and anything else is kept whole
  have whole {e : Scalar} : passes env (if e.isConstantTrue then none else some e) f = passes env (some e) f := by
    split
    next true =>
      cases e with
      | constant v => exact true.symm
      | _ => cases true
    next => rfl
  induction e with
  | binary l op r ihl ihr =>
    unfold Scalar.prune
    split
    next conjunction =>
      subst conjunction
      have both : passes env (some (.binary l .and r)) f = (passes env (some l) f && passes env (some r) f) :=
        passes_both (some l) r f
      rw [both, ← ihl, ← ihr]
      cases l.prune with
      | none => cases r.prune <;> rfl
      | some a =>
        cases r.prune with
        | none => exact (Bool.and_true _).symm
        | some b => exact passes_both (some a) b f
    next => rfl
  | _ => exact whole

theorem passes_pruned (env : Environment) (f : Frame) (condition : Option Scalar) :
    passes env (condition.bind Scalar.prune) f = passes env condition f := by
  cases condition with
  | none => rfl
  | some e => exact passes_prune env f e

end Setwise.Relational
