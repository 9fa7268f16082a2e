import Setwise.Relational.Plan

/-!
Pruning: filters lose the conjuncts that are constant and true.

Predicates and group filters are pruned at every depth; join conditions stay as they are.
-/

set_option autoImplicit false

namespace Setwise.Relational

namespace Scalar

def isConstantTrue : Scalar → Bool
  | constant v => v.isTrue
  | _ => false

/-- Drop the conjuncts that are constant and true; `none` when none is left. -/
def prune : Scalar → Option Scalar
  | binary l op r =>
    if op = .and then
      match l.prune, r.prune with
      | some l, some r => some (binary l .and r)
      | some l, none => some l
      -- nothing is left of a conjunction whose operands are both dropped
      | none, rest => rest
    else some (binary l op r)
  | e => if e.isConstantTrue then none else some e

end Scalar

mutual

def Select.prune (s : Select) : Select :=
  match s with
  | { source, joins, predicate, groupBy, having, projection, union, orderBy, limit, offset } =>
    { source := Source.prune source
      joins := Join.pruneAll joins
      predicate := predicate.bind Scalar.prune
      groupBy
      having := having.bind Scalar.prune
      projection
      union := Select.pruneOption union
      orderBy, limit, offset }

def Source.prune (s : Source) : Source :=
  match s with
  | .table ref => .table ref
  | .literal v => .literal v
  | .subquery select label => .subquery select.prune label

def Join.pruneAll (js : List (Join Select)) : List (Join Select) :=
  match js with
  | [] => []
  | j :: rest => Join.prune j :: Join.pruneAll rest

def Join.prune (j : Join Select) : Join Select :=
  match j with
  | { kind, source, on } => { kind, source := Source.prune source, on }

def Select.pruneOption (s : Option Select) : Option Select :=
  match s with
  | none => none
  | some select => some select.prune

end

def Statement.prune : Statement → Statement
  | .delete table predicate joins => .delete table (predicate.bind Scalar.prune) (Join.pruneAll joins)
  | .update table set predicate joins =>
    .update table set (predicate.bind Scalar.prune) (Join.pruneAll joins)
  | .insertInto table schema select => .insertInto table schema select.prune
  | .upsert table source inserted updated constraint conflictColumns =>
    .upsert table (Select.pruneOption source) inserted updated constraint conflictColumns
  | .merge target source on matched inserted deleteUnmatched =>
    .merge target (Source.prune source) on matched inserted deleteUnmatched
  | .truncate table => .truncate table
  | .noop => .noop

def Block.prune : Block → Block
  | .select s => .select s.prune
  | .affected s => .affected s.prune

end Setwise.Relational
