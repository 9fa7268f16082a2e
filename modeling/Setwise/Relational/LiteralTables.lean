import Setwise.Relational.Plan

/-!
The literal tables of a block: listing them and replacing them.

Sources and joins are visited from left to right, subqueries where they stand, and the second side of a
union last. Expressions hold no tables.
-/

set_option autoImplicit false

namespace Setwise.Relational

mutual

def Select.literalTables (s : Select) : List LiteralTable :=
  match s with
  | { source, joins, union, .. } =>
    Source.literalTables source ++ Join.literalTablesAll joins ++ Select.literalTablesOption union

def Source.literalTables (s : Source) : List LiteralTable :=
  match s with
  | .table _ => []
  | .literal v => [v]
  | .subquery select _ => select.literalTables

def Join.literalTablesAll (js : List (Join Select)) : List LiteralTable :=
  match js with
  | [] => []
  | j :: rest => Join.literalTables j ++ Join.literalTablesAll rest

def Join.literalTables (j : Join Select) : List LiteralTable :=
  match j with
  | { source, .. } => Source.literalTables source

def Select.literalTablesOption (s : Option Select) : List LiteralTable :=
  match s with
  | none => []
  | some select => select.literalTables

end

def Statement.literalTables : Statement → List LiteralTable
  | .delete _ _ joins | .update _ _ _ joins => Join.literalTablesAll joins
  | .insertInto _ _ select => select.literalTables
  | .upsert _ source .. => Select.literalTablesOption source
  | .merge _ source .. => Source.literalTables source
  | .truncate _ | .noop => []

def Block.literalTables : Block → List LiteralTable
  | .select s => s.literalTables
  | .affected s => s.literalTables

section Replacement

variable {ε : Type} (f : LiteralTable → Except ε LiteralTable)

mutual

def Select.mapLiteralTables (s : Select) : Except ε Select :=
  match s with
  | { source, joins, predicate, groupBy, having, projection, union, orderBy, limit, offset } => do
    let source ← Source.mapLiteralTables source
    let joins ← Join.mapLiteralTablesAll joins
    let union ← Select.mapLiteralTablesOption union
    return { source, joins, predicate, groupBy, having, projection, union, orderBy, limit, offset }

def Source.mapLiteralTables (s : Source) : Except ε Source :=
  match s with
  | .table ref => .ok (.table ref)
  | .literal v => do
    let v ← f v
    return .literal v
  | .subquery select label => do
    let select ← Select.mapLiteralTables select
    return .subquery select label

def Join.mapLiteralTablesAll (js : List (Join Select)) : Except ε (List (Join Select)) :=
  match js with
  | [] => .ok []
  | j :: rest => do
    let j ← Join.mapLiteralTables j
    let rest ← Join.mapLiteralTablesAll rest
    return j :: rest

def Join.mapLiteralTables (j : Join Select) : Except ε (Join Select) :=
  match j with
  | { kind, source, on } => do
    let source ← Source.mapLiteralTables source
    return { kind, source, on }

def Select.mapLiteralTablesOption (s : Option Select) : Except ε (Option Select) :=
  match s with
  | none => .ok none
  | some select => do
    let select ← Select.mapLiteralTables select
    return some select

end

def Statement.mapLiteralTables : Statement → Except ε Statement
  | .delete table predicate joins => do
    let joins ← Join.mapLiteralTablesAll f joins
    return .delete table predicate joins
  | .update table set predicate joins => do
    let joins ← Join.mapLiteralTablesAll f joins
    return .update table set predicate joins
  | .insertInto table schema select => do
    let select ← Select.mapLiteralTables f select
    return .insertInto table schema select
  | .upsert table source inserted updated constraint conflictColumns => do
    let source ← Select.mapLiteralTablesOption f source
    return .upsert table source inserted updated constraint conflictColumns
  | .merge target source on matched inserted deleteUnmatched => do
    let source ← Source.mapLiteralTables f source
    return .merge target source on matched inserted deleteUnmatched
  | .truncate table => .ok (.truncate table)
  | .noop => .ok .noop

def Block.mapLiteralTables : Block → Except ε Block
  | .select s => do
    let s ← Select.mapLiteralTables f s
    return .select s
  | .affected s => do
    let s ← Statement.mapLiteralTables f s
    return .affected s

end Replacement

end Setwise.Relational
