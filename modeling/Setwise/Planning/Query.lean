import Setwise.Planning.Expression

/-!
Client queries as selects.

Each operator adds a clause to the select of its input. An operator that cannot be expressed on that
select, such as a filter behind paging, first wraps the select in a subquery, whose columns are those that the
shape reads.
-/

set_option autoImplicit false

namespace Setwise.Planning

open Client Relational

def isClosed (s : Select) : Bool :=
  s.isPaged || s.union.isSome

def wrap (m : Model) (subject : Subject) (s : Planned) : Step Planned := do
  let label ← newLabel "t"
  let (shape, columns) ← ofResult (s.shape.expose m subject label none [])
  -- nothing is pending on the new select, but the operators are remembered
  return { s with
    select := { source := .subquery { s.select with projection := columns } label }
    shape }

def wrapIf (m : Model) (subject : Subject) (needed : Bool) (s : Planned) : Step Planned :=
  if needed then wrap m subject s else pure s

def asSource (m : Model) (subject : Subject) (s : Planned) : Step (Source × Shape) := do
  let s ← wrapIf m subject (!s.select.isBare) s
  return (s.select.source, s.shape)

def localRows (rows : LocalRows) : Step Planned := do
  let label ← newLabel "v"
  let cells := match rows with
    | .parameter name _ => LiteralRows.pending name
    | .records _ elements =>
      .immediate (elements.map fun r => r.fields.map fun (_, v) => Scalar.constant v)
  return {
    select := { source := .literal { label, columns := rows.fields, rows := cells } }
    shape := .record (rows.fields.map fun c => (c, .scalar (.column label c))) }

def addFilter (s : Select) (condition : Scalar) : Select :=
  if s.groupBy.isEmpty then { s with predicate := some (Scalar.both s.predicate condition) }
  -- behind a grouping, the condition is one on groups
  else { s with having := some (Scalar.both s.having condition) }

def unite (m : Model) (subject : Subject) (l r : Planned) : Step Planned := do
  let label ← newLabel "t"
  let (shape, columns) ← ofResult (l.shape.expose m subject label none [])
  let (_, others) ← ofResult (r.shape.expose m subject label none [])
  -- columns are told apart by the names that they get, not by the members that they come from
  if columns.map Projection.name ≠ others.map Projection.name then fail .unionShapes subject
  let right := { r.select with projection := others }
  let left := { l.select with projection := columns, union := some right }
  return {
    select := { source := .subquery left label }
    shape
    operators := l.operators ++ ["Union"] }

def query (m : Model) (q : Query) : Step Planned :=
  match q with
  | .set name => do
    let e ← lookUp (m.entity name)
    if e.owned then fail (.ownedSet name) (.query q)
    let table ← newTable e
    return {
      select := { source := .table table }
      shape := .entity { entity := e.name, label := table.label } }
  | .rows collection => localRows collection
  | .filter input predicate => do
    let s ← query m input
    let s ← wrapIf m (.query q) (isClosed s.select) s
    let scope ← scopeOf predicate [s.shape]
    let (condition, select) ← against s.select (scalar m scope predicate.body)
    return { s with select := addFilter select condition }
  | .map input selector => do
    let s ← query m input
    let scope ← scopeOf selector [s.shape]
    let (shape, select) ← against s.select (expr m scope selector.body)
    return { s with select, shape }
  | .join outer inner outerKey innerKey result => do
    let s ← query m outer
    let s ← wrapIf m (.query q) (isClosed s.select || !s.select.groupBy.isEmpty) s
    let i ← query m inner
    let (source, innerShape) ← asSource m (.query q) i
    let outerScope ← scopeOf outerKey [s.shape]
    let (l, select) ← against s.select (expr m outerScope outerKey.body)
    let innerScope ← scopeOf innerKey [innerShape]
    -- a navigation in the inner key would add joins in front of the source that it starts from
    let r ← standalone m innerScope (.query q) innerKey.body
    let on ← ofResult (Shape.equality m (.query q) l r)
    let select := { select with joins := select.joins ++ [{ kind := .inner, source, on := some on }] }
    let scope ← scopeOf result [s.shape, innerShape]
    let (shape, select) ← against select (expr m scope result.body)
    return { select, shape, operators := s.operators ++ ["Join"] }
  | .orderBy input key descending => do
    let s ← query m input
    let s ← wrapIf m (.query q) (isClosed s.select) s
    let scope ← scopeOf key [s.shape]
    let (k, select) ← against s.select (expr m scope key.body)
    let keys ← ofResult (Shape.scalars (.query q) k)
    return { s with
      select := { select with orderBy := keys.map fun key => { key, descending } }
      operators := s.operators ++ ["OrderBy"] }
  | .take input count => do
    let s ← query m input
    -- rows may be skipped before they are counted, so an offset needs no subquery
    let s ← wrapIf m (.query q) (s.select.limit.isSome || s.select.union.isSome) s
    let (limit, select) ← against s.select (scalar m [] count)
    return { s with
      select := { select with limit := some limit }
      operators := s.operators ++ ["Take"] }
  | .skip input count => do
    let s ← query m input
    let s ← wrapIf m (.query q) (isClosed s.select) s
    let (offset, select) ← against s.select (scalar m [] count)
    return { s with
      select := { select with offset := some offset }
      operators := s.operators ++ ["Skip"] }
  | .groupBy input key => do
    let s ← query m input
    let s ← wrapIf m (.query q) (isClosed s.select || !s.select.groupBy.isEmpty) s
    let scope ← scopeOf key [s.shape]
    let (k, select) ← against s.select (expr m scope key.body)
    let keys ← ofResult (Shape.scalars (.query q) k)
    -- grouping forgets the order of its input
    return {
      select := { select with groupBy := keys, orderBy := [] }
      shape := .grouping k
      operators := s.operators ++ ["GroupBy"] }
  | .union left right => do
    let l ← query m left
    let r ← query m right
    -- a side that is ordered is wrapped, since an ordering would apply to the union
    let l ← wrapIf m (.query q) (l.select.isPaged || !l.select.orderBy.isEmpty) l
    let r ← wrapIf m (.query q) (r.select.isPaged || !r.select.orderBy.isEmpty) r
    unite m (.query q) l r

end Setwise.Planning
