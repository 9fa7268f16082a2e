import Setwise.Execution.Frame
import Setwise.Relational.Select

/-!
The rows of a select.

Sources are joined from left to right by nested loops. Frames pass the predicate, are reduced to the first
of each group, pass the filter on groups, and are sorted, paged and projected. A union is paged and sorted
after the rows of both sides have come together, by its output columns.
-/

set_option autoImplicit false

namespace Setwise.Execution

open Relational

def rowsAgree : Row → Row → Bool
  | [], [] => true
  -- two NULLs make one group, though they do not compare as equal
  | v :: vs, w :: ws => (v.isNull && w.isNull || v.equates w) && rowsAgree vs ws
  | _, _ => false

def sortOrder (v w : Value) : Ordering :=
  match v.isNull, w.isNull with
  | true, true => .eq
  -- NULL comes first
  | true, false => .lt
  | false, true => .gt
  | false, false => (v.compare? w).getD .eq

def keyOrder : List OrderItem → Row → Row → Ordering
  | item :: items, v :: vs, w :: ws =>
    let first := if item.descending then sortOrder w v else sortOrder v w
    first.then (keyOrder items vs ws)
  | _, _, _ => .eq

section

variable (env : Environment)

def joinRows (kind : JoinKind) (on : Option Scalar) (rs : RowSet) (frame : Frame) :
    List Row → Except Error (List Frame)
  | [] => .ok []
  | r :: rest => do
    let extended := frame ++ [rs.visible r]
    let keep ← if kind = .cross then .ok true else holdsOption env extended on
    let others ← joinRows kind on rs frame rest
    return if keep then extended :: others else others

/-- The frames that a frame becomes when a source joins it. An outer join keeps a frame without a match
beside a row of NULLs. -/
def extendFrame (kind : JoinKind) (on : Option Scalar) (rs : RowSet) (frame : Frame) :
    Except Error (List Frame) := do
  let found ← joinRows env kind on rs frame rs.rows
  return if found.isEmpty && kind == .leftOuter then [frame ++ [rs.absent]] else found

def extendFrames (kind : JoinKind) (on : Option Scalar) (rs : RowSet) :
    List Frame → Except Error (List Frame)
  | [] => .ok []
  | f :: rest => do
    let here ← extendFrame env kind on rs f
    let others ← extendFrames kind on rs rest
    return here ++ others

def filterFrames (condition : Option Scalar) : List Frame → Except Error (List Frame)
  | [] => .ok []
  | f :: rest => do
    let keep ← holdsOption env f condition
    let others ← filterFrames condition rest
    return if keep then f :: others else others

def firstOfGroups (keys : List Scalar) (seen : List Row) : List Frame → Except Error (List Frame)
  | [] => .ok []
  | f :: rest => do
    let key ← evalAll env f keys
    if seen.any fun k => rowsAgree k key then firstOfGroups keys seen rest
    else do
      let others ← firstOfGroups keys (seen ++ [key]) rest
      return f :: others

def groupFrames (keys : List Scalar) (frames : List Frame) : Except Error (List Frame) :=
  if keys.isEmpty then .ok frames else firstOfGroups env keys [] frames

def withKeys (items : List OrderItem) : List Frame → Except Error (List (Row × Frame))
  | [] => .ok []
  | f :: rest => do
    let key ← evalAll env f (items.map OrderItem.key)
    let rest ← withKeys items rest
    return (key, f) :: rest

def sortFrames (items : List OrderItem) (frames : List Frame) : Except Error (List Frame) :=
  if items.isEmpty then .ok frames
  else do
    let keyed ← withKeys env items frames
    -- the sort is stable, so ties stay in the order in which they were joined
    return (keyed.mergeSort fun a b => keyOrder items a.1 b.1 != .gt).map Prod.snd

def pageCount : Option Scalar → Except Error (Option Nat)
  | none => .ok none
  | some e => do
    -- counts are read outside every row
    let v ← eval env [] e
    match v with
    | .int n => if 0 ≤ n then return some n.toNat else .error (.invalidPaging v)
    | _ => .error (.invalidPaging v)

def page {α : Type} (limit offset : Option Scalar) (items : List α) : Except Error (List α) := do
  let skip ← pageCount env offset
  let take ← pageCount env limit
  let rest := items.drop (skip.getD 0)
  return match take with
    | some n => rest.take n
    | none => rest

def projectAll (ps : List Projection) : List Frame → Except Error (List Row)
  | [] => .ok []
  | f :: rest => do
    let row ← project env f ps
    let rest ← projectAll ps rest
    return row :: rest

def immediateRows : List (List Scalar) → Except Error (List Row)
  | [] => .ok []
  | r :: rest => do
    let row ← evalAll env [] r
    let rest ← immediateRows rest
    return row :: rest

def literalRows (v : LiteralTable) : Except Error RowSet := do
  let rows ← match v.rows with
    | .immediate rows => immediateRows env rows
    | .resolved parameter count => do
      let rows ← (env.parameters.rows parameter).mapError Error.parameter
      pure (rows.take count)
    -- binding has replaced every pending table before a block runs
    | .pending parameter => .error (.unbound parameter)
  return ⟨v.label, v.columns, rows⟩

def restrict (predicate : Option Scalar) (groupBy : List Scalar) (having : Option Scalar)
    (frames : List Frame) : Except Error (List Frame) := do
  let frames ← filterFrames env predicate frames
  let frames ← groupFrames env groupBy frames
  filterFrames env having frames

end

def distinctRows (seen : List Row) : List Row → List Row
  | [] => []
  | r :: rest =>
    if seen.any fun d => rowsAgree d r then distinctRows seen rest
    else r :: distinctRows (seen ++ [r]) rest

structure Output where
  columns : List String
  rows : List Row
  deriving DecidableEq

def outputOf (env : Environment) (projection : List Projection) (columns : List String)
    (frames : List Frame) : Except Error Output :=
  if projection.isEmpty then
    .ok ⟨columns, frames.map fun f => f.flatMap Visible.values⟩
  else do
    let rows ← projectAll env projection frames
    return ⟨projection.map Projection.name, rows⟩

/-- The rows of a union, sorted and paged by its output columns, which are visible under the label of the
first source. -/
def unitedRows (env : Environment) (label : String) (columns : List String) (orderBy : List OrderItem)
    (limit offset : Option Scalar) (rows : List Row) : Except Error (List Row) := do
  let rs : RowSet := ⟨label, columns, []⟩
  let frames := (distinctRows [] rows).map fun r => [rs.visible r]
  let frames ← sortFrames env orderBy frames
  let frames ← page env limit offset frames
  return frames.flatMap fun f => f.map Visible.values

section

variable (db : Database) (env : Environment)

mutual

def selectRows (s : Select) : Except Error Output :=
  match s with
  | { source, joins, predicate, groupBy, having, projection, union, orderBy, limit, offset } => do
    let first ← sourceRows source
    let (frames, columns) ← joinAll joins (first.rows.map fun r => [first.visible r])
    let frames ← restrict env predicate groupBy having frames
    match union with
    | none =>
      let frames ← sortFrames env orderBy frames
      let frames ← page env limit offset frames
      outputOf env projection (first.columns ++ columns) frames
    | some other =>
      let output ← outputOf env projection (first.columns ++ columns) frames
      let more ← selectRows other
      let rows ← unitedRows env first.label output.columns orderBy limit offset (output.rows ++ more.rows)
      return { output with rows }

def sourceRows (s : Source) : Except Error RowSet :=
  match s with
  | .table ref => do
    let t ← (db.get ref.name).mapError .table
    return .ofTable t ref.label
  | .literal v => literalRows env v
  | .subquery select label => do
    let output ← selectRows select
    return ⟨label, output.columns, output.rows⟩

def joinAll (js : List (Join Select)) (frames : List Frame) : Except Error (List Frame × List String) :=
  match js with
  | [] => .ok (frames, [])
  | j :: rest => do
    let (frames, here) ← joinOne j frames
    let (frames, others) ← joinAll rest frames
    return (frames, here ++ others)

def joinOne (j : Join Select) (frames : List Frame) : Except Error (List Frame × List String) :=
  match j with
  | { kind, source, on } => do
    let rs ← sourceRows source
    let frames ← extendFrames env kind on rs frames
    return (frames, rs.columns)

end

def selectFrames (s : Select) : Except Error (List Frame) := do
  let first ← sourceRows db env s.source
  let (frames, _) ← joinAll db env s.joins (first.rows.map fun r => [first.visible r])
  restrict env s.predicate s.groupBy s.having frames

end

end Setwise.Execution
