import Setwise.Sql.Fragment

/-!
Selects as fragments of a command.

Paging is written first, so its parameters are registered first, wherever its words stand. A nested
select leaves out an ordering that has no paging to go with it.
-/

set_option autoImplicit false

namespace Setwise.Sql

open Relational

namespace Writer

variable (d : Dialect) (ps : Parameters)

def valueList : List Scalar → Writer (List Fragment)
  | [] => pure []
  | e :: rest => do
    let f ← value d ps e
    let rest ← valueList rest
    return f :: rest

def conditionLine (clause : String) : Option Scalar → Writer (List Fragment)
  | none => pure []
  | some e => do
    let f ← condition d ps e
    return [.word clause ++ f]

def paging (limit offset : Option Scalar) (ordered : Bool) : Writer (Fragment × List Fragment) :=
  match d, limit, offset with
  | _, none, none => pure ([], [])
  | .sqlite, some l, none => do
    let l ← value d ps l
    return ([], [.word "LIMIT " ++ l])
  | .sqlite, none, some o => do
    let o ← value d ps o
    return ([], [.word "LIMIT -1 OFFSET " ++ o])
  | .sqlite, some l, some o => do
    let l ← value d ps l
    let o ← value d ps o
    return ([], [.word "LIMIT " ++ l ++ .word " OFFSET " ++ o])
  | .sqlServer, some l, none => do
    let l ← value d ps l
    return (.word "TOP(" ++ l ++ .word ") ", [])
  | .sqlServer, limit, some o => do
    -- the dialect skips rows of an ordered select only
    let order := if ordered then [] else [Fragment.word "ORDER BY (SELECT 1)"]
    let o ← value d ps o
    let rows := .word "OFFSET " ++ o ++ .word " ROWS"
    match limit with
    | none => return ([], order ++ [rows])
    | some l => do
      let l ← value d ps l
      return ([], order ++ [rows, .word "FETCH NEXT " ++ l ++ .word " ROWS ONLY"])

def outputColumn (p : Projection) : Writer Fragment := do
  let f ← value d ps p.value
  match p.value with
  -- a column that keeps its name is not labelled with it again
  | .column _ name => return if name = p.name then f else f.labelled p.name
  | _ => return f.labelled p.name

def outputColumns : List Projection → Writer (List Fragment)
  | [] => pure []
  | p :: rest => do
    let f ← outputColumn d ps p
    let rest ← outputColumns rest
    return f :: rest

def projection (list : List Projection) : Writer Fragment := do
  if list.isEmpty then return .word "*"
  let columns ← outputColumns d ps list
  return .list columns

def orderItems : List OrderItem → Writer (List Fragment)
  | [] => pure []
  | item :: rest => do
    let f ← value d ps item.key
    let rest ← orderItems rest
    return (if item.descending then f ++ .word " DESC" else f) :: rest

def boundCells (parameter : String) (row column : Nat) : Row → Writer (List Fragment)
  | [] => pure []
  | v :: rest => do
    let f ← cell (LiteralTable.cellName parameter row column) v
    let rest ← boundCells parameter row (column + 1) rest
    return f :: rest

def boundRows (parameter : String) (row : Nat) : List Row → Writer (List (List Fragment))
  | [] => pure []
  | r :: rest => do
    let cells ← boundCells parameter row 0 r
    let rest ← boundRows parameter (row + 1) rest
    return cells :: rest

def immediateRows : List (List Scalar) → Writer (List (List Fragment))
  | [] => pure []
  | r :: rest => do
    let cells ← valueList d ps r
    let rest ← immediateRows rest
    return cells :: rest

def literalCells (v : LiteralTable) : Writer (List (List Fragment)) :=
  match v.rows with
  | .immediate rows => immediateRows d ps rows
  | .pending parameter => throw (.unbound parameter)
  | .resolved parameter count =>
    match ps.rows parameter with
    | .error e => throw (.parameter e)
    | .ok rows => boundRows parameter 0 (rows.take count)

def emptyLiteral (v : LiteralTable) : Fragment :=
  let nulls := v.columns.map fun c => (Fragment.word "NULL").labelled c
  let never := match d with
    | .sqlite => " WHERE 0"
    | .sqlServer => " WHERE 1 = 0"
  Fragment.labelled (.paren (.word "SELECT " ++ .list nulls ++ .word never)) v.label

def filledLiteral (v : LiteralTable) (first : List Fragment) (rest : List (List Fragment)) : Fragment :=
  match d with
  | .sqlite =>
    let named := (first.zip v.columns).map fun (f, c) => f.labelled c
    let selects := (named :: rest).map fun cells => .word "SELECT " ++ .list cells
    Fragment.labelled (.paren (.separated " UNION ALL " selects)) v.label
  | .sqlServer =>
    let rows := (first :: rest).map fun cells => Fragment.paren (.list cells)
    Fragment.labelled (.paren (.word "VALUES " ++ .list rows)) v.label
      ++ .word " " ++ .paren (.list (v.columns.map .identifier))

def literalTable (v : LiteralTable) : Writer Fragment := do
  match ← literalCells d ps v with
  | [] => return emptyLiteral d v
  | first :: rest => return filledLiteral d v first rest

def joined (kind : JoinKind) (source : Fragment) : Option Fragment → Fragment
  | some on =>
    match kind with
    | .inner => .word "INNER JOIN " ++ source ++ .word " ON " ++ on
    | .leftOuter => .word "LEFT JOIN " ++ source ++ .word " ON " ++ on
    | .cross => .word "CROSS JOIN " ++ source
  | none =>
    match kind with
    | .leftOuter => .word "LEFT JOIN " ++ source ++ .word " ON 1 = 1"
    | .inner | .cross => .word "CROSS JOIN " ++ source

def joinCondition (kind : JoinKind) (on : Option Scalar) : Writer (Option Fragment) :=
  match kind, on with
  | .cross, _ | _, none => pure none
  | _, some e => do
    let f ← condition d ps e
    return some f

mutual

def select (s : Select) (nested : Bool) : Writer Fragment :=
  match s with
  | { source := from', joins := joined, predicate, groupBy, having, projection := columns, union, orderBy,
      limit, offset } => do
    let (top, tail) ← paging d ps limit offset (!orderBy.isEmpty)
    let columns ← projection d ps columns
    let from' ← source from'
    let joined ← joins joined
    let filter ← conditionLine d ps "WHERE " predicate
    let keys ← valueList d ps groupBy
    let group := if keys.isEmpty then [] else [.word "GROUP BY " ++ Fragment.list keys]
    let having ← conditionLine d ps "HAVING " having
    let united ← unionLines union
    let order ← if !orderBy.isEmpty && (limit.isSome || offset.isSome || !nested) then do
        let items ← orderItems d ps orderBy
        pure [.word "ORDER BY " ++ Fragment.list items]
      else pure []
    return .lines ([.word "SELECT " ++ top ++ columns, .word "FROM " ++ from'] ++ joined ++ filter ++ group
      ++ having ++ united ++ order ++ tail)

def source (s : Source) : Writer Fragment :=
  match s with
  | .table ref => return (Fragment.table ref).labelled ref.label
  | .literal v => literalTable d ps v
  | .subquery inner label => do
    let f ← select inner true
    return Fragment.labelled (.word "(\n" ++ f ++ .word "\n)") label

def joins (js : List (Join Select)) : Writer (List Fragment) :=
  match js with
  | [] => pure []
  | j :: rest => do
    let f ← join j
    let rest ← joins rest
    return f :: rest

def join (j : Join Select) : Writer Fragment :=
  match j with
  | { kind, source := from', on } => do
    let f ← source from'
    let on ← joinCondition d ps kind on
    return joined kind f on

def unionLines (s : Option Select) : Writer (List Fragment) :=
  match s with
  | none => pure []
  | some other => do
    let f ← select other true
    return [.word "UNION", f]

end

end Writer

end Setwise.Sql
