import Setwise.Proofs.Groups

/-!
What a query gathers, navigation by navigation.

A lambda is applied to elements, and reads a reference of an element in the row that the foreign key of the element leads
to. The elements of a query come from the rows of its sets and collections, and each operator makes others of them
(`Query.Gathers`); an element whose lambda follows a required reference to nowhere is lost. Ordering and paging wait for
an operator that needs them carried out, or for the end (`Query.Delivers`).
-/

set_option autoImplicit false

namespace Setwise

open Client Relational Execution Planning Sorting

/-! ## Entities that are met -/

/-- The entities that can be met in a database: those in the rows of its tables, and those that members of them are. -/
inductive Met (m : Model) (db : Database) : Element → Prop
  | stored {type : String} {e : Entity} {t : Table} {row : Row} (known : m.entity? type = some e)
      (table : db.find? e.table = some t) (member : row ∈ t.rows) : Met m db (.ofRow m type t.columnNames row)
  | member {x : Element} {name type : String} {row : List (String × Option Value)} (owner : Met m db x)
      (read : x.member m db name = some (.entity type row)) : Met m db (.entity type row)

/-- Every foreign key that is met leads to one row at most, and every owned type is stored with its owner. -/
structure LeadsOn (m : Model) (db : Database) : Prop where
  owned : ∀ type e name n, m.entity? type = some e → e.property? name = none → e.navigation? name = some n →
    n.kind = .owned → (m.columns? e).isSome
  single : ∀ x name, Met m db x → x.LeadsToOne m db name

/-! ## Lambdas -/

section

variable (m : Model) (db : Database) (ps : Parameters)

/-- What a lambda returns for these arguments, whose members are NULL constants where `nulls` says so. -/
def Client.Lambda.gives (l : Lambda) (nulls : List Nulls) (args : List Element) : Option Element :=
  l.body.result? m db ps (fun e => e.nullAt (l.params.zip nulls) []) (l.params.zip args)

/-- The members of what a lambda returns that are NULL constants. -/
def Client.Lambda.nulls (l : Lambda) (nulls : List Nulls) : Nulls :=
  l.body.nullAt (l.params.zip nulls)

end

namespace Nulls

def none : Nulls :=
  fun _ => false

/-- Those of the key of a group. -/
def underKey (key : Nulls) : Nulls
  | [] => false
  | name :: path => name == "Key" && key path

end Nulls

/-! ## Elements with a pending order -/

/-- Elements with the keys that they are to be sorted by, and the paging that is to follow. -/
structure Gathered where
  entries : List (Row × Element)
  descending : Bool := false
  limit : Option Element := none
  offset : Option Element := none
  nulls : Nulls := Nulls.none
  grouped : Bool := false

namespace Gathered

def of (xs : List Element) : Gathered where
  entries := xs.map fun x => ([], x)

def isPaged (c : Gathered) : Bool :=
  c.limit.isSome || c.offset.isSome

def number? : Option Element → Option (Option Nat)
  | none => some none
  | some x => x.count?.map some

/-- The elements, sorted and paged. -/
def delivered? (c : Gathered) : Option (List Element) := do
  let skip ← number? c.offset
  let take ← number? c.limit
  let rest := ((c.entries.mergeSort (rowLe c.descending)).map Prod.snd).drop (skip.getD 0)
  return match take with
    | some n => rest.take n
    | none => rest

/-- The elements for an operator that may need them sorted and paged. -/
def opened? (needed : Bool) (c : Gathered) : Option Gathered :=
  if needed then c.delivered?.map .of else some c

/-- Something else in the place of each element, or nothing. -/
def replace (f : Row → Element → Option (Row × Element)) (c : Gathered) : Gathered :=
  { c with entries := c.entries.filterMap fun x => f x.1 x.2 }

end Gathered

def Client.LocalRows.element (fields : List String) (row : Row) : Element :=
  .record (fields.map fun c => (c, .scalar (columnValue "" fields row c).toOption))

def Client.LocalRows.rows? (ps : Parameters) : LocalRows → Option (List Row)
  | .records _ elements => some (elements.map fun r => r.fields.map Prod.snd)
  | .parameter name _ => (ps.rows name).toOption

namespace Client

section

variable (m : Model) (db : Database) (ps : Parameters)

/-- What a query gathers. -/
inductive Query.Gathers : Query → Gathered → Prop
  | set {name : String} {e : Entity} {t : Table} (known : m.entity? name = some e) (table : db.find? e.table = some t) :
      Gathers (.set name) (.of (t.rows.map (.ofRow m name t.columnNames)))
  | rows {collection : LocalRows} {rows : List Row} (given : collection.rows? ps = some rows) :
      Gathers (.rows collection) (.of (rows.map (LocalRows.element collection.fields)))
  | filter {q : Query} {c c' : Gathered} {predicate : Lambda} (input : Gathers q c)
      (opened : c.opened? c.isPaged = some c') :
      Gathers (.filter q predicate) (c'.replace fun k x =>
        (predicate.gives m db ps [c'.nulls] [x]).bind fun y => if y.holds then some (k, x) else none)
  | map {q : Query} {c : Gathered} {selector : Lambda} (input : Gathers q c) :
      Gathers (.map q selector)
        { c.replace fun k x => (selector.gives m db ps [c.nulls] [x]).map fun y => (k, y) with
          nulls := selector.nulls [c.nulls] }
  | orderBy {q : Query} {c c' : Gathered} {key : Lambda} (descending : Bool) (input : Gathers q c)
      (opened : c.opened? c.isPaged = some c') :
      Gathers (.orderBy q key descending)
        { c'.replace fun _ x => (key.gives m db ps [c'.nulls] [x]).map fun k => (k.keyRow, x) with descending }
  | take {q : Query} {c c' : Gathered} {count : Expr} {n : Element} (input : Gathers q c)
      (opened : c.opened? c.limit.isSome = some c')
      (number : count.result? m db ps (fun e => e.nullAt [] []) [] = some n) :
      Gathers (.take q count) { c' with limit := some n }
  | skip {q : Query} {c c' : Gathered} {count : Expr} {n : Element} (input : Gathers q c)
      (opened : c.opened? c.isPaged = some c')
      (number : count.result? m db ps (fun e => e.nullAt [] []) [] = some n) :
      Gathers (.skip q count) { c' with offset := some n }
  /-- A subquery passes no NULL constants on. -/
  | join {outer inner : Query} {c c' d : Gathered} {ys : List Element} {nulls : Nulls}
      {outerKey innerKey result : Lambda} (left : Gathers outer c)
      (opened : c.opened? (c.isPaged || c.grouped) = some c') (right : Gathers inner d)
      (delivered : d.delivered? = some ys) (passed : nulls = d.nulls ∨ nulls = Nulls.none) :
      Gathers (.join outer inner outerKey innerKey result)
        { c' with
          entries := c'.entries.flatMap fun (k, x) =>
            (outerKey.gives m db ps [c'.nulls] [x]).toList.flatMap fun key =>
              (partnersOf m (fun y => innerKey.gives m db ps [nulls] [y]) ys key).filterMap fun y =>
                (result.gives m db ps [c'.nulls, nulls] [x, y]).map fun z => (k, z)
          nulls := result.nulls [c'.nulls, nulls] }
  | groupBy {q : Query} {c c' : Gathered} {key : Lambda} {keys : List Element} (input : Gathers q c)
      (opened : c.opened? (c.isPaged || c.grouped) = some c')
      (found : keys = c'.entries.filterMap fun (_, x) => key.gives m db ps [c'.nulls] [x])
      (leaves : ∀ k ∈ keys, k.leaves ≠ []) :
      Gathers (.groupBy q key)
        { Gathered.of ((firstKeys [] keys).map .group) with
          nulls := Nulls.underKey (key.nulls [c'.nulls])
          grouped := true }
  | groupByNothing {q : Query} {c c' : Gathered} {key : Lambda} {keys : List Element} (input : Gathers q c)
      (opened : c.opened? (c.isPaged || c.grouped) = some c')
      (found : keys = c'.entries.filterMap fun (_, x) => key.gives m db ps [c'.nulls] [x])
      (leafless : ∀ k ∈ keys, k.leaves = []) :
      Gathers (.groupBy q key)
        { Gathered.of (keys.map .group) with nulls := Nulls.underKey (key.nulls [c'.nulls]) }
  | union {left right : Query} {c d : Gathered} {xs ys : List Element} {keyed : List (Row × Element)}
      (first : Gathers left c) (second : Gathers right d) (delivered : c.delivered? = some xs)
      (delivered' : d.delivered? = some ys) (rows : withRows id (xs ++ ys) = some keyed)
      (leaves : ∀ x ∈ xs ++ ys, x.leaves ≠ []) : Gathers (.union left right) (.of (firstOfRows [] keyed))
  | unionOfNothing {left right : Query} {c d : Gathered} {xs ys zs : List Element} (first : Gathers left c)
      (second : Gathers right d) (delivered : c.delivered? = some xs) (delivered' : d.delivered? = some ys)
      (among : zs ⊆ xs ++ ys) (leafless : ∀ x ∈ xs ++ ys, x.leaves = []) : Gathers (.union left right) (.of zs)

/-- What a query delivers in the end. -/
def Query.Delivers (q : Query) (xs : List Element) : Prop :=
  ∃ c, q.Gathers m db ps c ∧ c.delivered? = some xs

end

end Client

end Setwise
