import Setwise.Execution.Selection
import Setwise.Proofs.Following
import Setwise.Proofs.StableSorting

/-!
What queries mean on lists of elements.

A filter keeps the elements that satisfy its predicate, a map takes every element to another one, a join keeps
the pairs whose keys are equated, ordering is a stable sort with NULL in front, paging is a prefix or a suffix,
and a union drops elements whose columns repeat those of an earlier one. An element can have values that cannot
be computed; a query has no meaning where such a value decides what becomes of an element, and neither where
the keys of an ordering have no total preorder. Equality with the constant NULL is a test for NULL.
-/

set_option autoImplicit false

namespace Setwise

open Client Execution Sorting

def Operator.isEquality : Operator → Bool
  | equal | notEqual => true
  | _ => false

/-! ## Types -/

inductive ElementType where
  | scalar
  | entity (name : String)
  | record (fields : List (String × ElementType))

namespace ElementType

def member? (m : Model) (name : String) : ElementType → Option ElementType
  | .entity type => do
    let e ← m.entity? type
    match e.property? name with
    | some _ => some .scalar
    | none => do
      let n ← e.navigation? name
      if n.isOwned && (m.columns? e).isSome then some (.entity n.target) else none
  | .record fields => fields.lookup name
  | .scalar => none

mutual

def width (m : Model) (t : ElementType) : Nat :=
  match t with
  | .scalar => 1
  | .entity name => (m.columnsOf name).length
  | .record fields => fieldsWidth m fields

def fieldsWidth (m : Model) (fs : List (String × ElementType)) : Nat :=
  match fs with
  | [] => 0
  | f :: rest => fieldWidth m f + fieldsWidth m rest

def fieldWidth (m : Model) (f : String × ElementType) : Nat :=
  match f with
  | (_, t) => width m t

end

end ElementType

namespace Client

mutual

def Expr.type? (m : Model) (scope : List (String × ElementType)) (e : Expr) : Option ElementType :=
  match e with
  | .param x => scope.lookup x
  | .constant _ | .runtime _ => some .scalar
  | .captured .. => none
  | .member of name => do
    let t ← of.type? m scope
    t.member? m name
  | .binary l _ r => do
    let _ ← l.type? m scope
    let _ ← r.type? m scope
    return .scalar
  | .not operand => do
    let _ ← operand.type? m scope
    return .scalar
  | .conditional test a b => do
    let _ ← test.type? m scope
    let _ ← a.type? m scope
    let _ ← b.type? m scope
    return .scalar
  | .new _ _ bindings => do
    let fields ← fieldTypes? m scope bindings
    return .record fields

def fieldTypes? (m : Model) (scope : List (String × ElementType)) (bs : List (Binding Expr)) :
    Option (List (String × ElementType)) :=
  match bs with
  | [] => some []
  | b :: rest => do
    let f ← fieldType? m scope b
    let rest ← fieldTypes? m scope rest
    return f :: rest

def fieldType? (m : Model) (scope : List (String × ElementType)) (b : Binding Expr) :
    Option (String × ElementType) :=
  match b with
  | .assign member value => do
    let t ← value.type? m scope
    return (member, t)
  | .items .. => none

end

def Lambda.type? (m : Model) (l : Lambda) (args : List ElementType) : Option ElementType :=
  l.body.type? m (l.params.zip args)

/-- The elements of a query, which follows no reference and does not group, are of a type. Both sides of a
union have elements of one type, with at least one column. -/
def Query.Typed (m : Model) : Query → ElementType → Prop
  | .set name, t => t = .entity name
  | .rows collection, t => t = .record (collection.fields.map fun c => (c, .scalar))
  | .filter input predicate, t => input.Typed m t ∧ (predicate.type? m [t]).isSome
  | .map input selector, t => ∃ u, input.Typed m u ∧ selector.type? m [u] = some t
  | .join outer inner outerKey innerKey result, t => ∃ u v, outer.Typed m u ∧ inner.Typed m v ∧
    (outerKey.type? m [u]).isSome ∧ (innerKey.type? m [v]).isSome ∧ result.type? m [u, v] = some t
  | .orderBy input key _, t => input.Typed m t ∧ (key.type? m [t]).isSome
  | .take input count, t | .skip input count, t => input.Typed m t ∧ (count.type? m []).isSome
  | .groupBy .., _ => False
  | .union left right, t => left.Typed m t ∧ right.Typed m t ∧ 0 < t.width m

mutual

/-- The constant NULL stands beside equality and inequality only. -/
def Expr.plain (e : Expr) : Bool :=
  match e with
  | .param _ | .captured .. | .runtime _ => true
  | .constant v => !v.isNull
  | .member of _ => of.plain
  | .binary l op r =>
    (op.isEquality && l.isNullConstant || l.plain) && (op.isEquality && r.isNullConstant || r.plain)
  | .not operand => operand.plain
  | .conditional test a b => test.plain && a.plain && b.plain
  | .new _ _ bindings => plainBindings bindings

def plainBindings (bs : List (Binding Expr)) : Bool :=
  match bs with
  | [] => true
  | b :: rest => plainBinding b && plainBindings rest

def plainBinding (b : Binding Expr) : Bool :=
  match b with
  | .assign _ value => value.plain
  | .items .. => true

end

/-- The constant NULL stands beside equality and inequality only, in all lambdas of a query. -/
def Query.plain : Query → Bool
  | .set _ | .rows _ => true
  | .filter input l | .map input l | .orderBy input l _ | .groupBy input l => input.plain && l.body.plain
  | .join outer inner outerKey innerKey result =>
    outer.plain && inner.plain && outerKey.body.plain && innerKey.body.plain && result.body.plain
  | .take input count | .skip input count => input.plain && count.plain
  | .union left right => left.plain && right.plain

def Query.ordered : Query → Bool
  | .orderBy .. => true
  | .filter input _ | .map input _ | .groupBy input _ | .join input .. => input.ordered
  | .set _ | .rows _ | .take .. | .skip .. | .union .. => false

/-- Between two orderings of one chain there is paging or a union. -/
def Query.separated : Query → Bool
  | .set _ | .rows _ => true
  | .filter input _ | .map input _ | .groupBy input _ | .take input _ | .skip input _ => input.separated
  | .orderBy input _ _ => !input.ordered && input.separated
  | .join outer inner .. => outer.separated && inner.separated
  | .union left right => left.separated && right.separated

end Client

/-! ## Elements -/

namespace Element

def value? : Element → Option Value
  | .scalar v => v
  | _ => none

mutual

def leaves (x : Element) : List (Option Value) :=
  match x with
  | .scalar v => [v]
  | .entity _ row => row.map Prod.snd
  | .record fields => fieldsLeaves fields
  | .group key => leaves key

def fieldsLeaves (fs : List (String × Element)) : List (Option Value) :=
  match fs with
  | [] => []
  | f :: rest => fieldLeaves f ++ fieldsLeaves rest

def fieldLeaves (f : String × Element) : List (Option Value) :=
  match f with
  | (_, x) => leaves x

end

def row? (x : Element) : Option Row :=
  x.leaves.mapM id

def operate (op : Operator) (v w : Option Value) : Option Value := do
  let v ← v
  let w ← w
  (v.apply op w).toOption

def conjoin (before : Option (Option Value)) (v : Option Value) : Option Value :=
  match before with
  | none => v
  | some u => operate .and u v

def keyEquality (e : Entity) (row row' : List (String × Option Value)) :
    List String → Option (Option Value) → Option (Option Value)
  | [], before => before
  | name :: rest, before =>
    let here := (e.property? name).bind fun p =>
      operate .equal (row.lookup p.column).join (row'.lookup p.column).join
    keyEquality e row row' rest (some (conjoin before here))

mutual

/-- Equality of two elements. Records are compared member by member, entities by primary key. -/
def equality (m : Model) (l r : Element) : Option Value :=
  match l with
  | .scalar v =>
    match r with
    | .scalar w => operate .equal v w
    | _ => none
  | .record fields =>
    match r with
    | .record others =>
      if fields.length = others.length then (fieldsEquality m fields others none).join else none
    | _ => none
  | .entity type row =>
    match r with
    | .entity type' row' =>
      if type = type' then do
        let e ← m.entity? type
        let key ← e.primary?
        (keyEquality e row row' key.properties none).join
      else none
    | _ => none
  | .group _ => none

def fieldsEquality (m : Model) (fs others : List (String × Element)) (before : Option (Option Value)) :
    Option (Option Value) :=
  match fs with
  | [] => before
  | f :: rest =>
    let here := fieldEquality m f others
    fieldsEquality m rest others (some (conjoin before here))

def fieldEquality (m : Model) (f : String × Element) (others : List (String × Element)) : Option Value :=
  match f with
  | (name, x) =>
    match others.lookup name with
    | some y => equality m x y
    | none => none

end

/-- The result of an operator on two elements. Records and entities can be compared for equality only. -/
def operator (m : Model) (l : Element) (op : Operator) (r : Element) : Option Value :=
  match l, r with
  | .scalar v, .scalar w => operate op v w
  | l, r =>
    match op with
    | .equal => equality m l r
    | .notEqual => (equality m l r).bind fun v => v.negation.toOption
    | _ => none

def comparison (m : Model) (op : Operator) (l r : Element) (leftNull rightNull : Bool) : Option Value :=
  match op with
  | .equal =>
    if rightNull then l.value?.map fun v => .bool v.isNull
    else if leftNull then r.value?.map fun v => .bool v.isNull
    else operator m l .equal r
  | .notEqual =>
    if rightNull then l.value?.map fun v => .bool !v.isNull
    else if leftNull then r.value?.map fun v => .bool !v.isNull
    else operator m l .notEqual r
  | op => operator m l op r

def count? : Element → Option Nat
  | .scalar (some (.int n)) => if 0 ≤ n then some n.toNat else none
  | _ => none

end Element

namespace Client

/-! ## Expressions -/

section

variable (m : Model) (db : Database) (ps : Parameters)

mutual

/-- What an expression means for given lambda parameters. -/
def Expr.meaning (scope : List (String × Element)) (e : Expr) : Element :=
  match e with
  | .param x => (scope.lookup x).getD (.scalar none)
  | .constant v | .captured _ v => .scalar (some v)
  | .runtime name => .scalar (ps.scalar name).toOption
  | .member of name => ((of.meaning scope).member m db name).getD (.scalar none)
  | .binary l op r =>
    .scalar (Element.comparison m op (l.meaning scope) (r.meaning scope) l.isNullConstant r.isNullConstant)
  | .not operand => .scalar ((operand.meaning scope).value?.bind fun v => v.negation.toOption)
  | .conditional test a b =>
    .scalar ((test.meaning scope).value?.bind fun v =>
      if v.isTrue then (a.meaning scope).value? else (b.meaning scope).value?)
  | .new _ _ bindings => .record (fieldMeanings scope bindings)

def fieldMeanings (scope : List (String × Element)) (bs : List (Binding Expr)) : List (String × Element) :=
  match bs with
  | [] => []
  | b :: rest => fieldMeaning scope b :: fieldMeanings scope rest

def fieldMeaning (scope : List (String × Element)) (b : Binding Expr) : String × Element :=
  match b with
  | .assign member value => (member, value.meaning scope)
  | .items member _ => (member, .scalar none)

end

def Lambda.apply (l : Lambda) (args : List Element) : Element :=
  l.body.meaning m db ps (l.params.zip args)

end

/-! ## Queries -/

def keepWhere {α : Type} (p : α → Option Bool) : List α → Option (List α)
  | [] => some []
  | x :: rest => do
    let keep ← p x
    let others ← keepWhere p rest
    return if keep then x :: others else others

def withRows (key : Element → Element) : List Element → Option (List (Row × Element))
  | [] => some []
  | x :: rest => do
    let row ← (key x).row?
    let others ← withRows key rest
    return (row, x) :: others

def rowOrder (descending : Bool) : Row → Row → Ordering
  | v :: vs, w :: ws =>
    (if descending then sortOrder w v else sortOrder v w).then (rowOrder descending vs ws)
  | _, _ => .eq

def rowLe {α : Type} (descending : Bool) (a b : Row × α) : Bool :=
  rowOrder descending a.1 b.1 != .gt

def sorted? (descending : Bool) (keyed : List (Row × Element)) : Option (List Element) :=
  if Preordered (rowLe descending) keyed then some ((keyed.mergeSort (rowLe descending)).map Prod.snd)
  else none

def firstOfRows (seen : List Row) : List (Row × Element) → List Element
  | [] => []
  | (row, x) :: rest =>
    if seen.any fun d => rowsAgree d row then firstOfRows seen rest else x :: firstOfRows (seen ++ [row]) rest

def Query.meaning (m : Model) (db : Database) (ps : Parameters) : Query → Option (List Element)
  | .set name => do
    let e ← m.entity? name
    let t ← db.find? e.table
    return t.rows.map (.ofRow m name t.columnNames)
  | .rows (.records fields elements) =>
    some (elements.map fun r => .record (fields.map fun c =>
      (c, .scalar (columnValue "" fields (r.fields.map Prod.snd) c).toOption)))
  | .rows (.parameter ..) => none
  | .filter input predicate => do
    let xs ← input.meaning m db ps
    keepWhere (fun x => (predicate.apply m db ps [x]).value?.map Value.isTrue) xs
  | .map input selector => do
    let xs ← input.meaning m db ps
    return xs.map fun x => selector.apply m db ps [x]
  | .join outer inner outerKey innerKey result => do
    let xs ← outer.meaning m db ps
    let ys ← inner.meaning m db ps
    let pairs ← keepWhere
      (fun (x, y) =>
        (Element.equality m (outerKey.apply m db ps [x]) (innerKey.apply m db ps [y])).map Value.isTrue)
      (xs.flatMap fun x => ys.map fun y => (x, y))
    return pairs.map fun (x, y) => result.apply m db ps [x, y]
  | .orderBy input key descending => do
    let xs ← input.meaning m db ps
    let keyed ← withRows (fun x => key.apply m db ps [x]) xs
    sorted? descending keyed
  | .take input count => do
    let xs ← input.meaning m db ps
    let n ← (count.meaning m db ps []).count?
    return xs.take n
  | .skip input count => do
    let xs ← input.meaning m db ps
    let n ← (count.meaning m db ps []).count?
    return xs.drop n
  | .groupBy .. => none
  | .union left right => do
    let xs ← left.meaning m db ps
    let ys ← right.meaning m db ps
    let rows ← withRows id (xs ++ ys)
    return firstOfRows [] rows

end Client

end Setwise
