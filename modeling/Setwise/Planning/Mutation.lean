import Setwise.Capabilities
import Setwise.Relational.Plan
import Setwise.Planning.Assignment
import Setwise.Planning.Query

/-!
Mutations as plans.

The query that a mutation applies to is planned like any other. A delete or an update takes its table,
joins and predicate; an insert takes the whole select, with the assigned columns as its projection; an
upsert and a merge combine a target table with a source. A collection of the client that makes the source
empty is recorded with what the statement comes down to in that case.
-/

set_option autoImplicit false

namespace Setwise.Planning

open Client Relational

def feedingCollection? : Query → Option String
  | .rows (.parameter name _) => some name
  | .rows (.records ..) | .set _ | .union .. => none
  | .filter input _ | .map input _ | .orderBy input .. | .take input _ | .skip input _
  | .groupBy input _ => feedingCollection? input
  -- an inner join has no rows where one of its sides has none
  | .join outer inner .. => (feedingCollection? outer).or (feedingCollection? inner)

def feeds (q : Query) (whenEmpty : Fallback) : List Feed :=
  (feedingCollection? q).toList.map fun parameter => { parameter, whenEmpty }

def hasForeignClause (s : Select) : Bool :=
  s.limit.isSome || s.offset.isSome || !s.groupBy.isEmpty || s.having.isSome || s.union.isSome
    || !s.orderBy.isEmpty

def rootTable (m : Model) (mutation : Mutation) (s : Planned) : Except Error (StoredTable × Entity) :=
  let subject := Subject.mutation mutation
  match s.operators with
  | op :: _ => fail (.operatorBefore op mutation.name) subject
  | [] =>
    if hasForeignClause s.select then fail (.unpagedQueryNeeded mutation.name) subject
    else
      match s.select.source with
      | .table table =>
        match s.shape with
        | .entity r =>
          if r.label = table.label ∧ r.renames = [] then do
            let e ← lookUp (m.entity r.entity)
            -- an owned part of the root entity passes, for it is stored in the same table
            if e.table = table.name ∧ e.schema = table.schema then return (table, e)
            else fail (.tableMismatch e.name table.name) subject
          else fail (.rootEntitiesNeeded mutation.name) subject
        | _ => fail (.rootEntitiesNeeded mutation.name) subject
      | _ => fail (.rootSetNeeded mutation.name) subject

def targetEntity (m : Model) (mutation : Mutation) (name : String) : Except Error Entity := do
  let e ← lookUp (m.entity name)
  if e.owned then fail (.ownedTarget name) (.mutation mutation)
  return e

def checkInstance (mutation : Mutation) (e : Entity) (body : Expr) : Except Error Unit :=
  match body with
  | .new type args _ =>
    if type = some e.name then .ok ()
    else if !args.isEmpty then fail (.constructorUnsupported body) (.mutation mutation)
    else fail (.instanceExpected e.name body) (.mutation mutation)
  | _ => fail (.instanceExpected e.name body) (.mutation mutation)

def assigned (m : Model) (mutation : Mutation) (e : Entity) (what : String) (l : Lambda) :
    Except Error (List Assignment) := do
  checkInstance mutation e l.body
  let list ← assignments m (.mutation mutation) e l.body
  if list.isEmpty then fail (.nothingAssigned what) (.mutation mutation)
  return list

def assignedFields (m : Model) (scope : Scope) : List Assignment → Step (List Projection)
  | [] => pure []
  | a :: rest => do
    let value ← scalar m scope a.value
    let rest ← assignedFields m scope rest
    return ⟨a.column, value⟩ :: rest

def standaloneFields (m : Model) (mutation : Mutation) (scope : Scope) :
    List Assignment → Step (List Projection)
  | [] => pure []
  | a :: rest => do
    let value ← standaloneScalar m scope (.mutation mutation) a.value
    let rest ← standaloneFields m mutation scope rest
    return ⟨a.column, value⟩ :: rest

def effectiveUpdate? (update : Option Lambda) : Option Lambda :=
  update.filter fun l => !l.body.isNullConstant

def keyColumns (e : Entity) : List String → Except Error (List String)
  | [] => .ok []
  | name :: rest => do
    let p ← lookUp (Model.property e name)
    let rest ← keyColumns e rest
    return p.column :: rest

def writePlan (statement : Statement) (feeds : List Feed) : Plan :=
  { root := .affected statement, feeds }

def updateJoin (m : Model) (mutation : Mutation) (outer inner : Query) (outerKey innerKey set : Lambda)
    (condition : Option Lambda) : Step Plan := do
  let s ← query m outer
  let (table, e) ← ofResult (rootTable m mutation s)
  let i ← query m inner
  let (source, innerShape) ← asSource m (.mutation mutation) i
  let outerScope ← scopeOf outerKey [s.shape]
  let (l, select) ← against s.select (expr m outerScope outerKey.body)
  let innerScope ← scopeOf innerKey [innerShape]
  let r ← standalone m innerScope (.mutation mutation) innerKey.body
  let on ← ofResult (Shape.equality m (.mutation mutation) l r)
  let select := { select with joins := select.joins ++ [{ kind := .inner, source, on := some on }] }
  let both := [s.shape, innerShape]
  let list ← ofResult (assigned m mutation e "update" set)
  let setScope ← scopeOf set both
  let (fields, select) ← against select (assignedFields m setScope list)
  let slots := feeds inner .skip
  match condition with
  | none => return writePlan (.update table fields select.predicate select.joins) slots
  | some c =>
    let scope ← scopeOf c both
    let (p, select) ← against select (scalar m scope c.body)
    return writePlan (.update table fields (some (Scalar.both select.predicate p)) select.joins) slots

def upsertSource (m : Model) (mutation : Mutation) (list : List Assignment) (insert : Lambda) :
    Option Query → Step (Option Select × List Projection)
  | some q => do
    let s ← query m q
    let scope ← scopeOf insert [s.shape]
    let (fields, select) ← against s.select (assignedFields m scope list)
    return (some select, fields)
  | none => do
    let scope ← scopeOf insert []
    let fields ← standaloneFields m mutation scope list
    return (none, fields)

def clauseFields (m : Model) (mutation : Mutation) (e : Entity) (what : String) (args : List Shape) :
    Option Lambda → Step (Option (List Projection))
  | none => pure none
  | some l => do
    let list ← ofResult (assigned m mutation e what l)
    let scope ← scopeOf l args
    let fields ← standaloneFields m mutation scope list
    return some fields

def conflictFields (m : Model) (mutation : Mutation) (e : Entity) (args : List Shape) :
    Option Lambda → Step (Option (List Projection))
  | none => pure none
  | some l => do
    let scope ← scopeOf l args
    let list ← ofResult (assigned m mutation e "update" l)
    let fields ← standaloneFields m mutation scope list
    return some fields

def upsert (m : Model) (mutation : Mutation) (target : String) (source : Option Query) (insert : Lambda)
    (update : Option Lambda) : Step Plan := do
  let e ← ofResult (targetEntity m mutation target)
  let table ← newTable e
  let list ← ofResult (assigned m mutation e "insert" insert)
  match usableKey? e (list.filterMap Assignment.directMember?) with
  | none => fail (.noUsableKey e.name) (.mutation mutation)
  | some key =>
    let (select, fields) ← upsertSource m mutation list insert source
    let existing := Shape.entity { entity := e.name, label := table.label }
    let incoming := Shape.excluded e.name (fields.map Projection.name)
    let updated ← conflictFields m mutation e [existing, incoming] (effectiveUpdate? update)
    let columns ← ofResult (keyColumns e key.properties)
    let slots := match source with
      | some q => feeds q .skip
      | none => []
    return writePlan (.upsert table select fields updated key.name columns) slots

def merge (m : Model) (capabilities : Capabilities) (mutation : Mutation) (target : String)
    (source : Query) (targetKey sourceKey : Lambda) (update insert : Option Lambda) (delete : Bool) :
    Step Plan := do
  if !capabilities.merge then fail (.mergeUnsupported capabilities.name) (.mutation mutation)
  let update := effectiveUpdate? update
  if update.isNone && insert.isNone && !delete then fail .emptyMerge (.mutation mutation)
  let e ← ofResult (targetEntity m mutation target)
  let table ← newTable e
  let targetShape := Shape.entity { entity := e.name, label := table.label }
  let s ← query m source
  let slots := feeds source (if delete then .truncate table else .skip)
  let (rows, sourceShape) ← asSource m (.mutation mutation) s
  let targetScope ← scopeOf targetKey [targetShape]
  let l ← standalone m targetScope (.mutation mutation) targetKey.body
  let sourceScope ← scopeOf sourceKey [sourceShape]
  let r ← standalone m sourceScope (.mutation mutation) sourceKey.body
  let on ← ofResult (Shape.equality m (.mutation mutation) l r)
  let matched ← clauseFields m mutation e "update" [targetShape, sourceShape] update
  let inserted ← clauseFields m mutation e "insert" [sourceShape] insert
  return writePlan (.merge table rows on matched inserted delete) slots

def mutationPlan (m : Model) (capabilities : Capabilities) (mutation : Mutation) : Step Plan :=
  match mutation with
  | .delete q => do
    let s ← query m q
    let (table, _) ← ofResult (rootTable m mutation s)
    return writePlan (.delete table s.select.predicate s.select.joins) []
  | .update q set => do
    let s ← query m q
    let (table, e) ← ofResult (rootTable m mutation s)
    let list ← ofResult (assigned m mutation e "update" set)
    let scope ← scopeOf set [s.shape]
    let (fields, select) ← against s.select (assignedFields m scope list)
    return writePlan (.update table fields select.predicate select.joins) []
  | .updateJoin outer inner outerKey innerKey set condition =>
    updateJoin m mutation outer inner outerKey innerKey set condition
  | .insertInto (.map input selector) target => do
    let e ← ofResult (targetEntity m mutation target)
    let list ← ofResult (assigned m mutation e "insert" selector)
    let s ← query m input
    let scope ← scopeOf selector [s.shape]
    let (fields, select) ← against s.select (assignedFields m scope list)
    return writePlan (.insertInto e.table e.schema { select with projection := fields })
      (feeds input .skip)
  | .insertInto _ target => fail (.initializerQueryExpected target) (.mutation mutation)
  | .upsert target source insert update => upsert m mutation target source insert update
  | .merge target source targetKey sourceKey update insert delete =>
    merge m capabilities mutation target source targetKey sourceKey update insert delete

def plan (m : Model) (capabilities : Capabilities) (mutation : Mutation) : Except Error Plan :=
  (mutationPlan m capabilities mutation).run {} |>.1

end Setwise.Planning
