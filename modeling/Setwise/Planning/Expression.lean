import Setwise.Planning.Workspace

/-!
Client expressions as scalars over the columns that their parameters stand for.
-/

set_option autoImplicit false

namespace Setwise.Planning

open Client Relational

def referenceCondition (owner target : Entity) (r : EntityView) (label : String) :
    List (String × String) → (condition : Option Scalar) → Except Error (Option Scalar)
  | [], condition => .ok condition
  | (foreign, principal) :: rest, condition => do
    let f ← lookUp (Model.property owner foreign)
    let p ← lookUp (Model.property target principal)
    referenceCondition owner target r label rest
      (some (Scalar.both condition (.binary (r.column f.column) .equal (.column label p.column))))

def follow (m : Model) (owner : Entity) (r : EntityView) (n : Navigation)
    (foreignKey principalKey : List String) (required : Bool) : Step Shape := do
  let w ← get
  match w.navigations.lookup (r.label, n.name) with
  -- a navigation that has been followed from this row is followed once
  | some label => return .entity { entity := n.target, label }
  | none =>
    let target ← lookUp (m.entity n.target)
    let table ← newTable target
    let on ← ofResult (referenceCondition owner target r table.label (foreignKey.zip principalKey) none)
    -- an optional reference may lead nowhere, and the row is kept all the same
    let kind := if required then JoinKind.inner else .leftOuter
    modify fun w => { w with
      joins := w.joins ++ [{ kind, source := .table table, on }]
      navigations := ((r.label, n.name), table.label) :: w.navigations }
    return .entity { entity := n.target, label := table.label }

def readMember (m : Model) (s : Shape) (name : String) (whole : Expr) : Step Shape :=
  match s with
  | .entity r => do
    let e ← lookUp (m.entity r.entity)
    match e.property? name with
    | some p => return .scalar (r.column p.column)
    | none =>
      match e.navigation? name with
      | none => fail (.unknownMember name e.name) (.expr whole)
      | some n =>
        match n.kind with
        -- an owned part is stored in the row of its owner
        | .owned => return .entity { r with entity := n.target }
        | .reference foreignKey principalKey required =>
          follow m e r n foreignKey principalKey required
  | .record fields =>
    match fields.lookup name with
    | some s => pure s
    | none => fail (.unknownField name) (.expr whole)
  | .grouping key => if name = "Key" then pure key else fail (.onlyGroupKey name) (.expr whole)
  | .excluded entity columns => do
    let e ← lookUp (m.entity entity)
    match e.property? name with
    | some p =>
      if columns.contains p.column then return .scalar (.excluded p.column)
      else fail (.notInserted name) (.expr whole)
    | none =>
      match e.navigation? name with
      | some n =>
        if n.isOwned then return .excluded n.target columns
        else fail (.notReadableFromIncoming name) (.expr whole)
      | none => fail (.notReadableFromIncoming name) (.expr whole)
  | .scalar _ => fail (.memberOfScalar name) (.expr whole)

def isNull (e : Scalar) : Bool :=
  e == .constant .null

def scalarOperator (l : Scalar) (op : Operator) (r : Scalar) : Scalar :=
  match op with
  -- a comparison with NULL written out is a test; one with a value that is NULL is unknown
  | .equal => if isNull r then .isNull l else if isNull l then .isNull r else .binary l .equal r
  | .notEqual =>
    if isNull r then .isNotNull l else if isNull l then .isNotNull r else .binary l .notEqual r
  | op => .binary l op r

def shapeOperator (m : Model) (l : Shape) (op : Operator) (r : Shape) (whole : Expr) :
    Except Error Scalar :=
  match l, r with
  | .scalar l, .scalar r => .ok (scalarOperator l op r)
  | l, r =>
    match op with
    | .equal => Shape.equality m (.expr whole) l r
    | .notEqual => do
      let condition ← Shape.equality m (.expr whole) l r
      return .not condition
    | op => fail (.operatorOnObjects op) (.expr whole)

def asScalar (whole : Expr) : Shape → Step Scalar
  | .scalar e => pure e
  | _ => fail .scalarExpected (.expr whole)

mutual

def expr (m : Model) (scope : Scope) (e : Expr) : Step Shape :=
  match e with
  | .param name =>
    match scope.lookup name with
    | some s => pure s
    | none => fail (.unknownParameter name) (.expr (.param name))
  | .constant v => pure (.scalar (.constant v))
  -- values that have not been lifted stay in the plan
  | .captured _ v => pure (.scalar (.constant v))
  | .runtime name => pure (.scalar (.parameter name))
  | .member of name => do
    let s ← expr m scope of
    readMember m s name (.member of name)
  | .binary l op r => do
    let l' ← expr m scope l
    let r' ← expr m scope r
    let result ← ofResult (shapeOperator m l' op r' (.binary l op r))
    return .scalar result
  | .not operand => do
    let s ← expr m scope operand
    let e ← asScalar operand s
    return .scalar (.not e)
  | .conditional test a b => do
    let test' ← expr m scope test
    let test' ← asScalar test test'
    let a' ← expr m scope a
    let a' ← asScalar a a'
    let b' ← expr m scope b
    let b' ← asScalar b b'
    return .scalar (.case test' a' b')
  | .new type args bindings =>
    if args.isEmpty then do
      let fields ← fieldList m scope (.new type args bindings) bindings
      return .record fields
    else fail .constructorArguments (.expr (.new type args bindings))

def fieldList (m : Model) (scope : Scope) (whole : Expr) (bs : List (Binding Expr)) :
    Step (List (String × Shape)) :=
  match bs with
  | [] => pure []
  | b :: rest => do
    let f ← field m scope whole b
    let rest ← fieldList m scope whole rest
    return f :: rest

def field (m : Model) (scope : Scope) (whole : Expr) (b : Binding Expr) : Step (String × Shape) :=
  match b with
  | .assign member value => do
    let s ← expr m scope value
    return (member, s)
  | .items .. => fail .listInitializer (.expr whole)

end

def scalar (m : Model) (scope : Scope) (e : Expr) : Step Scalar := do
  let s ← expr m scope e
  asScalar e s

def standalone (m : Model) (scope : Scope) (subject : Subject) (e : Expr) : Step Shape := do
  -- joins are counted from here
  modify fun w => { w with joins := [] }
  let s ← expr m scope e
  let w ← get
  if w.joins.isEmpty then return s
  else fail (.navigationNotAllowed e) subject

def standaloneScalar (m : Model) (scope : Scope) (subject : Subject) (e : Expr) : Step Scalar := do
  let s ← standalone m scope subject e
  asScalar e s

end Setwise.Planning
