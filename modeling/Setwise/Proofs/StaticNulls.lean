import Setwise.Proofs.Interpretation

/-!
Which expressions are planned as the constant NULL.

An equality with an operand that is planned as the constant NULL becomes a test for NULL. Whether an expression is
planned so can be seen from the expression and the shapes in scope (`expr_isNullAt`).
-/

set_option autoImplicit false

namespace Setwise

open Client Relational

namespace Planning

def Shape.isNullAt (s : Shape) : List String → Bool
  | [] =>
    match s with
    | .scalar e => isNull e
    | _ => false
  | name :: path =>
    match s with
    | .record fields =>
      match fields.lookup name with
      | some member => member.isNullAt path
      | none => false
    | .grouping key => name == "Key" && key.isNullAt path
    | _ => false

end Planning

abbrev Nulls := List String → Bool

namespace Client

mutual

def Expr.nullAt (scope : List (String × Nulls)) (e : Expr) (path : List String) : Bool :=
  match e with
  | .constant v | .captured _ v => path.isEmpty && v.isNull
  | .param x =>
    match scope.lookup x with
    | some nulls => nulls path
    | none => false
  | .member of name => of.nullAt scope (name :: path)
  | .new _ _ bindings =>
    match path with
    | [] => false
    | name :: path => bindingsNullAt scope bindings name path
  | .runtime _ | .binary .. | .not _ | .conditional .. => false

def bindingsNullAt (scope : List (String × Nulls)) (bs : List (Binding Expr)) (name : String) (path : List String) :
    Bool :=
  match bs with
  | [] => false
  | b :: rest => (bindingNullAt scope b name path).getD (bindingsNullAt scope rest name path)

def bindingNullAt (scope : List (String × Nulls)) (b : Binding Expr) (name : String) (path : List String) :
    Option Bool :=
  match b with
  | .assign member value => if name == member then some (value.nullAt scope path) else none
  | .items .. => none

end

end Client

namespace Planning

def Scope.nulls (scope : Scope) : List (String × Nulls) :=
  scope.map fun p => (p.1, p.2.isNullAt)

theorem Scope.lookup_nulls (scope : Scope) (x : String) :
    scope.nulls.lookup x = (scope.lookup x).map Shape.isNullAt := by
  unfold nulls
  induction scope with
  | nil => rfl
  | cons p rest ih =>
    rw [List.map_cons, List.lookup_cons, List.lookup_cons, ih]
    cases x == p.1 <;> rfl

def plannedAsNull (scope : Scope) (e : Expr) : Bool :=
  e.nullAt scope.nulls []

section

variable {m : Model} {scope : Scope}

theorem isNullAt_scalar {c : Scalar} (h : isNull c = false) (path : List String) :
    (Shape.scalar c).isNullAt path = false := by
  cases path with
  | nil => exact h
  | cons name path => rfl

theorem readMember_isNullAt {s t : Shape} {name : String} {whole : Expr} {w w' : Workspace}
    (h : Step.Yields (readMember m s name whole) w t w') (path : List String) :
    t.isNullAt path = s.isNullAt (name :: path) := by
  have entity (r : EntityView) : (Shape.entity r).isNullAt path = false := by cases path <;> rfl
  have excluded (name : String) (columns : List String) : (Shape.excluded name columns).isNullAt path = false := by
    cases path <;> rfl
  obtain ⟨member, -⟩ | ⟨r, owner, n, foreignKey, principalKey, required, reference, followed⟩ := readMember_yields h
  · cases Shape.StaticMember.of_found member with
    | property | proposed => exact isNullAt_scalar rfl path
    | part => exact entity _
    | field found => rw [Shape.isNullAt, found]
    | key named => simp [Shape.isNullAt, named]
    | proposedPart => exact excluded _ _
  · obtain ⟨label, rfl, -⟩ := follow_yields followed
    obtain rfl := reference.shape
    exact entity _

mutual

/-- Which expressions are planned as the constant NULL can be seen without planning them. -/
theorem expr_isNullAt {w w' : Workspace} {t : Shape} (e : Expr) (h : Step.Yields (expr m scope e) w t w')
    (path : List String) : t.isNullAt path = e.nullAt scope.nulls path := by
  match e with
  | .param x =>
    obtain ⟨found, rfl⟩ := param_yields.1 h
    rw [Expr.nullAt, Scope.lookup_nulls, found]
    rfl
  | .constant v | .captured _ v =>
    obtain ⟨rfl, rfl⟩ := Step.yields_pure.1 h
    cases path with
    | nil => cases v <;> rfl
    | cons name path => rfl
  | .runtime name =>
    obtain ⟨rfl, rfl⟩ := Step.yields_pure.1 h
    exact isNullAt_scalar rfl path
  | .member of name =>
    obtain ⟨s, v, before, run⟩ := member_yields.1 h
    rw [readMember_isNullAt run path, expr_isNullAt of before, Expr.nullAt]
  | .binary l op r =>
    obtain ⟨_, _, _, c, -, -, found, rfl⟩ := binary_yields.1 h
    -- an operator gives no constant
    have other := shapeOperator_nullFree found
    exact isNullAt_scalar (Bool.eq_false_iff.2 fun null => other (isNull_iff.1 null)) path
  | .not operand =>
    obtain ⟨_, -, rfl⟩ := not_yields.1 h
    exact isNullAt_scalar rfl path
  | .conditional test a b =>
    obtain ⟨_, _, _, _, _, -, -, -, rfl⟩ := conditional_yields.1 h
    exact isNullAt_scalar rfl path
  | .new type args bindings =>
    obtain ⟨-, fs, fields, rfl⟩ := new_yields.1 h
    cases path with
    | nil => rfl
    | cons name path => rw [fieldList_isNullAt bindings fields, Expr.nullAt]

theorem fieldList_isNullAt {whole : Expr} {w w' : Workspace} {fs : List (String × Shape)} (bs : List (Binding Expr))
    (h : Step.Yields (fieldList m scope whole bs) w fs w') (name : String) (path : List String) :
    (Shape.record fs).isNullAt (name :: path) = bindingsNullAt scope.nulls bs name path := by
  match bs with
  | [] =>
    obtain ⟨rfl, rfl⟩ := noFields_yields.1 h
    rfl
  | .assign member value :: rest =>
    obtain ⟨t, v, others, here, later, rfl⟩ := assign_yields.1 h
    have behind := fieldList_isNullAt rest later name path
    simp only [Shape.isNullAt] at behind ⊢
    rw [bindingsNullAt, bindingNullAt, List.lookup_cons]
    cases same : name == member with
    | true => simp [expr_isNullAt value here path]
    | false => simpa using behind
  | .items .. :: rest => exact absurd h not_items_yields

end

end

end Planning

end Setwise
