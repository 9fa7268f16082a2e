import Setwise.Proofs.Following
import Setwise.Proofs.Parts

/-!
What operators make of two shapes.

Keys are equal if their scalars are: records are compared field by field, entities by the columns of their primary key,
and the equations are joined into one condition. A property of expressions that holds of the equations and is kept by
conjunction and negation holds of the condition (`OfOperands.equality`), and of whatever an operator makes of two
operands (`OfOperands.operator`).
-/

set_option autoImplicit false

namespace Setwise.Planning

open Client Relational

/-- A property of what operators make of the scalars and columns in two shapes. What is said of a shape on either side
is said of the fields of a record too. -/
structure OfOperands (m : Model) (left right : Shape → Prop) (holds : Scalar → Prop) : Prop where
  binary : ∀ {a b : Scalar} (op : Operator), left (.scalar a) → right (.scalar b) → holds (.binary a op b)
  testLeft : ∀ {a : Scalar}, left (.scalar a) → holds (.isNull a) ∧ holds (.isNotNull a)
  testRight : ∀ {b : Scalar}, right (.scalar b) → holds (.isNull b) ∧ holds (.isNotNull b)
  columns : ∀ {a b : EntityView} {e : Entity} {p : Property} {name : String}, left (.entity a) → right (.entity b) →
    a.entity = b.entity → m.entity? a.entity = some e → e.property? name = some p →
    holds (.binary (a.column p.column) .equal (b.column p.column))
  leftFields : ∀ {fs : List (String × Shape)}, left (.record fs) → ∀ f ∈ fs, left f.2
  rightFields : ∀ {fs : List (String × Shape)}, right (.record fs) → ∀ f ∈ fs, right f.2
  both : ∀ {c d : Scalar}, holds c → holds d → holds (.binary c .and d)
  not : ∀ {c : Scalar}, holds c → holds (.not c)

/-- How the condition that two keys are equal comes about, one rule for each kind of keys. -/
inductive Shape.Equated (m : Model) (subject : Subject) : Shape → Shape → Scalar → Prop
  | scalars (a b : Scalar) : Equated m subject (.scalar a) (.scalar b) (.binary a .equal b)
  | entities {a b : EntityView} {e : Entity} {key : Key} {c : Scalar} (same : a.entity = b.entity)
      (known : m.entity? a.entity = some e) (primary : e.primary? = some key)
      (all : Shape.propertiesEquality e a b key.properties none = .ok (some c)) :
      Equated m subject (.entity a) (.entity b) c
  | records {fields others : List (String × Shape)} {c : Scalar} (length : fields.length = others.length)
      (all : Shape.fieldsEquality m subject fields others none = .ok (some c)) :
      Equated m subject (.record fields) (.record others) c

theorem nonempty_eq_ok {subject : Subject} {condition : Option Scalar} {c : Scalar}
    (h : Shape.nonempty subject condition = .ok c) : condition = some c := by
  cases condition with
  | none => exact absurd h (not_fail_eq_ok _ _)
  | some d => exact congrArg some (Except.ok.inj h)

theorem Shape.Equated.of_ok {m : Model} {subject : Subject} {s t : Shape} {c : Scalar}
    (h : Shape.equality m subject s t = .ok c) : Equated m subject s t c := by
  unfold Shape.equality at h
  cases s with
  | scalar a =>
    dsimp only at h
    split at h
    next b =>
      obtain rfl := Except.ok.inj h
      exact .scalars a b
    next => exact absurd h (not_fail_eq_ok _ _)
  | entity a =>
    dsimp only at h
    split at h
    next b =>
      split at h
      next same =>
        obtain ⟨e, known, h⟩ := bind_eq_ok.1 h
        split at h
        next => exact absurd h (not_fail_eq_ok _ _)
        -- entities are compared by the primary key of their type
        next key primary =>
          obtain ⟨condition, all, h⟩ := bind_eq_ok.1 h
          obtain rfl := nonempty_eq_ok h
          exact .entities same (entity_eq_ok.1 (lookUp_eq_ok.1 known)) primary all
      next => exact absurd h (not_fail_eq_ok _ _)
    next => exact absurd h (not_fail_eq_ok _ _)
  | record fields =>
    dsimp only at h
    split at h
    next others =>
      split at h
      next length =>
        obtain ⟨condition, all, h⟩ := bind_eq_ok.1 h
        obtain rfl := nonempty_eq_ok h
        exact .records length all
      next => exact absurd h (not_fail_eq_ok _ _)
    next => exact absurd h (not_fail_eq_ok _ _)
  | grouping key => exact absurd h (not_fail_eq_ok _ _)
  | excluded name columns => exact absurd h (not_fail_eq_ok _ _)

theorem shapeOperator_eq_ok {m : Model} {s t : Shape} {op : Operator} {whole : Expr} {c : Scalar}
    (h : shapeOperator m s op t whole = .ok c) :
    (∃ a b, s = .scalar a ∧ t = .scalar b ∧ c = scalarOperator a op b) ∨
      op = .equal ∧ Shape.equality m (.expr whole) s t = .ok c ∨
      op = .notEqual ∧ ∃ d, Shape.equality m (.expr whole) s t = .ok d ∧ c = .not d := by
  unfold shapeOperator at h
  split at h
  next a b => exact .inl ⟨a, b, rfl, rfl, (Except.ok.inj h).symm⟩
  next =>
    split at h
    next => exact .inr (.inl ⟨rfl, h⟩)
    next =>
      obtain ⟨d, equal, h⟩ := bind_eq_ok.1 h
      exact .inr (.inr ⟨rfl, d, equal, (pure_eq_ok.1 h).symm⟩)
    next => exact absurd h (not_fail_eq_ok _ _)

namespace OfOperands

variable {m : Model} {left right : Shape → Prop} {holds : Scalar → Prop}

theorem join (closed : OfOperands m left right holds) {before : Option Scalar} {c : Scalar}
    (first : ∀ d ∈ before, holds d) (second : holds c) : holds (Scalar.both before c) := by
  cases before with
  | none => exact second
  | some d => exact closed.both (first d rfl) second

theorem properties (closed : OfOperands m left right holds) {e : Entity} {a b : EntityView} {names : List String}
    {before after : Option Scalar}
    (each : ∀ name p, e.property? name = some p → holds (.binary (a.column p.column) .equal (b.column p.column)))
    (first : ∀ c ∈ before, holds c) (h : Shape.propertiesEquality e a b names before = .ok after) :
    ∀ c ∈ after, holds c := by
  induction names generalizing before with
  | nil =>
    obtain rfl := Except.ok.inj h
    exact first
  | cons name rest ih =>
    obtain ⟨p, found, h⟩ := bind_eq_ok.1 h
    refine ih (fun c same => ?_) h
    obtain rfl := Option.some.inj same
    exact closed.join first (each name p (property_eq_ok.1 found))

theorem fields (closed : OfOperands m left right holds) {subject : Subject} {fs others : List (String × Shape)}
    {before after : Option Scalar} (there : ∀ f ∈ others, right f.2)
    (each : ∀ f ∈ fs, ∀ t c, right t → Shape.equality m subject f.2 t = .ok c → holds c)
    (first : ∀ c ∈ before, holds c) (h : Shape.fieldsEquality m subject fs others before = .ok after) :
    ∀ c ∈ after, holds c := by
  induction fs generalizing before with
  | nil =>
    obtain rfl := Except.ok.inj h
    exact first
  | cons f rest ih =>
    obtain ⟨name, s⟩ := f
    obtain ⟨here, equal, h⟩ := bind_eq_ok.1 h
    obtain ⟨own, later⟩ := List.forall_mem_cons.1 each
    refine ih later (fun c same => ?_) h
    obtain rfl := Option.some.inj same
    unfold Shape.fieldEquality at equal
    split at equal
    next other found => exact closed.join first (own other here (there _ (mem_of_lookup found)) equal)
    next => exact absurd equal (not_fail_eq_ok _ _)

/-- The property holds of the condition that two keys are equal. -/
theorem equality (closed : OfOperands m left right holds) {subject : Subject} {s t : Shape} {c : Scalar}
    (here : left s) (there : right t) (h : Shape.equality m subject s t = .ok c) : holds c := by
  have nothing : ∀ d ∈ (none : Option Scalar), holds d := fun d member => nomatch member
  induction s using Shape.induction generalizing t c with
  | scalar a =>
    cases Shape.Equated.of_ok h with
    | scalars _ b => exact closed.binary .equal here there
  | record fs ih =>
    cases Shape.Equated.of_ok h with
    | records _ all =>
      have each : ∀ f ∈ fs, ∀ t c, right t → Shape.equality m subject f.2 t = .ok c → holds c :=
        fun f member t c there h => ih f member (closed.leftFields here f member) there h
      exact closed.fields (closed.rightFields there) each nothing all c rfl
  | entity a =>
    cases Shape.Equated.of_ok h with
    | entities same known _ all =>
      exact closed.properties (fun _ _ property => closed.columns here there same known property) nothing all c rfl
  | grouping key => exact absurd h (not_fail_eq_ok _ _)
  | excluded name columns => exact absurd h (not_fail_eq_ok _ _)

theorem scalarOperator (closed : OfOperands m left right holds) {a b : Scalar} (here : left (.scalar a))
    (op : Operator) (there : right (.scalar b)) : holds (Planning.scalarOperator a op b) := by
  unfold Planning.scalarOperator
  split
  · split
    · exact (closed.testLeft here).1
    · split
      · exact (closed.testRight there).1
      · exact closed.binary .equal here there
  · split
    · exact (closed.testLeft here).2
    · split
      · exact (closed.testRight there).2
      · exact closed.binary .notEqual here there
  · exact closed.binary op here there

/-- The property holds of whatever an operator makes of two shapes. -/
theorem operator (closed : OfOperands m left right holds) {s t : Shape} {op : Operator} {whole : Expr} {c : Scalar}
    (here : left s) (there : right t) (h : shapeOperator m s op t whole = .ok c) : holds c := by
  obtain ⟨a, b, rfl, rfl, rfl⟩ | ⟨rfl, equal⟩ | ⟨rfl, d, equal, rfl⟩ := shapeOperator_eq_ok h
  · exact closed.scalarOperator here op there
  · exact closed.equality here there equal
  · exact closed.not (closed.equality here there equal)

end OfOperands

end Setwise.Planning
