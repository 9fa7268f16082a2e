import Setwise.Proofs.KeyEquality
import Setwise.Proofs.Meaning

/-!
Planned expressions stand for what the expressions mean.

A typed expression joins nothing, and in every frame its shape has the element that the expression means for the
elements of the lambda parameters (`expr_meaning`).
-/

set_option autoImplicit false

namespace Setwise.Planning

open Client Relational Execution

/-! ## Types of shapes -/

namespace Shape

mutual

def type? (s : Shape) : Option ElementType :=
  match s with
  | .scalar _ => some .scalar
  | .entity r => some (.entity r.entity)
  | .record fields => do
    let types ← fieldTypes? fields
    return .record types
  | .grouping _ | .excluded .. => none

def fieldTypes? (fs : List (String × Shape)) : Option (List (String × ElementType)) :=
  match fs with
  | [] => some []
  | f :: rest => do
    let t ← fieldType? f
    let types ← fieldTypes? rest
    return t :: types

def fieldType? (f : String × Shape) : Option (String × ElementType) :=
  match f with
  | (name, s) => do
    let t ← type? s
    return (name, t)

end

mutual

def NullFree (s : Shape) : Prop :=
  match s with
  | .scalar e => e ≠ .constant .null
  | .entity _ | .excluded .. => True
  | .record fields => FieldsNullFree fields
  | .grouping key => NullFree key

def FieldsNullFree (fs : List (String × Shape)) : Prop :=
  match fs with
  | [] => True
  | f :: rest => FieldNullFree f ∧ FieldsNullFree rest

def FieldNullFree (f : String × Shape) : Prop :=
  match f with
  | (_, s) => NullFree s

end

theorem lookup_typed {fs : List (String × Shape)} {types : List (String × ElementType)}
    (h : fieldTypes? fs = some types) {name : String} {t : ElementType} (found : types.lookup name = some t) :
    ∃ s, fs.lookup name = some s ∧ s.type? = some t := by
  induction fs generalizing types with
  | nil =>
    obtain rfl := Option.some.inj h
    cases found
  | cons f rest ih =>
    obtain ⟨other, s⟩ := f
    simp only [fieldTypes?, fieldType?, Option.bind_eq_bind, Option.bind_eq_some_iff, Option.pure_def,
      Option.some.injEq] at h
    obtain ⟨_, ⟨u, here, rfl⟩, others, later, rfl⟩ := h
    rw [List.lookup_cons] at found ⊢
    cases same : name == other with
    | true =>
      rw [same] at found
      obtain rfl := Option.some.inj found
      exact ⟨s, rfl, here⟩
    | false =>
      rw [same] at found
      exact ih later found

theorem FieldsNullFree.lookup {fs : List (String × Shape)} (free : FieldsNullFree fs) {name : String} {s : Shape}
    (found : fs.lookup name = some s) : s.NullFree := by
  induction fs with
  | nil => cases found
  | cons f rest ih =>
    obtain ⟨other, t⟩ := f
    rw [List.lookup_cons] at found
    split at found
    next =>
      obtain rfl := Option.some.inj found
      exact free.1
    next => exact ih free.2 found

end Shape

def ScopeTyped (scope : Scope) (types : List (String × ElementType)) : Prop :=
  ∀ x t, types.lookup x = some t → ∃ s, scope.lookup x = some s ∧ s.type? = some t ∧ s.NullFree

theorem scopeTyped_zip {shapes : List Shape} {types : List ElementType} (length : shapes.length = types.length)
    (each : ∀ p ∈ shapes.zip types, p.1.type? = some p.2 ∧ p.1.NullFree) (names : List String) :
    ScopeTyped (names.zip shapes) (names.zip types) := by
  induction names generalizing shapes types with
  | nil => exact fun x t found => by simp at found
  | cons name rest ih =>
    intro x t found
    cases shapes with
    | nil =>
      obtain rfl := List.length_eq_zero_iff.1 length.symm
      simp at found
    | cons s shapes =>
      cases types with
      | nil => cases length
      | cons u types =>
        simp only [List.zip_cons_cons, List.lookup_cons] at found ⊢
        obtain ⟨here, later⟩ := List.forall_mem_cons.1 each
        cases same : x == name with
        | true =>
          rw [same] at found
          obtain rfl := Option.some.inj found
          exact ⟨s, rfl, here⟩
        | false =>
          rw [same] at found
          exact ih (Nat.succ.inj length) later x t found

/-! ## Values of scalars -/

section

variable {m : Model} {env : Environment} {f : Frame}

def valueOf (env : Environment) (f : Frame) (e : Scalar) : Option Value :=
  (eval env f e).toOption

theorem toOption_mapError {ε ε' α : Type} (g : ε → ε') (x : Except ε α) :
    (x.mapError g).toOption = x.toOption := by
  cases x <;> rfl

theorem toOption_bind {ε α β : Type} (x : Except ε α) (g : α → Except ε β) :
    (x >>= g).toOption = x.toOption.bind fun a => (g a).toOption := by
  cases x <;> rfl

theorem valueOf_binary (l : Scalar) (op : Operator) (r : Scalar) :
    valueOf env f (.binary l op r) = Element.operate op (valueOf env f l) (valueOf env f r) := by
  simp only [valueOf, eval, Element.operate, toOption_bind, toOption_mapError, Option.bind_eq_bind]

theorem valueOf_not (e : Scalar) :
    valueOf env f (.not e) = (valueOf env f e).bind fun v => v.negation.toOption := by
  simp only [valueOf, eval, toOption_bind, toOption_mapError]

theorem valueOf_isNull (e : Scalar) :
    valueOf env f (.isNull e) = (valueOf env f e).map fun v => .bool v.isNull := by
  unfold valueOf
  rw [eval, toOption_bind]
  cases (eval env f e).toOption <;> rfl

theorem valueOf_isNotNull (e : Scalar) :
    valueOf env f (.isNotNull e) = (valueOf env f e).map fun v => .bool !v.isNull := by
  unfold valueOf
  rw [eval, toOption_bind]
  cases (eval env f e).toOption <;> rfl

theorem valueOf_case (test a b : Scalar) :
    valueOf env f (.case test a b) =
      (valueOf env f test).bind fun v => if v.isTrue then valueOf env f a else valueOf env f b := by
  unfold valueOf
  rw [eval, toOption_bind]
  congr 1
  funext v
  cases v.isTrue <;> rfl

theorem valueOf_both (condition : Option Scalar) (e : Scalar) :
    valueOf env f (Scalar.both condition e) =
      Element.conjoin (condition.map (valueOf env f)) (valueOf env f e) := by
  cases condition with
  | none => rfl
  | some c => exact valueOf_binary c .and e

/-! ## Equality -/

variable (env f) in
theorem propertiesEquality_value {e : Entity} {a b : EntityView} (known : m.entity? a.entity = some e)
    (same : a.entity = b.entity) {names : List String} {before after : Option Scalar}
    (h : Shape.propertiesEquality e a b names before = .ok after) :
    after.map (valueOf env f) =
      Element.keyEquality e ((m.columnsOf a.entity).map fun c => (c, valueOf env f (a.column c)))
        ((m.columnsOf b.entity).map fun c => (c, valueOf env f (b.column c))) names
        (before.map (valueOf env f)) := by
  induction names generalizing before with
  | nil =>
    obtain rfl := Except.ok.inj h
    rfl
  | cons name rest ih =>
    obtain ⟨p, found, h⟩ := bind_eq_ok.1 h
    have property := property_eq_ok.1 found
    have member := mem_columnsOf known property
    rw [ih h, Element.keyEquality, Option.map_some, valueOf_both, valueOf_binary, property, Option.bind_some,
      lookup_map_self _ _ member, lookup_map_self _ _ (same ▸ member), Option.join_some, Option.join_some]

variable (env f) in
theorem fieldsEquality_value {subject : Subject} {others fs : List (String × Shape)}
    (fields : ∀ p ∈ fs, ∀ (r : Shape) (c : Scalar), Shape.equality m subject p.2 r = .ok c →
      valueOf env f c = Element.equality m (p.2.element m env f) (r.element m env f))
    {before after : Option Scalar} (h : Shape.fieldsEquality m subject fs others before = .ok after) :
    after.map (valueOf env f) =
      Element.fieldsEquality m (Shape.fieldElements m env f fs) (Shape.fieldElements m env f others)
        (before.map (valueOf env f)) := by
  induction fs generalizing before with
  | nil =>
    obtain rfl := Except.ok.inj h
    rfl
  | cons p rest ih =>
    obtain ⟨name, s⟩ := p
    obtain ⟨first, later⟩ := List.forall_mem_cons.1 fields
    obtain ⟨c, here, h⟩ := bind_eq_ok.1 h
    unfold Shape.fieldEquality at here
    split at here
    next other found =>
      rw [ih later h, Option.map_some, valueOf_both, first other c here]
      simp only [Shape.fieldElements, Shape.fieldElement, Element.fieldsEquality, Element.fieldEquality,
        Shape.lookup_fieldElements, found, Option.map_some]
    next => exact absurd here (not_fail_eq_ok _ _)

theorem equality_value {subject : Subject} {l r : Shape} {c : Scalar}
    (h : Shape.equality m subject l r = .ok c) :
    valueOf env f c = Element.equality m (l.element m env f) (r.element m env f) := by
  induction l using Shape.induction generalizing r c with
  | scalar a =>
    cases Shape.Equated.of_ok h with
    | scalars _ b => exact valueOf_binary a .equal b
  | entity a =>
    cases Shape.Equated.of_ok h with
    | entities same known primary all =>
      have value := propertiesEquality_value env f known same all
      simp only [Shape.element, Element.equality, if_pos same, known, primary, Option.bind_eq_bind, Option.bind_some]
      rw [Option.map_none] at value
      exact congrArg Option.join value
  | record fields ih =>
    cases Shape.Equated.of_ok h with
    | records length all =>
      have value := fieldsEquality_value env f (fun p member _ _ => ih p member) all
      simp only [Shape.element, Element.equality, Shape.fieldElements_eq_map, List.length_map, if_pos length]
      rw [Option.map_none, Shape.fieldElements_eq_map, Shape.fieldElements_eq_map] at value
      exact congrArg Option.join value
  | grouping key => exact absurd h (not_fail_eq_ok _ _)
  | excluded name columns => exact absurd h (not_fail_eq_ok _ _)

end

/-! ## Operators -/

section

variable {m : Model} {env : Environment} {f : Frame}

theorem isNull_iff {e : Scalar} : isNull e = true ↔ e = .constant .null :=
  beq_iff_eq

def NullsOf (e : Expr) (s : Shape) : Prop :=
  if e.isNullConstant then s = .scalar (.constant .null) else s.NullFree

theorem NullsOf.isNull {e : Expr} {a : Scalar} (h : NullsOf e (.scalar a)) :
    isNull a = e.isNullConstant := by
  unfold NullsOf at h
  cases null : e.isNullConstant with
  | true =>
    rw [if_pos null] at h
    exact isNull_iff.2 (Shape.scalar.inj h)
  | false =>
    rw [if_neg (by simp [null])] at h
    exact Bool.eq_false_iff.2 fun same => h (isNull_iff.1 same)

theorem NullsOf.nullFree {e : Expr} {s : Shape} (h : NullsOf e s) (null : e.isNullConstant = false) :
    s.NullFree := by
  unfold NullsOf at h
  rwa [if_neg (by simp [null])] at h

theorem scalarOperator_value (a : Scalar) (op : Operator) (b : Scalar) :
    valueOf env f (scalarOperator a op b) =
      Element.comparison m op (.scalar (valueOf env f a)) (.scalar (valueOf env f b)) (isNull a) (isNull b) := by
  unfold scalarOperator Element.comparison
  cases op
  case equal =>
    dsimp only
    split
    next => exact valueOf_isNull a
    next =>
      split
      next => exact valueOf_isNull b
      next => exact valueOf_binary a .equal b
  case notEqual =>
    dsimp only
    split
    next => exact valueOf_isNotNull a
    next =>
      split
      next => exact valueOf_isNotNull b
      next => exact valueOf_binary a .notEqual b
  all_goals exact valueOf_binary a _ b

variable (env f) in
theorem objects_operator {subject : Expr} {l r : Shape} {op : Operator} {c : Scalar}
    (objects : ¬∃ a b, l = .scalar a ∧ r = .scalar b)
    (h : shapeOperator m l op r subject = .ok c) :
    (∀ a, l ≠ .scalar a) ∧ (∀ b, r ≠ .scalar b) ∧
      valueOf env f c = Element.operator m (l.element m env f) op (r.element m env f) := by
  -- a scalar is comparable with a scalar only
  have notScalars {d : Scalar} (same : Shape.equality m (.expr subject) l r = .ok d) :
      (∀ a, l ≠ .scalar a) ∧ ∀ b, r ≠ .scalar b := by
    cases Shape.Equated.of_ok same with
    | scalars a b => exact absurd ⟨a, b, rfl, rfl⟩ objects
    | entities | records => exact ⟨nofun, nofun⟩
  have element (other : ∀ a, l ≠ .scalar a) : ∀ v, l.element m env f ≠ .scalar v := by
    intro v
    cases l with
    | scalar a => exact absurd rfl (other a)
    | entity | record | grouping | excluded => simp [Shape.element]
  obtain ⟨a, b, rfl, rfl, -⟩ | ⟨rfl, same⟩ | ⟨rfl, d, same, rfl⟩ := shapeOperator_eq_ok h
  · exact absurd ⟨a, b, rfl, rfl⟩ objects
  all_goals
    obtain ⟨left, right⟩ := notScalars same
    refine ⟨left, right, ?_⟩
    unfold Element.operator
    split
    next v w here there => exact absurd here (element left v)
  · exact equality_value same
  · rw [valueOf_not, equality_value same]

theorem shapeOperator_value {l r whole : Expr} {s t : Shape} {op : Operator} {c : Scalar}
    (left : NullsOf l s) (right : NullsOf r t) (h : shapeOperator m s op t whole = .ok c) :
    valueOf env f c = Element.comparison m op (s.element m env f) (t.element m env f) l.isNullConstant
      r.isNullConstant := by
  by_cases scalars : ∃ a b, s = .scalar a ∧ t = .scalar b
  · obtain ⟨a, b, rfl, rfl⟩ := scalars
    obtain rfl := Except.ok.inj h
    rw [← left.isNull, ← right.isNull]
    exact scalarOperator_value a op b
  · obtain ⟨notLeft, notRight, value⟩ := objects_operator env f scalars h
    have free {e : Expr} {u : Shape} (nulls : NullsOf e u) (other : ∀ a, u ≠ .scalar a) :
        e.isNullConstant = false := by
      refine Bool.eq_false_iff.2 fun null => ?_
      unfold NullsOf at nulls
      rw [if_pos null] at nulls
      exact other _ nulls
    rw [value, free left notLeft, free right notRight]
    cases op <;> rfl

theorem ofOperands_nullFree (m : Model) :
    OfOperands m (fun _ => True) (fun _ => True) (fun c => c ≠ .constant .null) where
  binary := fun _ _ _ => nofun
  testLeft := fun _ => ⟨nofun, nofun⟩
  testRight := fun _ => ⟨nofun, nofun⟩
  columns := fun _ _ _ _ _ => nofun
  leftFields := fun _ _ _ => trivial
  rightFields := fun _ _ _ => trivial
  both := fun _ _ => nofun
  not := fun _ => nofun

theorem shapeOperator_nullFree {whole : Expr} {s t : Shape} {op : Operator} {c : Scalar}
    (h : shapeOperator m s op t whole = .ok c) : c ≠ .constant .null :=
  (ofOperands_nullFree m).operator trivial trivial h

end

/-! ## Expressions -/

section

variable {m : Model} {scope : Scope} {types : List (String × ElementType)}

structure Interprets (m : Model) (scope : Scope) (e : Expr) (t : ElementType) (s : Shape) : Prop where
  type : s.type? = some t
  nulls : NullsOf e s
  element : ∀ (db : Database) (env : Environment) (f : Frame),
    s.element m env f = e.meaning m db env.parameters (Shape.fieldElements m env f scope)

theorem Interprets.nullFree {e : Expr} {t : ElementType} {s : Shape} (h : Interprets m scope e t s)
    (plain : e.plain = true) : s.NullFree := by
  refine h.nulls.nullFree ?_
  cases e with
  | constant v => simpa [Expr.plain, Expr.isNullConstant] using plain
  | param | member | captured | runtime | binary | not | conditional | new => rfl

theorem ReferenceMember.untyped {s : Shape} {t : ElementType} {name : String} {r : EntityView} {owner : Entity}
    {n : Navigation} {foreignKey principalKey : List String} {required : Bool}
    (reference : ReferenceMember m s name r owner n foreignKey principalKey required) (type : s.type? = some t) :
    t.member? m name = none := by
  obtain ⟨rfl, entity, missing, navigation, kind⟩ := reference
  obtain rfl := Option.some.inj type
  simp [ElementType.member?, entity, missing, navigation, Navigation.isOwned, kind]

section

variable {s s' : Shape} {t u : ElementType} {name : String}

theorem staticMember?_typed (static : s.staticMember? m name = some s') (type : s.type? = some t)
    (member : t.member? m name = some u) : s'.type? = some u := by
  cases Shape.StaticMember.of_found static with
  | property entity property =>
    obtain rfl := Option.some.inj type
    simpa [ElementType.member?, entity, property, Shape.type?] using member
  | part entity missing navigation owned =>
    obtain rfl := Option.some.inj type
    simp only [ElementType.member?, entity, missing, navigation, owned, Option.bind_eq_bind, Option.bind_some] at member
    split at member
    next => exact member
    next => cases member
  | field found =>
    obtain ⟨fieldTypes, typed, same⟩ := Option.bind_eq_some_iff.1 type
    obtain rfl := Option.some.inj same
    obtain ⟨field, lookup, here⟩ := Shape.lookup_typed typed member
    obtain rfl := Option.some.inj (lookup.symm.trans found)
    exact here
  | key | proposed | proposedPart => cases type

theorem staticMember?_nullFree (static : s.staticMember? m name = some s') (free : s.NullFree) : s'.NullFree := by
  cases Shape.StaticMember.of_found static with
  | property | proposed => exact nofun
  | part | proposedPart => trivial
  | field found => exact Shape.FieldsNullFree.lookup free found
  | key => exact free

theorem leadsToOne_of_typed (static : s.staticMember? m name = some s') (type : s.type? = some t)
    (member : t.member? m name = some u) (env : Environment) (f : Frame) (db : Database) :
    (s.element m env f).LeadsToOne m db name := by
  cases Shape.StaticMember.of_found static with
  | property entity property =>
    intro e n entity' missing
    obtain rfl := Option.some.inj (entity.symm.trans entity')
    cases property.symm.trans missing
  | part entity missing navigation owned =>
    obtain rfl := Option.some.inj type
    intro e n entity' _ navigation'
    obtain rfl := Option.some.inj (entity.symm.trans entity')
    obtain rfl := Option.some.inj (navigation.symm.trans navigation')
    rw [Navigation.kind_of_owned owned]
    simp only [ElementType.member?, entity, missing, navigation, owned, Bool.true_and, Option.bind_eq_bind,
      Option.bind_some] at member
    split at member
    next stored => exact stored
    next => cases member
  | field | key => trivial
  | proposed | proposedPart => cases type

theorem member_interprets {of : Expr} {whole : Expr} {w w' : Workspace} (owner : Interprets m scope of t s)
    (free : s.NullFree) (member : t.member? m name = some u) (h : Step.Yields (readMember m s name whole) w s' w') :
    w' = w ∧ Interprets m scope (.member of name) u s' := by
  obtain ⟨static, rfl⟩ | ⟨_, _, _, _, _, _, reference, -⟩ := readMember_yields h
  · refine ⟨rfl, staticMember?_typed static owner.type member, ?_, fun db env f => ?_⟩
    · simpa [NullsOf, Expr.isNullConstant] using staticMember?_nullFree static free
    · have single := leadsToOne_of_typed static owner.type member env f db
      unfold Expr.meaning
      rw [← owner.element db env f, staticMember?_reads static single, Option.getD_some]
  · rw [reference.untyped owner.type] at member
    cases member

end

mutual

/-- What an expression is planned as stands for what the expression means. -/
theorem expr_meaning {t : ElementType} {s : Shape} {w w' : Workspace} (e : Expr)
    (known : ScopeTyped scope types) (typed : e.type? m types = some t)
    (plain : (e.isNullConstant || e.plain) = true) (h : Step.Yields (expr m scope e) w s w') :
    w' = w ∧ Interprets m scope e t s := by
  match e with
  | .param x =>
    obtain ⟨u, found, type, free⟩ := known x t typed
    obtain ⟨here, rfl⟩ := param_yields.1 h
    obtain rfl := Option.some.inj (found.symm.trans here)
    refine ⟨rfl, type, by simpa [NullsOf, Expr.isNullConstant] using free, fun db env f => ?_⟩
    rw [Expr.meaning, Shape.lookup_fieldElements, found]
    rfl
  | .constant v =>
    obtain ⟨rfl, rfl⟩ := constant_yields.1 h
    obtain rfl := Option.some.inj typed
    refine ⟨rfl, rfl, ?_, fun db env f => ?_⟩
    · cases v <;> simp [NullsOf, Expr.isNullConstant, Value.isNull, Shape.NullFree]
    · unfold Expr.meaning Shape.element eval
      rfl
  | .captured .. => cases typed
  | .runtime name =>
    obtain ⟨rfl, rfl⟩ := runtime_yields.1 h
    obtain rfl := Option.some.inj typed
    refine ⟨rfl, rfl, by simp [NullsOf, Expr.isNullConstant, Shape.NullFree], fun db env f => ?_⟩
    unfold Expr.meaning Shape.element eval
    rw [toOption_mapError]
  | .member of name =>
    obtain ⟨u, v, first, last⟩ := member_yields.1 h
    obtain ⟨t', owner, member⟩ := Option.bind_eq_some_iff.1 typed
    have plain : of.plain = true := by simpa [Expr.isNullConstant, Expr.plain] using plain
    obtain ⟨rfl, here⟩ := expr_meaning of known owner (by simp [plain]) first
    exact member_interprets here (here.nullFree plain) member last
  | .binary l op r =>
    obtain ⟨l', u, r', c, first, second, result, rfl⟩ := binary_yields.1 h
    obtain ⟨lt, left, typed⟩ := Option.bind_eq_some_iff.1 typed
    obtain ⟨rt, right, same⟩ := Option.bind_eq_some_iff.1 typed
    obtain rfl := Option.some.inj same
    -- a constant NULL stands beside an equality only, where the planner tests for NULL instead of comparing
    have plain : ((op.isEquality && l.isNullConstant || l.plain) &&
        (op.isEquality && r.isNullConstant || r.plain)) = true := by
      simpa [Expr.isNullConstant, Expr.plain] using plain
    simp only [Bool.and_eq_true, Bool.or_eq_true] at plain
    obtain ⟨rfl, left⟩ := expr_meaning l known left
      (Bool.or_eq_true_iff.2 (plain.1.imp_left And.right)) first
    obtain ⟨rfl, right⟩ := expr_meaning r known right
      (Bool.or_eq_true_iff.2 (plain.2.imp_left And.right)) second
    refine ⟨rfl, rfl, ?_, fun db env f => ?_⟩
    · simp only [NullsOf, Expr.isNullConstant, Bool.false_eq_true, if_false, Shape.NullFree]
      exact shapeOperator_nullFree result
    · simp only [Shape.element, Expr.meaning, Element.scalar.injEq]
      rw [← left.element db env f, ← right.element db env f]
      exact shapeOperator_value left.nulls right.nulls result
  | .not operand =>
    obtain ⟨c, first, rfl⟩ := not_yields.1 h
    obtain ⟨t', here, same⟩ := Option.bind_eq_some_iff.1 typed
    obtain rfl := Option.some.inj same
    have plain : operand.plain = true := by simpa [Expr.isNullConstant, Expr.plain] using plain
    obtain ⟨rfl, here⟩ := expr_meaning operand known here (by simp [plain]) first
    refine ⟨rfl, rfl, by simp [NullsOf, Expr.isNullConstant, Shape.NullFree], fun db env f => ?_⟩
    simp only [Shape.element, Expr.meaning, Element.scalar.injEq]
    rw [← here.element db env f]
    exact valueOf_not c
  | .conditional test a b =>
    obtain ⟨c, u, d, v, e, first, second, third, rfl⟩ := conditional_yields.1 h
    obtain ⟨t₁, testTyped, typed⟩ := Option.bind_eq_some_iff.1 typed
    obtain ⟨t₂, aTyped, typed⟩ := Option.bind_eq_some_iff.1 typed
    obtain ⟨t₃, bTyped, same⟩ := Option.bind_eq_some_iff.1 typed
    obtain rfl := Option.some.inj same
    have plain : (test.plain = true ∧ a.plain = true) ∧ b.plain = true := by
      simpa [Expr.isNullConstant, Expr.plain] using plain
    obtain ⟨rfl, testHere⟩ := expr_meaning test known testTyped (by simp [plain]) first
    obtain ⟨rfl, aHere⟩ := expr_meaning a known aTyped (by simp [plain]) second
    obtain ⟨rfl, bHere⟩ := expr_meaning b known bTyped (by simp [plain]) third
    refine ⟨rfl, rfl, by simp [NullsOf, Expr.isNullConstant, Shape.NullFree], fun db env f => ?_⟩
    simp only [Shape.element, Expr.meaning, Element.scalar.injEq]
    rw [← testHere.element db env f, ← aHere.element db env f, ← bHere.element db env f]
    exact valueOf_case c d e
  | .new type args bindings =>
    obtain ⟨-, fields, first, rfl⟩ := new_yields.1 h
    obtain ⟨fieldTypes, here, same⟩ := Option.bind_eq_some_iff.1 typed
    obtain rfl := Option.some.inj same
    have plain : plainBindings bindings = true := by simpa [Expr.isNullConstant, Expr.plain] using plain
    obtain ⟨rfl, fieldsTyped, free, elements⟩ := fieldList_meaning bindings known here plain first
    refine ⟨rfl, ?_, by simpa [NullsOf, Expr.isNullConstant, Shape.NullFree] using free, fun db env f => ?_⟩
    · simp [Shape.type?, fieldsTyped]
    · simp only [Shape.element, Expr.meaning, elements db env f]

theorem fieldList_meaning {whole : Expr} {fs : List (String × Shape)} {ts : List (String × ElementType)}
    {w w' : Workspace} (bs : List (Binding Expr)) (known : ScopeTyped scope types)
    (typed : fieldTypes? m types bs = some ts) (plain : plainBindings bs = true)
    (h : Step.Yields (fieldList m scope whole bs) w fs w') :
    w' = w ∧ Shape.fieldTypes? fs = some ts ∧ Shape.FieldsNullFree fs ∧
      ∀ (db : Database) (env : Environment) (f : Frame), Shape.fieldElements m env f fs =
        fieldMeanings m db env.parameters (Shape.fieldElements m env f scope) bs := by
  match bs with
  | [] =>
    obtain ⟨rfl, rfl⟩ := noFields_yields.1 h
    obtain rfl := Option.some.inj typed
    exact ⟨rfl, rfl, trivial, fun _ _ _ => rfl⟩
  | .items .. :: rest => cases typed
  | .assign name value :: rest =>
    obtain ⟨s, u, others, first, second, rfl⟩ := assign_yields.1 h
    simp only [fieldTypes?, fieldType?, Option.bind_eq_bind, Option.bind_eq_some_iff, Option.pure_def,
      Option.some.injEq] at typed
    obtain ⟨_, ⟨t, here, rfl⟩, later, behind, rfl⟩ := typed
    obtain ⟨plain, plainRest⟩ : value.plain = true ∧ plainBindings rest = true := by
      simpa [plainBindings, plainBinding] using plain
    obtain ⟨rfl, here⟩ := expr_meaning value known here (by simp [plain]) first
    obtain ⟨rfl, typed, free, elements⟩ := fieldList_meaning rest known behind plainRest second
    refine ⟨rfl, by simp [Shape.fieldTypes?, Shape.fieldType?, here.type, typed], ⟨here.nullFree plain, free⟩,
      fun db env f => ?_⟩
    simp only [Shape.fieldElements, Shape.fieldElement, fieldMeanings, fieldMeaning, here.element db env f,
      elements db env f]

end

end

end Setwise.Planning
