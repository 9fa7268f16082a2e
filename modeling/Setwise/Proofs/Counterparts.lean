import Setwise.Proofs.AlikeShapes
import Setwise.Proofs.Parts
import Setwise.Proofs.Reduction

/-!
Expressions and their reducts, planned side by side.

A reduct may follow fewer references than its expression, so the same navigation can be joined under other
labels. An expression and its reduct are planned as alike shapes (`expr_alike`), up to the labels that the two
workspaces remember for the same navigations.
-/

set_option autoImplicit false

namespace Setwise.Planning

open Client Relational Execution

/-! ## Remembered navigations -/

section

variable {m : Model}

def Workspace.KeptBy (w w' : Workspace) : Prop :=
  ∀ key label, w.navigations.lookup key = some label → w'.navigations.lookup key = some label

theorem Workspace.KeptBy.refl (w : Workspace) : w.KeptBy w := fun _ _ => id

theorem Workspace.KeptBy.trans {u v w : Workspace} (first : u.KeptBy v) (second : v.KeptBy w) : u.KeptBy w :=
  fun key label found => second key label (first key label found)

theorem follow_remembers {owner : Entity} {r : EntityView} {n : Navigation} {foreignKey principalKey : List String}
    {required : Bool} {w w' : Workspace} {t : Shape}
    (h : Step.Yields (follow m owner r n foreignKey principalKey required) w t w') :
    w.KeptBy w' ∧ ∃ label, t = .entity { entity := n.target, label } ∧
      w'.navigations.lookup (r.label, n.name) = some label := by
  simp only [follow, Step.yields_bind, Step.yields_get] at h
  obtain ⟨_, _, ⟨rfl, rfl⟩, h⟩ := h
  split at h
  next label found =>
    obtain ⟨rfl, rfl⟩ := Step.yields_pure.1 h
    exact ⟨fun _ _ => id, label, rfl, found⟩
  next missing =>
    simp only [Step.yields_bind, Step.yields_lookUp, Step.yields_ofResult, Step.yields_modify,
      Step.yields_pure] at h
    obtain ⟨target, _, ⟨known, rfl⟩, table, _, new, on, _, ⟨condition, rfl⟩, _, _, rfl, rfl, rfl⟩ := h
    obtain ⟨fresh, shape, rfl⟩ := newTable_yields new
    refine ⟨fun key label found => ?_, table.label, rfl, by simp⟩
    have other : (key == (r.label, n.name)) = false := by
      refine beq_false_of_ne fun same => ?_
      rw [same, missing] at found
      cases found
    rw [List.lookup_cons, other]
    exact found

theorem Workspace.KeptBy.onward (m : Model) : Onward m Workspace.KeptBy where
  refl := .refl
  trans := .trans
  follow := fun run => (follow_remembers run).1

end

/-! ## Places -/

/-- A scope in which expressions are planned, the workspace that planning comes to in the end, and what the
planned expressions are read against. -/
structure Place extends View where
  scope : Scope
  workspace : Workspace

namespace Place

variable (m : Model) (p : Place)

def Plans (e : Expr) (t : Shape) : Prop :=
  ∃ u v, Step.Yields (expr m p.scope e) u t v ∧ v.KeptBy p.workspace

def PlansFields (bs : List (Binding Expr)) (fs : List (String × Shape)) : Prop :=
  ∃ whole u v, Step.Yields (fieldList m p.scope whole bs) u fs v ∧ v.KeptBy p.workspace

variable {m p}

theorem plans_constant (v : Value) : p.Plans m (.constant v) (.scalar (.constant v)) :=
  ⟨p.workspace, p.workspace, constant_yields.2 ⟨rfl, rfl⟩, .refl _⟩

theorem Plans.constant {v : Value} {t : Shape} (h : p.Plans m (.constant v) t) : t = .scalar (.constant v) := by
  obtain ⟨u, w, run, -⟩ := h
  exact (constant_yields.1 run).1

theorem Plans.captured {name : String} {v : Value} {t : Shape} (h : p.Plans m (.captured name v) t) :
    t = .scalar (.constant v) := by
  obtain ⟨u, w, run, -⟩ := h
  exact (captured_yields.1 run).1

theorem Plans.runtime {name : String} {t : Shape} (h : p.Plans m (.runtime name) t) :
    t = .scalar (.parameter name) := by
  obtain ⟨u, w, run, -⟩ := h
  exact (runtime_yields.1 run).1

theorem Plans.param {x : String} {t : Shape} (h : p.Plans m (.param x) t) : p.scope.lookup x = some t := by
  obtain ⟨u, w, run, -⟩ := h
  exact (param_yields.1 run).1

theorem Plans.member {of : Expr} {name : String} {t : Shape} (h : p.Plans m (.member of name) t) :
    ∃ s u v, p.Plans m of s ∧ Step.Yields (readMember m s name (.member of name)) u t v ∧ v.KeptBy p.workspace := by
  obtain ⟨u, w, run, kept⟩ := h
  obtain ⟨s, v, before, run⟩ := member_yields.1 run
  exact ⟨s, v, w, ⟨u, v, before, ((Workspace.KeptBy.onward m).readMember run).trans kept⟩, run, kept⟩

theorem Plans.binary {l r : Expr} {op : Operator} {t : Shape} (h : p.Plans m (.binary l op r) t) :
    ∃ a b c, p.Plans m l a ∧ p.Plans m r b ∧ shapeOperator m a op b (.binary l op r) = .ok c ∧ t = .scalar c := by
  obtain ⟨u, w, run, kept⟩ := h
  obtain ⟨a, v, b, c, first, second, result, rfl⟩ := binary_yields.1 run
  have keptFirst := ((Workspace.KeptBy.onward m).expr second).trans kept
  exact ⟨a, b, c, ⟨u, v, first, keptFirst⟩, ⟨v, w, second, kept⟩, result, rfl⟩

theorem Plans.not {operand : Expr} {t : Shape} (h : p.Plans m (.not operand) t) :
    ∃ c, p.Plans m operand (.scalar c) ∧ t = .scalar (.not c) := by
  obtain ⟨u, w, run, kept⟩ := h
  obtain ⟨c, first, rfl⟩ := not_yields.1 run
  exact ⟨c, ⟨u, w, first, kept⟩, rfl⟩

theorem Plans.conditional {test a b : Expr} {t : Shape} (h : p.Plans m (.conditional test a b) t) :
    ∃ c ca cb, p.Plans m test (.scalar c) ∧ p.Plans m a (.scalar ca) ∧ p.Plans m b (.scalar cb) ∧
      t = .scalar (.case c ca cb) := by
  obtain ⟨u, w, run, kept⟩ := h
  obtain ⟨c, v, ca, v', cb, first, second, third, rfl⟩ := conditional_yields.1 run
  have keptSecond := ((Workspace.KeptBy.onward m).expr third).trans kept
  have keptFirst := ((Workspace.KeptBy.onward m).expr second).trans keptSecond
  exact ⟨c, ca, cb, ⟨u, v, first, keptFirst⟩, ⟨v, v', second, keptSecond⟩, ⟨v', w, third, kept⟩, rfl⟩

theorem Plans.new {type : Option String} {args : List Expr} {bs : List (Binding Expr)} {t : Shape}
    (h : p.Plans m (.new type args bs) t) : ∃ fs, p.PlansFields m bs fs ∧ t = .record fs := by
  obtain ⟨u, w, run, kept⟩ := h
  obtain ⟨-, fs, fields, rfl⟩ := new_yields.1 run
  exact ⟨fs, ⟨_, u, w, fields, kept⟩, rfl⟩

theorem PlansFields.nil {fs : List (String × Shape)} (h : p.PlansFields m [] fs) : fs = [] := by
  obtain ⟨whole, u, w, run, -⟩ := h
  exact (noFields_yields.1 run).1

theorem PlansFields.assign {member : String} {value : Expr} {rest : List (Binding Expr)}
    {fs : List (String × Shape)} (h : p.PlansFields m (.assign member value :: rest) fs) :
    ∃ t gs, p.Plans m value t ∧ p.PlansFields m rest gs ∧ fs = (member, t) :: gs := by
  obtain ⟨whole, u, w, run, kept⟩ := h
  obtain ⟨t, v, gs, here, later, rfl⟩ := assign_yields.1 run
  have keptHere := ((Workspace.KeptBy.onward m).fieldList later).trans kept
  exact ⟨t, gs, ⟨u, v, here, keptHere⟩, ⟨whole, v, w, later, kept⟩, rfl⟩

theorem PlansFields.not_items {member : String} {values : List Expr} {rest : List (Binding Expr)}
    {fs : List (String × Shape)} : ¬p.PlansFields m (.items member values :: rest) fs := by
  rintro ⟨whole, u, w, run, -⟩
  exact not_items_yields run

theorem Plans.isNullAt {e : Expr} {t : Shape} (h : p.Plans m e t) (path : List String) :
    t.isNullAt path = e.nullAt p.scope.nulls path := by
  obtain ⟨u, w, run, -⟩ := h
  exact expr_isNullAt e run path

variable (m p) in
/-- Wherever the expression is planned as a scalar, the value is NULL or a truth value. -/
def HasTruth (e : Expr) : Prop :=
  ∀ c, p.Plans m e (.scalar c) → ∀ v, p.value c = some v → v = .null ∨ ∃ b, v = .bool b

end Place

/-! ## Members -/

section

variable {m : Model} {p q : Place} {C : String → String → Prop}

variable (p q C) in
def FollowedAlike : Prop :=
  ∀ l l' name k k', C l l' → p.workspace.navigations.lookup (l, name) = some k →
    q.workspace.navigations.lookup (l', name) = some k' → C k k' ∧ ∀ c, p.value (.column k c) = q.value (.column k' c)

theorem ReferenceMember.not_static {s : Shape} {name : String} {r r' : EntityView} {owner : Entity} {n : Navigation}
    {foreignKey principalKey : List String} {required : Bool}
    (reference : ReferenceMember m s name r owner n foreignKey principalKey required) (type : r'.entity = r.entity) :
    (Shape.entity r').staticMember? m name = none := by
  obtain ⟨-, known, missing, navigation, kind⟩ := reference
  simp [Shape.staticMember?, type, known, missing, navigation, Navigation.isOwned, kind]

theorem readMember_alike {s s' t t' : Shape} {name : String} {whole whole' : Expr} {u v u' v' : Workspace}
    (followed : FollowedAlike p q C) (h : s.Alike m p.toView q.toView C s')
    (run : Step.Yields (readMember m s name whole) u t v) (kept : v.KeptBy p.workspace)
    (run' : Step.Yields (readMember m s' name whole') u' t' v') (kept' : v'.KeptBy q.workspace) :
    t.Alike m p.toView q.toView C t' := by
  obtain ⟨member, -⟩ | ⟨r, owner, n, foreignKey, principalKey, required, reference, follows⟩ := readMember_yields run
  · obtain ⟨member', -⟩ | ⟨r', owner, n, foreignKey, principalKey, required, reference, -⟩ := readMember_yields run'
    · exact Shape.staticMember?_alike h member member'
    · obtain rfl := reference.shape
      cases s with
      | entity r => simp [reference.not_static h.1] at member
      | _ => cases h
  · obtain ⟨member', -⟩ | ⟨r', owner', n', foreignKey', principalKey', required', reference', follows'⟩ :=
      readMember_yields run'
    · obtain rfl := reference.shape
      cases s' with
      | entity r' => simp [reference.not_static h.1.symm] at member'
      | _ => cases h
    · obtain ⟨rfl, known, missing, navigation, kind⟩ := reference
      obtain ⟨rfl, known', missing', navigation', kind'⟩ := reference'
      obtain ⟨type, label, columns⟩ := h
      rw [← type, known] at known'
      obtain rfl := Option.some.inj known'
      obtain rfl := Option.some.inj (navigation.symm.trans navigation')
      obtain ⟨-, k, rfl, found⟩ := follow_remembers follows
      obtain ⟨-, k', rfl, found'⟩ := follow_remembers follows'
      -- each run remembers the navigation of its side, and what has been followed alike has been joined alike
      obtain ⟨labels, same⟩ := followed _ _ _ _ _ label (kept _ _ found) (kept' _ _ found')
      exact ⟨rfl, labels, fun c _ => same c⟩

end

/-! ## Reducts -/

theorem negation_negation {v : Value} (h : v = .null ∨ ∃ b, v = .bool b) :
    v.negation.toOption.bind (fun u => u.negation.toOption) = some v := by
  rcases h with rfl | ⟨b, rfl⟩
  · rfl
  · cases b <;> rfl

theorem foldNot_negation {e inner : Expr} (normal : e.isNormal) (h : Expr.foldNot e = .not inner) : inner = e := by
  unfold Expr.isNormal at normal
  rw [h] at normal
  unfold Expr.foldNot at h
  split at h
  next => cases h
  next => cases h
  next x =>
    subst h
    cases normal
  next =>
    cases h
    rfl

section

variable {m : Model} {p q : Place} {C : String → String → Prop}

variable (m p q C) in
def PlannedAlike (e e' : Expr) : Prop :=
  ∀ ⦃t t'⦄, p.Plans m e t → q.Plans m e' t' → t.Alike m p.toView q.toView C t'

variable (m p q) in
def PlannedNegated (e inner : Expr) : Prop :=
  ∀ ⦃t t'⦄, p.Plans m e t → q.Plans m inner t' →
    ∃ c c', t = .scalar c ∧ t' = .scalar c' ∧ p.value c = (q.value c').bind fun v => v.negation.toOption

theorem Shape.Alike.scalar {s : Shape} {f g : View} {c' : Scalar} (h : s.Alike m f g C (.scalar c')) :
    ∃ c, s = .scalar c ∧ f.value c = g.value c' := by
  cases s with
  | scalar c => exact ⟨c, rfl, h⟩
  | _ => cases h

theorem PlannedAlike.constant {e : Expr} {v : Value} {t : Shape} (h : PlannedAlike m p q C e (.constant v))
    (run : p.Plans m e t) : ∃ c, t = .scalar c ∧ p.value c = some v :=
  (h run (Place.plans_constant v)).scalar

theorem value_alike {l r : Expr} {op : Operator} {v w x : Value} (left : PlannedAlike m p q C l (.constant v))
    (right : PlannedAlike m p q C r (.constant w))
    (plain : op.isEquality = true → plannedAsNull p.scope l = false ∧ plannedAsNull p.scope r = false)
    (result : v.apply op w = .ok x) : PlannedAlike m p q C (.binary l op r) (.constant x) := by
  intro t t' run run'
  obtain ⟨_, _, c, first, second, found, rfl⟩ := run.binary
  obtain rfl := run'.constant
  obtain ⟨a, rfl, valueLeft⟩ := left.constant first
  obtain ⟨b, rfl, valueRight⟩ := right.constant second
  obtain rfl := Except.ok.inj found
  have computed : Element.operate op (some v) (some w) = some x := by
    simp [Element.operate, result, Except.toOption]
  change p.value (scalarOperator a op b) = some x
  rw [p.value_operator m, valueLeft, valueRight]
  cases equality : op.isEquality with
  | true =>
    obtain ⟨nullLeft, nullRight⟩ := plain equality
    have nullA : isNull a = false := (first.isNullAt []).trans nullLeft
    have nullB : isNull b = false := (second.isNullAt []).trans nullRight
    rw [nullA, nullB]
    cases op <;> exact computed
  | false => cases op <;> first | exact computed | cases equality

theorem binary_alike {l l' r r' : Expr} {op : Operator} (left : PlannedAlike m p q C l l') (right : PlannedAlike m p q C r r')
    (same : op.isEquality = true →
      plannedAsNull p.scope l = plannedAsNull q.scope l' ∧ plannedAsNull p.scope r = plannedAsNull q.scope r') :
    PlannedAlike m p q C (.binary l op r) (.binary l' op r') := by
  intro t t' run run'
  obtain ⟨a, b, c, first, second, found, rfl⟩ := run.binary
  obtain ⟨a', b', c', first', second', found', rfl⟩ := run'.binary
  refine shapeOperator_alike (left first first') (right second second') found found' fun equality => ?_
  rw [first.isNullAt, second.isNullAt, first'.isNullAt, second'.isNullAt]
  exact same equality

theorem not_alike {e e' : Expr} (operand : PlannedAlike m p q C e e') : PlannedAlike m p q C (.not e) (.not e') := by
  intro t t' run run'
  obtain ⟨c, first, rfl⟩ := run.not
  obtain ⟨c', first', rfl⟩ := run'.not
  have same : p.value c = q.value c' := operand first first'
  change p.value (.not c) = q.value (.not c')
  rw [p.value_not, q.value_not, same]

theorem not_negated {e x : Expr} (operand : PlannedAlike m p q C e x) : PlannedNegated m p q (.not e) x := by
  intro t t' run run'
  obtain ⟨c, first, rfl⟩ := run.not
  have alike := operand first run'
  cases t' with
  | scalar c' =>
    refine ⟨.not c, c', rfl, rfl, ?_⟩
    rw [p.value_not, show p.value c = q.value c' from alike]
  | _ => cases alike

theorem foldNot_alike {e e' : Expr} (operand : PlannedAlike m p q C e e')
    (negated : ∀ inner, e' = .not inner → PlannedNegated m p q e inner)
    (truths : ∀ inner, e' = .not inner → q.HasTruth m inner) :
    PlannedAlike m p q C (.not e) (Expr.foldNot e') := by
  unfold Expr.foldNot
  split
  next b =>
    intro t t' run run'
    obtain ⟨c, first, rfl⟩ := run.not
    obtain rfl := run'.constant
    obtain ⟨_, ⟨⟩, value⟩ := operand.constant first
    change p.value (.not _) = some (.bool !b)
    rw [p.value_not, value]
    cases b <;> rfl
  next =>
    intro t t' run run'
    obtain ⟨c, first, rfl⟩ := run.not
    obtain rfl := run'.constant
    obtain ⟨_, ⟨⟩, value⟩ := operand.constant first
    change p.value (.not _) = some .null
    rw [p.value_not, value]
    rfl
  -- a double negation is dropped, which is right of truth values only
  next inner =>
    intro t t' run run'
    obtain ⟨c, first, rfl⟩ := run.not
    obtain ⟨_, c', ⟨⟩, rfl, value⟩ := negated inner rfl first run'
    change p.value (.not c) = q.value c'
    rw [p.value_not, value]
    cases found : q.value c' with
    | none => rfl
    | some v => exact negation_negation (truths inner rfl c' run' v found)
  next => exact not_alike operand

theorem Place.Plans.decided {test a b : Expr} {v : Value} {t : Shape}
    (tested : PlannedAlike m p q C test (.constant v)) (run : p.Plans m (.conditional test a b) t) :
    ∃ c c₁, t = .scalar c ∧ p.Plans m (if v.isTrue then a else b) (.scalar c₁) ∧ p.value c = p.value c₁ := by
  obtain ⟨c, ca, cb, first, second, third, rfl⟩ := run.conditional
  obtain ⟨_, ⟨⟩, value⟩ := tested.constant first
  refine ⟨.case c ca cb, if v.isTrue then ca else cb, rfl, ?_, ?_⟩
  · split
    next => exact second
    next => exact third
  · rw [p.value_case, value, Option.bind_some, apply_ite p.value]

theorem decided_alike {test a b e : Expr} {v : Value} (tested : PlannedAlike m p q C test (.constant v))
    (branch : PlannedAlike m p q C (if v.isTrue then a else b) e) :
    PlannedAlike m p q C (.conditional test a b) e := by
  intro t t' run run'
  obtain ⟨c, c₁, rfl, taken, value⟩ := run.decided tested
  have alike := branch taken run'
  cases t' with
  | scalar c' => exact value.trans alike
  | _ => cases alike

theorem decided_negated {test a b inner : Expr} {v : Value} (tested : PlannedAlike m p q C test (.constant v))
    (branch : PlannedNegated m p q (if v.isTrue then a else b) inner) :
    PlannedNegated m p q (.conditional test a b) inner := by
  intro t t' run run'
  obtain ⟨c, c₁, rfl, taken, value⟩ := run.decided tested
  obtain ⟨_, c', ⟨⟩, rfl, same⟩ := branch taken run'
  exact ⟨c, c', rfl, rfl, value.trans same⟩

theorem conditional_alike {test test' a a' b b' : Expr} (tested : PlannedAlike m p q C test test')
    (left : PlannedAlike m p q C a a') (right : PlannedAlike m p q C b b') :
    PlannedAlike m p q C (.conditional test a b) (.conditional test' a' b') := by
  intro t t' run run'
  obtain ⟨c, ca, cb, first, second, third, rfl⟩ := run.conditional
  obtain ⟨c', ca', cb', first', second', third', rfl⟩ := run'.conditional
  have test : p.value c = q.value c' := tested first first'
  have left : p.value ca = q.value ca' := left second second'
  have right : p.value cb = q.value cb' := right third third'
  change p.value (.case c ca cb) = q.value (.case c' ca' cb')
  rw [p.value_case, q.value_case, test, left, right]

theorem member_alike {of of' : Expr} {name : String} (followed : FollowedAlike p q C)
    (owner : PlannedAlike m p q C of of') : PlannedAlike m p q C (.member of name) (.member of' name) := by
  intro t t' run run'
  obtain ⟨s, u, v, before, run, kept⟩ := run.member
  obtain ⟨s', u', v', before', run', kept'⟩ := run'.member
  exact readMember_alike followed (owner before before') run kept run' kept'

/-- The reducts that are planned in the second place keep what is planned in the first one: the parameters that
have been replaced had these values, and what the scopes and the followed references show is alike. -/
structure Counterparts (m : Model) (R : Reduction) (C : String → String → Prop) (p q : Place) : Prop where
  null : R.null = plannedAsNull p.scope
  nullReduct : R.nullReduct = plannedAsNull q.scope
  truths : ∀ e, R.truth e → q.HasTruth m e
  parameters : ∀ name, p.value (.parameter name) = (R.known name).or (q.value (.parameter name))
  followed : FollowedAlike p q C
  scopes : Shape.FieldsAlike m p.toView q.toView C p.scope q.scope

variable {R : Reduction}

mutual

/-- An expression and its reduct are planned as alike shapes. -/
theorem expr_alike (given : Counterparts m R C p q) {e e' : Expr} (h : Reduces R e e') :
    PlannedAlike m p q C e e' ∧ ∀ inner, e' = .not inner → PlannedNegated m p q e inner := by
  match h with
  | .param x =>
    refine ⟨fun t t' run run' => ?_, by simp⟩
    have found := Shape.lookup_fieldsAlike given.scopes x
    rwa [run.param, run'.param] at found
  | .constant v =>
    refine ⟨fun t t' run run' => ?_, by simp⟩
    obtain rfl := run.constant
    obtain rfl := run'.constant
    exact rfl
  | .captured name v =>
    refine ⟨fun t t' run run' => ?_, by simp⟩
    obtain rfl := run.captured
    obtain rfl := run'.captured
    exact rfl
  | .runtime name unknown =>
    refine ⟨fun t t' run run' => ?_, by simp⟩
    obtain rfl := run.runtime
    obtain rfl := run'.runtime
    exact (given.parameters name).trans (by rw [unknown, Option.none_or])
  | .known name found =>
    refine ⟨fun t t' run run' => ?_, by simp⟩
    obtain rfl := run.runtime
    obtain rfl := run'.constant
    exact (given.parameters name).trans (by rw [found, Option.some_or]; rfl)
  | .member name owner => exact ⟨member_alike given.followed (expr_alike given owner).1, by simp⟩
  | .value left right plain result =>
    rw [given.null] at plain
    exact ⟨value_alike (expr_alike given left).1 (expr_alike given right).1 plain result, by simp⟩
  | .binary left right same =>
    rw [given.null, given.nullReduct] at same
    exact ⟨binary_alike (expr_alike given left).1 (expr_alike given right).1 same, by simp⟩
  | .not operand normal dropped =>
    obtain ⟨alike, negated⟩ := expr_alike given operand
    -- a double negation falls away only around what has a truth value
    refine ⟨foldNot_alike alike negated fun inner is => given.truths inner (dropped inner is), fun inner is => ?_⟩
    obtain rfl := foldNot_negation normal is
    exact not_negated alike
  | .decided tested branch _ =>
    have tested := (expr_alike given tested).1
    obtain ⟨alike, negated⟩ := expr_alike given branch
    exact ⟨decided_alike tested alike, fun inner is => decided_negated tested (negated inner is)⟩
  | .conditional tested left right =>
    exact ⟨conditional_alike (expr_alike given tested).1 (expr_alike given left).1 (expr_alike given right).1,
      by simp⟩
  | .new length bindings =>
    refine ⟨fun t t' run run' => ?_, by simp⟩
    obtain ⟨fs, fields, rfl⟩ := run.new
    obtain ⟨fs', fields', rfl⟩ := run'.new
    exact fieldList_alike given bindings fields fields'

theorem fieldList_alike (given : Counterparts m R C p q) {bs bs' : List (Binding Expr)} (h : BindingsReduce R bs bs')
    {fs fs' : List (String × Shape)} (run : p.PlansFields m bs fs) (run' : q.PlansFields m bs' fs') :
    Shape.FieldsAlike m p.toView q.toView C fs fs' := by
  match h with
  | .nil =>
    obtain rfl := run.nil
    obtain rfl := run'.nil
    exact trivial
  | .assign value rest =>
    obtain ⟨t, gs, here, later, rfl⟩ := run.assign
    obtain ⟨t', gs', here', later', rfl⟩ := run'.assign
    exact ⟨⟨rfl, (expr_alike given value).1 here here'⟩, fieldList_alike given rest later later'⟩
  | .items rest => exact absurd run Place.PlansFields.not_items

end

end

end Setwise.Planning
