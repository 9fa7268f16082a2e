import Setwise.Proofs.Arrangement
import Setwise.Proofs.Conversions
import Setwise.Proofs.Counterparts
import Setwise.Proofs.Navigation

/-!
Folded expressions keep their values.

An expression and its folded form can follow different references, so each of them has a frame of its own; the
frames agree as far as the same navigations lead to rows in both. Folding an expression then changes no value
(`folding_keeps_values`), if it keeps the tests for NULL and drops double negations in front of truth values only.
Both conditions are needed: a sum with NULL becomes a test for NULL (`nullSum_changes`), and a double negation makes
a number a truth value (`negatedTwice_changes`).
-/

set_option autoImplicit false

namespace Setwise.Planning

open Client Relational Execution

/-! ## Frames that agree -/

/-- Some labels and, behind them, the labels that two workspaces remember for the same navigations. -/
inductive Corresponds (labels : List String) (w w' : Workspace) : String → String → Prop
  | own {l : String} (visible : l ∈ labels) : Corresponds labels w w' l l
  | followed {l l' name k k' : String} (before : Corresponds labels w w' l l')
      (left : w.navigations.lookup (l, name) = some k) (right : w'.navigations.lookup (l', name) = some k') :
      Corresponds labels w w' k k'

/-- Two frames show the same rows in the scope and behind the references that both workspaces follow from there. -/
def FramesAgree (env : Environment) (scope : Scope) (w w' : Workspace) (f f' : Frame) : Prop :=
  ∀ l l', Corresponds (Shape.fieldsLabels scope) w w' l l' →
    ∀ c, valueOf env f (.column l c) = valueOf env f' (.column l' c)

/-! ## Shapes in scope -/

section

variable {env : Environment} {f g : Frame}

theorem valueOf_agree {e : Scalar}
    (h : ∀ l ∈ e.sources, ∀ c, valueOf env f (.column l c) = valueOf env g (.column l c)) :
    valueOf env f e = valueOf env g e := by
  induction e with
  | column source name => exact h source (List.mem_singleton_self _) name
  | constant v => rfl
  | parameter name => rfl
  | excluded column => rfl
  | binary l op r ihl ihr =>
    rw [valueOf_binary, valueOf_binary, ihl fun s member => h s (List.mem_append_left _ member),
      ihr fun s member => h s (List.mem_append_right _ member)]
  | not e ih => rw [valueOf_not, valueOf_not, ih h]
  | isNull e ih => rw [valueOf_isNull, valueOf_isNull, ih h]
  | isNotNull e ih => rw [valueOf_isNotNull, valueOf_isNotNull, ih h]
  | case test a b iht iha ihb =>
    simp only [Scalar.sources, List.mem_append] at h
    rw [valueOf_case, valueOf_case, iht fun s member => h s (.inl (.inl member)),
      iha fun s member => h s (.inl (.inr member)), ihb fun s member => h s (.inr member)]

theorem Shape.alike_self {m : Model} {C : String → String → Prop} {s : Shape} (corresponds : ∀ l ∈ s.labels, C l l)
    (h : ∀ l ∈ s.labels, ∀ c, valueOf env f (.column l c) = valueOf env g (.column l c)) :
    s.Alike m ⟨env, f⟩ ⟨env, g⟩ C s := by
  induction s using Shape.induction with
  | scalar e => exact valueOf_agree h
  | entity r =>
    have visible : r.label ∈ (Shape.entity r).labels := List.mem_singleton_self _
    exact ⟨rfl, corresponds _ visible, fun c _ => h _ visible _⟩
  | record fields ih =>
    unfold Shape.Alike
    simp only [Shape.labels, Shape.mem_fieldsLabels] at corresponds h
    induction fields with
    | nil => trivial
    | cons p rest later =>
      obtain ⟨name, s⟩ := p
      obtain ⟨here, behind⟩ := List.forall_mem_cons.1 ih
      refine ⟨⟨rfl, here (fun l member => corresponds l ⟨_, List.mem_cons_self, member⟩)
        fun l member => h l ⟨_, List.mem_cons_self, member⟩⟩, later behind ?_ ?_⟩
      · rintro l ⟨q, member, visible⟩
        exact corresponds l ⟨q, List.mem_cons_of_mem _ member, visible⟩
      · rintro l ⟨q, member, visible⟩
        exact h l ⟨q, List.mem_cons_of_mem _ member, visible⟩
  | grouping key ih => exact ih corresponds h
  | excluded name columns => exact ⟨rfl, rfl, fun _ => rfl⟩

end

/-! ## Truth values -/

theorem Place.hasTruth_binary {m : Model} {p : Place} {l r : Expr} {op : Operator} (other : op.isEquality = false)
    (condition : (!op.isArithmetic && op != .coalesce) = true) : p.HasTruth m (.binary l op r) := by
  intro c run v value
  obtain ⟨a, b, d, -, -, result, ⟨⟩⟩ := run.binary
  obtain ⟨a, b, rfl, rfl, rfl⟩ | ⟨rfl, -⟩ | ⟨rfl, -⟩ := shapeOperator_eq_ok result
  · have plain : scalarOperator a op b = .binary a op b := by cases op <;> first | rfl | cases other
    rw [plain] at value
    exact Sql.eval_condition (e := .binary a op b) condition (toOption_eq_some.1 value)
  · cases other
  · cases other

/-! ## Folding -/

/-- Folding an expression keeps its value, if it keeps the tests for NULL and drops no double negation of anything
but truth values. -/
theorem folding_keeps_values (m : Model) (scope : Scope) (env : Environment) {e e' : Expr}
    (folded : e.fold = .ok e') {u w u' w' : Workspace} {s s' : Scalar}
    (run : Step.Yields (scalar m scope e) u s w) (run' : Step.Yields (scalar m scope e') u' s' w') {f f' : Frame}
    (agree : FramesAgree env scope w w' f f')
    (plain : e.FoldsPlainly (plannedAsNull scope) (Place.HasTruth m ⟨⟨env, f'⟩, scope, w'⟩)) (v : Value)
    (value : eval env f s = .ok v) : eval env f' s' = .ok v := by
  let p : Place := ⟨⟨env, f⟩, scope, w⟩
  let q : Place := ⟨⟨env, f'⟩, scope, w'⟩
  let C := Corresponds (Shape.fieldsLabels scope) w w'
  have scopes : Shape.FieldsAlike m p.toView q.toView C scope scope :=
    Shape.alike_self (s := .record scope) (fun l visible => .own visible) fun l visible => agree l l (.own visible)
  have followed : FollowedAlike p q C := fun l l' name k k' before left right =>
    have behind := Corresponds.followed before left right
    ⟨behind, agree k k' behind⟩
  have given : Counterparts m { null := plannedAsNull scope, truth := q.HasTruth m } C p q :=
    { null := rfl
      nullReduct := rfl
      truths := fun _ => id
      parameters := fun _ => rfl
      followed
      scopes }
  have alike : valueOf env f s = valueOf env f' s' := (expr_alike given (fold_reduces folded plain)).1
    ⟨u, w, scalar_yields.1 run, .refl w⟩ ⟨u', w', scalar_yields.1 run', .refl w'⟩
  exact toOption_eq_some.1 (alike.symm.trans (toOption_eq_some.2 value))

/-! ## Plain folding, and folding that is not -/

/-- An expression with a branch that is given up, together with the reference that it follows. -/
def bornAbroad : Expr :=
  .conditional (.binary (.constant (.int 1)) .less (.constant (.int 2)))
    (.not (.not (.binary (.member (.param "x") "CountryId") .greater
      (.binary (.constant (.int 1)) .subtract (.constant (.int 1))))))
    (.binary (.member (.member (.param "x") "Country") "Id") .equal (.constant (.int 1)))

theorem bornAbroad_plain {p : Place} : bornAbroad.FoldsPlainly (plannedAsNull aPerson) (p.HasTruth people) := by
  refine ⟨⟨trivial, trivial, nofun⟩, ⟨⟨?_, ⟨trivial, trivial, nofun⟩, nofun⟩, nofun⟩, ?_⟩
  · exact trivial
  · rintro inner ⟨⟩
    exact Place.hasTruth_binary rfl rfl

/-- The folded form gives the value in a frame of its own, without the country. -/
theorem bornAbroad_kept :
    bornAbroad.fold = .ok (.binary (.member (.param "x") "CountryId") .greater (.constant (.int 0))) ∧
      eval { parameters := {} } ((besideCountry 1 "first").take 1)
        (.binary (.column "p" "CountryId") .greater (.constant (.int 0))) = .ok (.bool true) := by
  have folded : Step.Yields (scalar people aPerson (.binary (.member (.param "x") "CountryId") .greater
      (.constant (.int 0)))) { labels := ["p"] } (.binary (.column "p" "CountryId") .greater (.constant (.int 0)))
      { labels := ["p"] } := rfl
  refine ⟨rfl, folding_keeps_values people aPerson { parameters := {} } (e := bornAbroad) rfl (u := { labels := ["p"] })
    rfl folded (f := besideCountry 1 "first") ?_ bornAbroad_plain (.bool true) rfl⟩
  rintro l l' corresponds c
  cases corresponds with
  | own visible =>
    obtain rfl := List.mem_singleton.1 visible
    rfl
  | followed before left right => cases right

def nullSum : Expr :=
  .binary (.member (.param "x") "CountryId") .equal (.binary (.constant .null) .add (.constant (.int 1)))

/-- Nothing equals a sum with NULL, but its folded form is a test for NULL. -/
theorem nullSum_changes :
    nullSum.fold = .ok (.binary (.member (.param "x") "CountryId") .equal (.constant .null)) ∧
      Step.Yields (scalar people aPerson nullSum) {}
        (.binary (.column "p" "CountryId") .equal (.binary (.constant .null) .add (.constant (.int 1)))) {} ∧
      Step.Yields (scalar people aPerson (.binary (.member (.param "x") "CountryId") .equal (.constant .null))) {}
        (.isNull (.column "p" "CountryId")) {} ∧
      eval { parameters := {} } (besideCountry 1 "first")
        (.binary (.column "p" "CountryId") .equal (.binary (.constant .null) .add (.constant (.int 1)))) = .ok .null ∧
      eval { parameters := {} } (besideCountry 1 "first") (.isNull (.column "p" "CountryId")) = .ok (.bool false) :=
  ⟨rfl, rfl, rfl, rfl, rfl⟩

/-- A number negated twice is a truth value, but its folded form is the number. -/
theorem negatedTwice_changes :
    Expr.fold (.not (.not (.member (.param "x") "CountryId"))) = .ok (.member (.param "x") "CountryId") ∧
      Step.Yields (scalar people aPerson (.not (.not (.member (.param "x") "CountryId")))) {}
        (.not (.not (.column "p" "CountryId"))) {} ∧
      Step.Yields (scalar people aPerson (.member (.param "x") "CountryId")) {} (.column "p" "CountryId") {} ∧
      eval { parameters := {} } (besideCountry 1 "first") (.not (.not (.column "p" "CountryId"))) = .ok (.bool true) ∧
      eval { parameters := {} } (besideCountry 1 "first") (.column "p" "CountryId") = .ok (.int 1) :=
  ⟨rfl, rfl, rfl, rfl, rfl⟩

end Setwise.Planning
