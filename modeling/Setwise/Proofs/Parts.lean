import Setwise.Proofs.Operators

/-!
Expressions are planned part by part.

What reading a member keeps up, and what goes over from the operands of an operator to its result, planning an
expression keeps up (`Carries.expr`).
-/

set_option autoImplicit false

namespace Setwise

/-! ## Parts of expressions -/

namespace Client

mutual

def Expr.parts (e : Expr) : List Expr :=
  e :: match e with
    | .param _ | .constant _ | .captured .. | .runtime _ => []
    | .member of _ => of.parts
    | .binary l _ r => l.parts ++ r.parts
    | .not operand => operand.parts
    | .conditional test a b => test.parts ++ a.parts ++ b.parts
    | .new _ _ bindings => bindingsParts bindings

def bindingsParts (bs : List (Binding Expr)) : List Expr :=
  match bs with
  | [] => []
  | b :: rest => bindingParts b ++ bindingsParts rest

def bindingParts (b : Binding Expr) : List Expr :=
  match b with
  | .assign _ value => value.parts
  | .items .. => []

end

/-- The bodies of the lambdas of a query, and the numbers of rows that it takes or skips. -/
def Query.expressions : Query → List Expr
  | .set _ | .rows _ => []
  | .filter input l | .map input l | .orderBy input l _ | .groupBy input l => input.expressions ++ [l.body]
  | .join outer inner outerKey innerKey result =>
    outer.expressions ++ inner.expressions ++ [outerKey.body, innerKey.body, result.body]
  | .take input count | .skip input count => input.expressions ++ [count]
  | .union left right => left.expressions ++ right.expressions

/-- The bodies of the lambdas of a mutation, and the numbers of rows that its queries take or skip. -/
def Mutation.expressions : Mutation → List Expr
  | .delete q | .insertInto q _ => q.expressions
  | .update q set => q.expressions ++ [set.body]
  | .updateJoin outer inner outerKey innerKey set condition =>
    outer.expressions ++ inner.expressions ++ [outerKey.body, innerKey.body, set.body] ++
      condition.toList.map Lambda.body
  | .upsert _ source inserted updated =>
    source.elim [] Query.expressions ++ [inserted.body] ++ updated.toList.map Lambda.body
  | .merge _ source targetKey sourceKey updated inserted _ =>
    source.expressions ++ [targetKey.body, sourceKey.body] ++ updated.toList.map Lambda.body ++
      inserted.toList.map Lambda.body

end Client

namespace Planning

open Client Relational

theorem mem_of_lookup {α β : Type} [BEq α] [LawfulBEq α] {l : List (α × β)} {a : α} {b : β}
    (h : l.lookup a = some b) : (a, b) ∈ l := by
  obtain ⟨before, after, rfl, -⟩ := List.lookup_eq_some_iff.1 h
  simp

/-! ## What planning carries along -/

/-- Planning leads from workspaces that are sound to later ones, and what is said of a shape when it is planned
is true later as well. Only the parameters that are known come up. -/
structure Carries (m : Model) (known : String → Prop) (sound : Workspace → Prop)
    (later : Workspace → Workspace → Prop) (about : Workspace → Shape → Prop) : Prop where
  refl : ∀ {w}, sound w → later w w
  trans : ∀ {u v w}, later u v → later v w → later u w
  stays : ∀ {w w'}, later w w' → sound w'
  keeps : ∀ {w w' s}, later w w' → about w s → about w' s
  constant : ∀ {w} v, about w (.scalar (.constant v))
  runtime : ∀ {w name}, known name → about w (.scalar (.parameter name))
  member : ∀ {w w' s t name whole}, sound w → about w s → Step.Yields (readMember m s name whole) w t w' →
    later w w' ∧ about w' t
  operator : ∀ {w s t op whole e}, about w s → about w t → shapeOperator m s op t whole = .ok e →
    about w (.scalar e)
  not : ∀ {w e}, about w (.scalar e) → about w (.scalar (.not e))
  case : ∀ {w test a b}, about w (.scalar test) → about w (.scalar a) → about w (.scalar b) →
    about w (.scalar (.case test a b))
  record : ∀ {w fs}, (∀ f ∈ fs, about w f.2) → about w (.record fs)

section

variable {m : Model} {known : String → Prop} {sound : Workspace → Prop}
  {later : Workspace → Workspace → Prop} {about : Workspace → Shape → Prop} {scope : Scope}

mutual

/-- What is said of the shapes of a scope is carried along to the shape of an expression. -/
theorem Carries.expr (carries : Carries m known sound later about) {w w' : Workspace} {s : Shape} (e : Expr)
    (names : ∀ name, Expr.runtime name ∈ e.parts → known name) (start : sound w)
    (given : ∀ p ∈ scope, about w p.2) (h : Step.Yields (expr m scope e) w s w') :
    later w w' ∧ about w' s := by
  match e with
  | .param name =>
    obtain ⟨found, rfl⟩ := param_yields.1 h
    exact ⟨carries.refl start, given _ (mem_of_lookup found)⟩
  | .constant v | .captured _ v =>
    obtain ⟨rfl, rfl⟩ := Step.yields_pure.1 h
    exact ⟨carries.refl start, carries.constant v⟩
  | .runtime name =>
    obtain ⟨rfl, rfl⟩ := Step.yields_pure.1 h
    exact ⟨carries.refl start, carries.runtime (names name (by simp [Expr.parts]))⟩
  | .member of name =>
    obtain ⟨t, v, first, h⟩ := member_yields.1 h
    obtain ⟨after, said⟩ := carries.expr of (fun n inside => names n (by simp [Expr.parts, inside])) start
      given first
    obtain ⟨after', said'⟩ := carries.member (carries.stays after) said h
    exact ⟨carries.trans after after', said'⟩
  | .binary l op r =>
    obtain ⟨a, u, b, e, first, second, applied, rfl⟩ := binary_yields.1 h
    obtain ⟨after, left⟩ := carries.expr l (fun n inside => names n (by simp [Expr.parts, inside])) start
      given first
    have given' : ∀ p ∈ scope, about u p.2 := fun p member => carries.keeps after (given p member)
    obtain ⟨after', right⟩ := carries.expr r (fun n inside => names n (by simp [Expr.parts, inside]))
      (carries.stays after) given' second
    exact ⟨carries.trans after after', carries.operator (carries.keeps after' left) right applied⟩
  | .not operand =>
    obtain ⟨e, first, rfl⟩ := not_yields.1 h
    obtain ⟨after, said⟩ := carries.expr operand (fun n inside => names n (by simp [Expr.parts, inside]))
      start given first
    exact ⟨after, carries.not said⟩
  | .conditional test a b =>
    obtain ⟨t, u, x, v, y, first, second, third, rfl⟩ := conditional_yields.1 h
    obtain ⟨after, tested⟩ := carries.expr test (fun n inside => names n (by simp [Expr.parts, inside])) start
      given first
    have given' : ∀ p ∈ scope, about u p.2 := fun p member => carries.keeps after (given p member)
    obtain ⟨after', left⟩ := carries.expr a (fun n inside => names n (by simp [Expr.parts, inside]))
      (carries.stays after) given' second
    have given'' : ∀ p ∈ scope, about v p.2 := fun p member => carries.keeps after' (given' p member)
    obtain ⟨after'', right⟩ := carries.expr b (fun n inside => names n (by simp [Expr.parts, inside]))
      (carries.stays after') given'' third
    have tested := carries.keeps after'' (carries.keeps after' tested)
    exact ⟨carries.trans after (carries.trans after' after''),
      carries.case tested (carries.keeps after'' left) right⟩
  | .new type args bindings =>
    obtain ⟨-, fields, all, rfl⟩ := new_yields.1 h
    obtain ⟨after, said⟩ := carries.fieldList bindings (fun n inside => names n (by simp [Expr.parts, inside])) start
      given all
    exact ⟨after, carries.record said⟩

theorem Carries.fieldList (carries : Carries m known sound later about) {whole : Expr} {w w' : Workspace}
    {fs : List (String × Shape)} (bs : List (Binding Expr))
    (names : ∀ name, Expr.runtime name ∈ bindingsParts bs → known name) (start : sound w)
    (given : ∀ p ∈ scope, about w p.2) (h : Step.Yields (fieldList m scope whole bs) w fs w') :
    later w w' ∧ ∀ f ∈ fs, about w' f.2 := by
  match bs with
  | [] =>
    obtain ⟨rfl, rfl⟩ := noFields_yields.1 h
    exact ⟨carries.refl start, fun _ h => absurd h List.not_mem_nil⟩
  | .items .. :: rest => exact absurd h not_items_yields
  | .assign member value :: rest =>
    obtain ⟨s, u, others, first, second, rfl⟩ := assign_yields.1 h
    unfold bindingsParts bindingParts at names
    obtain ⟨after, said⟩ := carries.expr value (fun n inside => names n (List.mem_append_left _ inside)) start
      given first
    have given' : ∀ p ∈ scope, about u p.2 := fun p member => carries.keeps after (given p member)
    obtain ⟨after', said'⟩ := carries.fieldList rest
      (fun n inside => names n (List.mem_append_right _ inside)) (carries.stays after) given' second
    exact ⟨carries.trans after after', List.forall_mem_cons.2 ⟨carries.keeps after' said, said'⟩⟩

end

end

/-! ## Workspaces one after the other -/

/-- What is true of a workspace and a later one, whichever references are followed in between. -/
structure Onward (m : Model) (later : Workspace → Workspace → Prop) : Prop where
  refl : ∀ w, later w w
  trans : ∀ {u v w}, later u v → later v w → later u w
  follow : ∀ {owner r n foreignKey principalKey required w t w'},
    Step.Yields (follow m owner r n foreignKey principalKey required) w t w' → later w w'

namespace Onward

variable {m : Model} {later : Workspace → Workspace → Prop} {w w' : Workspace}

theorem readMember (onward : Onward m later) {s t : Shape} {name : String} {whole : Expr}
    (h : Step.Yields (readMember m s name whole) w t w') : later w w' := by
  obtain ⟨-, rfl⟩ | ⟨_, _, _, _, _, _, -, run⟩ := readMember_yields h
  · exact onward.refl w
  · exact onward.follow run

theorem carries (onward : Onward m later) : Carries m (fun _ => True) (fun _ => True) later (fun _ _ => True) where
  refl := fun _ => onward.refl _
  trans := onward.trans
  stays := fun _ => trivial
  keeps := fun _ _ => trivial
  constant := fun _ => trivial
  runtime := fun _ => trivial
  member := fun _ _ run => ⟨onward.readMember run, trivial⟩
  operator := fun _ _ _ => trivial
  not := fun _ => trivial
  case := fun _ _ _ => trivial
  record := fun _ => trivial

theorem expr (onward : Onward m later) {scope : Scope} {e : Expr} {s : Shape}
    (h : Step.Yields (expr m scope e) w s w') : later w w' :=
  (onward.carries.expr e (fun _ _ => trivial) trivial (fun _ _ => trivial) h).1

theorem fieldList (onward : Onward m later) {scope : Scope} {whole : Expr} {bindings : List (Binding Expr)}
    {fs : List (String × Shape)} (h : Step.Yields (fieldList m scope whole bindings) w fs w') : later w w' :=
  (onward.carries.fieldList bindings (fun _ _ => trivial) trivial (fun _ _ => trivial) h).1

end Onward

end Planning

end Setwise
