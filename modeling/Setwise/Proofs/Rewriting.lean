import Setwise.Proofs.BoundValues
import Setwise.Proofs.Reduction

/-!
Rewriting the expressions and collections of mutations.

A traversal replaces every expression and every collection of a query or a mutation in its place. Runtime parameters
are named in the order in which the traversal comes to them; an expression that names none of them is not changed by
what is put in their place (`Expr.replace_unnamed`).
-/

set_option autoImplicit false

namespace Setwise.Client

/-! ## Traversals -/

section

variable (f : Expr → Expr) (g : LocalRows → LocalRows)

def Lambda.rewrite (l : Lambda) : Lambda :=
  { l with body := f l.body }

def Query.rewrite : Query → Query
  | .set entity => .set entity
  | .rows c => .rows (g c)
  | .filter input l => .filter input.rewrite (l.rewrite f)
  | .map input l => .map input.rewrite (l.rewrite f)
  | .join outer inner outerKey innerKey result =>
    .join outer.rewrite inner.rewrite (outerKey.rewrite f) (innerKey.rewrite f) (result.rewrite f)
  | .orderBy input key descending => .orderBy input.rewrite (key.rewrite f) descending
  | .take input count => .take input.rewrite (f count)
  | .skip input count => .skip input.rewrite (f count)
  | .groupBy input key => .groupBy input.rewrite (key.rewrite f)
  | .union left right => .union left.rewrite right.rewrite

def Mutation.rewrite : Mutation → Mutation
  | .delete q => .delete (q.rewrite f g)
  | .update q set => .update (q.rewrite f g) (set.rewrite f)
  | .updateJoin outer inner outerKey innerKey set condition =>
    .updateJoin (outer.rewrite f g) (inner.rewrite f g) (outerKey.rewrite f) (innerKey.rewrite f) (set.rewrite f)
      (condition.map (Lambda.rewrite f))
  | .insertInto q target => .insertInto (q.rewrite f g) target
  | .upsert target source inserted updated =>
    .upsert target (source.map (Query.rewrite f g)) (inserted.rewrite f) (updated.map (Lambda.rewrite f))
  | .merge target source targetKey sourceKey updated inserted deleted =>
    .merge target (source.rewrite f g) (targetKey.rewrite f) (sourceKey.rewrite f) (updated.map (Lambda.rewrite f))
      (inserted.map (Lambda.rewrite f)) deleted

variable {f g}

theorem Query.rewrite_expressions (q : Query) : (q.rewrite f g).expressions = q.expressions.map f := by
  induction q <;> simp_all [Query.rewrite, Query.expressions, Lambda.rewrite]

theorem Query.rewrite_collections (q : Query) : (q.rewrite f g).collections = q.collections.map g := by
  induction q <;> simp_all [Query.rewrite, Query.collections]

theorem Mutation.rewrite_expressions (m : Mutation) : (m.rewrite f g).expressions = m.expressions.map f := by
  have bodies (l : Option Lambda) :
      (l.map (Lambda.rewrite f)).toList.map Lambda.body = (l.toList.map Lambda.body).map f := by
    cases l <;> rfl
  cases m with
  | upsert target source inserted updated =>
    cases source <;>
      simp [Mutation.rewrite, Mutation.expressions, Query.rewrite_expressions, bodies, Lambda.rewrite]
  | _ => simp [Mutation.rewrite, Mutation.expressions, Query.rewrite_expressions, bodies, Lambda.rewrite]

theorem Mutation.rewrite_collections (m : Mutation) : (m.rewrite f g).collections = m.collections.map g := by
  cases m with
  | upsert target source inserted updated =>
    cases source <;> simp [Mutation.rewrite, Mutation.collections, Query.rewrite_collections]
  | _ => simp [Mutation.rewrite, Mutation.collections, Query.rewrite_collections]

end

/-! ## Names of runtime parameters -/

mutual

/-- The runtime parameters of an expression from left to right. -/
def Expr.parameterNames : Expr → List String
  | .runtime name => [name]
  | .param _ | .constant _ | .captured .. => []
  | .member e _ | .not e => e.parameterNames
  | .binary l _ r => l.parameterNames ++ r.parameterNames
  | .conditional test a b => test.parameterNames ++ a.parameterNames ++ b.parameterNames
  | .new _ args bindings => Expr.parameterNamesOfList args ++ Expr.parameterNamesOfBindings bindings

def Expr.parameterNamesOfList : List Expr → List String
  | [] => []
  | e :: rest => e.parameterNames ++ Expr.parameterNamesOfList rest

def Expr.parameterNamesOfBindings : List (Binding Expr) → List String
  | [] => []
  | b :: rest => Expr.parameterNamesOfBinding b ++ Expr.parameterNamesOfBindings rest

def Expr.parameterNamesOfBinding : Binding Expr → List String
  | .assign _ value => value.parameterNames
  | .items _ values => Expr.parameterNamesOfList values

end

def Lambda.parameterNames? : Option Lambda → List String
  | none => []
  | some l => l.body.parameterNames

def LocalRows.parameterNames : LocalRows → List String
  | .records .. => []
  | .parameter name _ => [name]

def Query.parameterNames : Query → List String
  | .set _ => []
  | .rows c => c.parameterNames
  | .filter input l | .map input l | .orderBy input l _ | .groupBy input l =>
    input.parameterNames ++ l.body.parameterNames
  | .join outer inner outerKey innerKey result =>
    outer.parameterNames ++ inner.parameterNames ++ outerKey.body.parameterNames ++ innerKey.body.parameterNames
      ++ result.body.parameterNames
  | .take input count | .skip input count => input.parameterNames ++ count.parameterNames
  | .union left right => left.parameterNames ++ right.parameterNames

def Mutation.parameterNames : Mutation → List String
  | .delete q | .insertInto q _ => q.parameterNames
  | .update q set => q.parameterNames ++ set.body.parameterNames
  | .updateJoin outer inner outerKey innerKey set condition =>
    outer.parameterNames ++ inner.parameterNames ++ outerKey.body.parameterNames ++ innerKey.body.parameterNames
      ++ set.body.parameterNames ++ Lambda.parameterNames? condition
  | .upsert _ source inserted updated =>
    source.elim [] Query.parameterNames ++ inserted.body.parameterNames ++ Lambda.parameterNames? updated
  | .merge _ source targetKey sourceKey updated inserted _ =>
    source.parameterNames ++ targetKey.body.parameterNames ++ sourceKey.body.parameterNames
      ++ Lambda.parameterNames? updated ++ Lambda.parameterNames? inserted

section

variable {runtime : String → Expr}

mutual

/-- What is put in the place of other runtime parameters does not change an expression. -/
theorem Expr.replace_unnamed (e : Expr) (own : ∀ name ∈ e.parameterNames, runtime name = .runtime name) :
    e.replace .captured runtime = e := by
  match e with
  | .param _ | .constant _ | .captured .. => rfl
  | .runtime name => exact own name (by simp [Expr.parameterNames])
  | .member of name => exact congrArg (Expr.member · name) (of.replace_unnamed own)
  | .not operand => exact congrArg Expr.not (operand.replace_unnamed own)
  | .binary l op r =>
    have parts := List.forall_mem_append.1 own
    exact congrArg₂ (Expr.binary · op ·) (l.replace_unnamed parts.1) (r.replace_unnamed parts.2)
  | .conditional test a b =>
    have parts := List.forall_mem_append.1 own
    have tested := List.forall_mem_append.1 parts.1
    simp only [Expr.replace]
    rw [test.replace_unnamed tested.1, a.replace_unnamed tested.2, b.replace_unnamed parts.2]
  | .new type args bindings =>
    have parts := List.forall_mem_append.1 own
    exact congrArg₂ (Expr.new type) (Expr.replaceList_unnamed args parts.1)
      (Expr.replaceBindings_unnamed bindings parts.2)

theorem Expr.replaceList_unnamed (es : List Expr)
    (own : ∀ name ∈ Expr.parameterNamesOfList es, runtime name = .runtime name) :
    Expr.replaceList .captured runtime es = es := by
  match es with
  | [] => rfl
  | e :: rest =>
    have parts := List.forall_mem_append.1 own
    exact congrArg₂ List.cons (e.replace_unnamed parts.1) (Expr.replaceList_unnamed rest parts.2)

theorem Expr.replaceBindings_unnamed (bs : List (Binding Expr))
    (own : ∀ name ∈ Expr.parameterNamesOfBindings bs, runtime name = .runtime name) :
    Expr.replaceBindings .captured runtime bs = bs := by
  match bs with
  | [] => rfl
  | .assign name value :: rest =>
    have parts := List.forall_mem_append.1 own
    exact congrArg₂ List.cons (congrArg (Binding.assign name) (value.replace_unnamed parts.1))
      (Expr.replaceBindings_unnamed rest parts.2)
  | .items name values :: rest =>
    have parts := List.forall_mem_append.1 own
    exact congrArg₂ List.cons (congrArg (Binding.items name) (Expr.replaceList_unnamed values parts.1))
      (Expr.replaceBindings_unnamed rest parts.2)

end

end

end Setwise.Client
