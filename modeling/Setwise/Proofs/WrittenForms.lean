import Setwise.Proofs.MutationsInStep
import Setwise.Proofs.Rewriting

/-!
Forms with the values of their parameters written out.

Lifting and folding change the expressions and the collections of a mutation, and nothing else (`Mutation.skeleton`). Of
two mutations with one skeleton the first reduces to the second, if its expressions do once the values of the parameters
are written out and folded, the collections hold the same rows, and this is plain wherever an expression stands
(`mutations_reduce`).
-/

set_option autoImplicit false

namespace Setwise

open Client

/-! ## Skeletons -/

namespace Client

/-- What is left of a query without its expressions and collections. -/
def Query.skeleton (q : Query) : Query :=
  q.rewrite (fun _ => .constant .null) fun _ => .records [] []

/-- What is left of a mutation without its expressions and collections. -/
def Mutation.skeleton (m : Mutation) : Mutation :=
  m.rewrite (fun _ => .constant .null) fun _ => .records [] []

theorem Query.rewrite_skeleton (q : Query) (f : Expr → Expr) (g : LocalRows → LocalRows) :
    (q.rewrite f g).skeleton = q.skeleton := by
  unfold skeleton
  induction q with
  | set | rows => rfl
  | _ => simp_all [rewrite, Lambda.rewrite]

theorem Mutation.rewrite_skeleton (m : Mutation) (f : Expr → Expr) (g : LocalRows → LocalRows) :
    (m.rewrite f g).skeleton = m.skeleton := by
  have queries (q : Query) : (q.rewrite f g).rewrite (fun _ => .constant .null) (fun _ => .records [] []) =
      q.rewrite (fun _ => .constant .null) fun _ => .records [] [] := q.rewrite_skeleton f g
  have lambdas (l : Lambda) : (l.rewrite f).rewrite (fun _ => .constant .null) = l.rewrite fun _ => .constant .null := rfl
  unfold skeleton
  cases m <;> simp [rewrite, lambdas, queries, Function.comp_def]

theorem Query.length_expressions {q q' : Query} (same : q.skeleton = q'.skeleton) :
    q.expressions.length = q'.expressions.length := by
  simpa [skeleton, rewrite_expressions] using congrArg (fun q => q.expressions.length) same

theorem Query.length_collections {q q' : Query} (same : q.skeleton = q'.skeleton) :
    q.collections.length = q'.collections.length := by
  simpa [skeleton, rewrite_collections] using congrArg (fun q => q.collections.length) same

end Client

namespace Lifting

variable {s t : Lifting}

theorem lambda_rewrite {l l' : Lambda} (h : lambda l s = (l', t)) (e : Expr) :
    l'.rewrite (fun _ => e) = l.rewrite fun _ => e := by
  obtain ⟨rfl, -⟩ := Prod.mk.inj h
  rfl

theorem lambda?_rewrite {l l' : Option Lambda} (h : lambda? l s = (l', t)) (e : Expr) :
    l'.map (Lambda.rewrite fun _ => e) = l.map (Lambda.rewrite fun _ => e) := by
  cases l with
  | none =>
    obtain ⟨rfl, -⟩ := Prod.mk.inj h
    rfl
  | some l =>
    obtain ⟨rfl, -⟩ := Prod.mk.inj h
    rfl

theorem query_skeleton {q q' : Query} (h : query q s = .ok (q', t)) : q'.skeleton = q.skeleton := by
  unfold Query.skeleton
  induction q generalizing q' s t with
  | set entity =>
    obtain ⟨rfl, -⟩ := fallible_pure.1 h
    rfl
  | rows c =>
    simp only [query, fallible_bind, fallible_pure] at h
    obtain ⟨_, _, -, rfl, -⟩ := h
    rfl
  | filter input l ih | map input l ih | orderBy input l _ ih | groupBy input l ih =>
    simp only [query, fallible_bind, fallible_surely, fallible_pure] at h
    obtain ⟨_, _, first, _, _, second, rfl, -⟩ := h
    simp only [Query.rewrite, ih first, lambda_rewrite second]
  | take input e ih | skip input e ih =>
    simp only [query, fallible_bind, fallible_surely, fallible_pure] at h
    obtain ⟨_, _, first, _, _, -, rfl, -⟩ := h
    simp only [Query.rewrite, ih first]
  | join outer inner outerKey innerKey result iho ihi =>
    simp only [query, fallible_bind, fallible_surely, fallible_pure] at h
    obtain ⟨_, _, first, _, _, second, _, _, third, _, _, fourth, _, _, fifth, rfl, -⟩ := h
    simp only [Query.rewrite, iho first, ihi second, lambda_rewrite third, lambda_rewrite fourth, lambda_rewrite fifth]
  | union left right ihl ihr =>
    simp only [query, fallible_bind, fallible_pure] at h
    obtain ⟨_, _, first, _, _, second, rfl, -⟩ := h
    simp only [Query.rewrite, ihl first, ihr second]

theorem mutation_skeleton {m m' : Mutation} (h : mutation m s = .ok (m', t)) : m'.skeleton = m.skeleton := by
  have queries {q q' : Query} {s t : Lifting} (run : query q s = .ok (q', t)) :
      q'.rewrite (fun _ => .constant .null) (fun _ => .records [] []) =
        q.rewrite (fun _ => .constant .null) fun _ => .records [] [] := query_skeleton run
  unfold Mutation.skeleton
  cases m with
  | delete q | insertInto q _ =>
    simp only [mutation, fallible_bind, fallible_pure] at h
    obtain ⟨_, _, first, rfl, -⟩ := h
    simp only [Mutation.rewrite, queries first]
  | update q set =>
    simp only [mutation, fallible_bind, fallible_surely, fallible_pure] at h
    obtain ⟨_, _, first, _, _, second, rfl, -⟩ := h
    simp only [Mutation.rewrite, queries first, lambda_rewrite second]
  | updateJoin outer inner outerKey innerKey set condition =>
    simp only [mutation, fallible_bind, fallible_surely, fallible_pure] at h
    obtain ⟨_, _, first, _, _, second, _, _, third, _, _, fourth, _, _, fifth, _, _, sixth, rfl, -⟩ := h
    simp only [Mutation.rewrite, queries first, queries second, lambda_rewrite third, lambda_rewrite fourth,
      lambda_rewrite fifth, lambda?_rewrite sixth]
  | upsert target source inserted updated =>
    simp only [mutation, fallible_bind, fallible_surely, fallible_pure] at h
    obtain ⟨_, _, first, _, _, second, _, _, third, rfl, -⟩ := h
    cases source with
    | none =>
      obtain ⟨rfl, -⟩ := fallible_pure.1 first
      simp only [Mutation.rewrite, Option.map_none, lambda_rewrite second, lambda?_rewrite third]
    | some q =>
      simp only [query?, fallible_bind, fallible_pure] at first
      obtain ⟨_, _, run, rfl, -⟩ := first
      simp only [Mutation.rewrite, Option.map_some, queries run, lambda_rewrite second, lambda?_rewrite third]
  | merge target source targetKey sourceKey updated inserted delete =>
    simp only [mutation, fallible_bind, fallible_surely, fallible_pure] at h
    obtain ⟨_, _, first, _, _, second, _, _, third, _, _, fourth, _, _, fifth, rfl, -⟩ := h
    simp only [Mutation.rewrite, queries first, lambda_rewrite second, lambda_rewrite third, lambda?_rewrite fourth,
      lambda?_rewrite fifth]

end Lifting

namespace Client

theorem Lambda.fold_rewrite {l l' : Lambda} (h : l.fold = .ok l') (e : Expr) :
    l'.rewrite (fun _ => e) = l.rewrite fun _ => e := by
  obtain ⟨_, -, h⟩ := bind_eq_ok.1 h
  obtain rfl := pure_eq_ok.1 h
  rfl

theorem Lambda.foldOption_rewrite {l l' : Option Lambda} (h : Lambda.foldOption l = .ok l') (e : Expr) :
    l'.map (Lambda.rewrite fun _ => e) = l.map (Lambda.rewrite fun _ => e) := by
  cases l with
  | none =>
    obtain rfl := Except.ok.inj h
    rfl
  | some l =>
    obtain ⟨_, folded, h⟩ := bind_eq_ok.1 h
    obtain rfl := pure_eq_ok.1 h
    exact congrArg some (Lambda.fold_rewrite folded e)

theorem Query.fold_skeleton {q q' : Query} (h : q.fold = .ok q') : q'.skeleton = q.skeleton := by
  unfold Query.skeleton
  induction q generalizing q' with
  | set | rows =>
    obtain rfl := Except.ok.inj h
    rfl
  | filter input l ih | map input l ih | orderBy input l _ ih | groupBy input l ih =>
    obtain ⟨_, first, h⟩ := bind_eq_ok.1 h
    obtain ⟨_, folded, h⟩ := bind_eq_ok.1 h
    obtain rfl := pure_eq_ok.1 h
    simp only [Query.rewrite, ih first, Lambda.fold_rewrite folded]
  | take input e ih | skip input e ih =>
    obtain ⟨_, first, h⟩ := bind_eq_ok.1 h
    obtain ⟨_, -, h⟩ := bind_eq_ok.1 h
    obtain rfl := pure_eq_ok.1 h
    simp only [Query.rewrite, ih first]
  | join outer inner outerKey innerKey result iho ihi =>
    obtain ⟨_, first, h⟩ := bind_eq_ok.1 h
    obtain ⟨_, second, h⟩ := bind_eq_ok.1 h
    obtain ⟨_, third, h⟩ := bind_eq_ok.1 h
    obtain ⟨_, fourth, h⟩ := bind_eq_ok.1 h
    obtain ⟨_, fifth, h⟩ := bind_eq_ok.1 h
    obtain rfl := pure_eq_ok.1 h
    simp only [Query.rewrite, iho first, ihi second, Lambda.fold_rewrite third, Lambda.fold_rewrite fourth,
      Lambda.fold_rewrite fifth]
  | union left right ihl ihr =>
    obtain ⟨_, first, h⟩ := bind_eq_ok.1 h
    obtain ⟨_, second, h⟩ := bind_eq_ok.1 h
    obtain rfl := pure_eq_ok.1 h
    simp only [Query.rewrite, ihl first, ihr second]

theorem Query.foldOption_skeleton {q q' : Option Query} (h : Query.foldOption q = .ok q') :
    q'.map Query.skeleton = q.map Query.skeleton := by
  cases q with
  | none =>
    obtain rfl := Except.ok.inj h
    rfl
  | some q =>
    obtain ⟨_, folded, h⟩ := bind_eq_ok.1 h
    obtain rfl := pure_eq_ok.1 h
    exact congrArg some (Query.fold_skeleton folded)

theorem Mutation.fold_skeleton {m m' : Mutation} (h : m.fold = .ok m') : m'.skeleton = m.skeleton := by
  have queries {q q' : Query} (folded : q.fold = .ok q') :
      q'.rewrite (fun _ => .constant .null) (fun _ => .records [] []) =
        q.rewrite (fun _ => .constant .null) fun _ => .records [] [] := Query.fold_skeleton folded
  have sources {q q' : Option Query} (folded : Query.foldOption q = .ok q') :
      q'.map (Query.rewrite (fun _ => .constant .null) fun _ => .records [] []) =
        q.map (Query.rewrite (fun _ => .constant .null) fun _ => .records [] []) := Query.foldOption_skeleton folded
  -- the skeleton forgets all expressions and rows, which is all that folding changes
  unfold Mutation.skeleton
  cases m with
  | delete q | insertInto q _ =>
    obtain ⟨_, first, h⟩ := bind_eq_ok.1 h
    obtain rfl := pure_eq_ok.1 h
    simp only [Mutation.rewrite, queries first]
  | update q set =>
    obtain ⟨_, first, h⟩ := bind_eq_ok.1 h
    obtain ⟨_, second, h⟩ := bind_eq_ok.1 h
    obtain rfl := pure_eq_ok.1 h
    simp only [Mutation.rewrite, queries first, Lambda.fold_rewrite second]
  | updateJoin outer inner outerKey innerKey set condition =>
    obtain ⟨_, first, h⟩ := bind_eq_ok.1 h
    obtain ⟨_, second, h⟩ := bind_eq_ok.1 h
    obtain ⟨_, third, h⟩ := bind_eq_ok.1 h
    obtain ⟨_, fourth, h⟩ := bind_eq_ok.1 h
    obtain ⟨_, fifth, h⟩ := bind_eq_ok.1 h
    obtain ⟨_, sixth, h⟩ := bind_eq_ok.1 h
    obtain rfl := pure_eq_ok.1 h
    simp only [Mutation.rewrite, queries first, queries second, Lambda.fold_rewrite third, Lambda.fold_rewrite fourth,
      Lambda.fold_rewrite fifth, Lambda.foldOption_rewrite sixth]
  | upsert target source inserted updated =>
    obtain ⟨_, first, h⟩ := bind_eq_ok.1 h
    obtain ⟨_, second, h⟩ := bind_eq_ok.1 h
    obtain ⟨_, third, h⟩ := bind_eq_ok.1 h
    obtain rfl := pure_eq_ok.1 h
    simp only [Mutation.rewrite, sources first, Lambda.fold_rewrite second, Lambda.foldOption_rewrite third]
  | merge target source targetKey sourceKey updated inserted delete =>
    obtain ⟨_, first, h⟩ := bind_eq_ok.1 h
    obtain ⟨_, second, h⟩ := bind_eq_ok.1 h
    obtain ⟨_, third, h⟩ := bind_eq_ok.1 h
    obtain ⟨_, fourth, h⟩ := bind_eq_ok.1 h
    obtain ⟨_, fifth, h⟩ := bind_eq_ok.1 h
    obtain rfl := pure_eq_ok.1 h
    simp only [Mutation.rewrite, queries first, Lambda.fold_rewrite second, Lambda.fold_rewrite third,
      Lambda.foldOption_rewrite fourth, Lambda.foldOption_rewrite fifth]

end Client

/-! ## Plain writing -/

namespace Planning

open Execution

section

variable (m : Model) (known : String → Option Value)

/-- Writing out the known parameters of a lambda is plain, whatever the elements may look like that it is applied to. -/
def LambdaPlain (args : List (Shape → Shape → Prop)) (l : Lambda) : Prop :=
  ∀ pairs, Admits args pairs →
    l.body.FillsPlainly (filling m known (l.params.zip (pairs.map Prod.fst)) (l.params.zip (pairs.map Prod.snd)))

/-- Writing out the known parameters is plain for all expressions of a query, beside the query that this leads to. -/
def QueryPlain : Query → Query → Prop
  | .filter q l, .filter q' _ | .map q l, .map q' _ | .orderBy q l _, .orderBy q' _ _ | .groupBy q l, .groupBy q' _ =>
    QueryPlain q q' ∧ LambdaPlain m known [Elements m q q'] l
  | .join q r k l n, .join q' r' _ _ _ =>
    QueryPlain q q' ∧ QueryPlain r r' ∧ LambdaPlain m known [Elements m q q'] k ∧
      LambdaPlain m known [Elements m r r'] l ∧ LambdaPlain m known [Elements m q q', Elements m r r'] n
  | .take q e, .take q' _ | .skip q e, .skip q' _ => QueryPlain q q' ∧ e.FillsPlainly (filling m known [] [])
  | .union q r, .union q' r' => QueryPlain q q' ∧ QueryPlain r r'
  | _, _ => True

def SourcePlain : Option Query → Option Query → Prop
  | some q, some q' => QueryPlain m known q q'
  | _, _ => True

/-- Writing out the known parameters is plain for all expressions of a mutation, beside the mutation that this leads
to. -/
def MutationPlain : Mutation → Mutation → Prop
  | .delete q, .delete q' | .insertInto q _, .insertInto q' _ => QueryPlain m known q q'
  | .update q l, .update q' _ => QueryPlain m known q q' ∧ LambdaPlain m known [Elements m q q'] l
  | .updateJoin q r k l n c, .updateJoin q' r' _ _ _ _ =>
    QueryPlain m known q q' ∧ QueryPlain m known r r' ∧ LambdaPlain m known [Elements m q q'] k ∧
      LambdaPlain m known [Elements m r r'] l ∧ LambdaPlain m known [Elements m q q', Elements m r r'] n ∧
      ∀ condition ∈ c, LambdaPlain m known [Elements m q q', Elements m r r'] condition
  | .upsert target q l u, .upsert _ q' _ _ =>
    SourcePlain m known q q' ∧ LambdaPlain m known (sourceElements m q q') l ∧
      ∀ update ∈ u, LambdaPlain m known [TargetRow target, IncomingRow target] update
  | .merge target q k l u i _, .merge _ q' _ _ _ _ _ =>
    QueryPlain m known q q' ∧ LambdaPlain m known [TargetRow target] k ∧ LambdaPlain m known [Elements m q q'] l ∧
      (∀ update ∈ u, LambdaPlain m known [TargetRow target, Elements m q q'] update) ∧
      ∀ insert ∈ i, LambdaPlain m known [Elements m q q'] insert
  | _, _ => True

end

def FilledTo (known : String → Option Value) (e e' : Expr) : Prop :=
  (e.fill known).fold = .ok e'

def RowsSame (S : Sides) (c c' : LocalRows) : Prop :=
  ∃ name name' fields, c = .parameter name fields ∧ c' = .parameter name' fields ∧ HoldSame S name name'

theorem forall₂_append_inv {α β : Type} {R : α → β → Prop} {as bs : List α} {cs ds : List β}
    (length : as.length = cs.length) (h : List.Forall₂ R (as ++ bs) (cs ++ ds)) :
    List.Forall₂ R as cs ∧ List.Forall₂ R bs ds := by
  induction as generalizing cs with
  | nil =>
    obtain rfl := List.length_eq_zero_iff.1 length.symm
    exact ⟨.nil, h⟩
  | cons a as ih =>
    cases cs with
    | nil => cases length
    | cons c cs =>
      obtain ⟨first, rest⟩ := List.forall₂_cons.1 h
      obtain ⟨before, behind⟩ := ih (Nat.succ.inj length) rest
      exact ⟨.cons first before, behind⟩

theorem input_and_last {R : Expr → Expr → Prop} {q q' : Query} (same : q.skeleton = q'.skeleton) {e e' : Expr}
    (h : List.Forall₂ R (q.expressions ++ [e]) (q'.expressions ++ [e'])) :
    List.Forall₂ R q.expressions q'.expressions ∧ R e e' := by
  obtain ⟨before, own⟩ := forall₂_append_inv (Query.length_expressions same) h
  exact ⟨before, (List.forall₂_cons.1 own).1⟩

section

variable {m : Model} {S : Sides}

theorem lambda_reduces {args : List (Shape → Shape → Prop)} {l l' : Lambda} {e : Expr}
    (same : l.rewrite (fun _ => e) = l'.rewrite fun _ => e) (plain : LambdaPlain m S.left.known args l)
    (filled : FilledTo S.left.known l.body l'.body) : LambdasReduce m S args l l' :=
  ⟨(congrArg Lambda.params same :), fun pairs admitted => filled_reduces filled (plain pairs admitted)⟩

theorem queries_reduce {q q' : Query} (same : q.skeleton = q'.skeleton) (plain : QueryPlain m S.left.known q q')
    (filled : List.Forall₂ (FilledTo S.left.known) q.expressions q'.expressions)
    (rows : List.Forall₂ (RowsSame S) q.collections q'.collections) : QueriesReduce m S q q' := by
  -- equal skeletons have the same operators, and as many expressions in every operand, so that the two lists of
  -- expressions come apart at the same places
  induction q generalizing q' with
  | set name =>
    cases q' with
    | set name' =>
      obtain rfl := Query.set.inj same
      exact .set name
    | _ => cases same
  | rows c =>
    cases q' with
    | rows c' =>
      obtain ⟨name, name', fields, rfl, rfl, held⟩ := (List.forall₂_cons.1 rows).1
      exact .rows fields held
    | _ => cases same
  | filter input l ih =>
    cases q' with
    | filter input' l' =>
      obtain ⟨inputs, bodies⟩ := Query.filter.inj same
      obtain ⟨before, own⟩ := input_and_last inputs filled
      exact .filter (ih inputs plain.1 before rows) (lambda_reduces bodies plain.2 own)
    | _ => cases same
  | map input l ih =>
    cases q' with
    | map input' l' =>
      obtain ⟨inputs, bodies⟩ := Query.map.inj same
      obtain ⟨before, own⟩ := input_and_last inputs filled
      exact .map (ih inputs plain.1 before rows) (lambda_reduces bodies plain.2 own)
    | _ => cases same
  | orderBy input l descending ih =>
    cases q' with
    | orderBy input' l' descending' =>
      obtain ⟨inputs, bodies, rfl⟩ := Query.orderBy.inj same
      obtain ⟨before, own⟩ := input_and_last inputs filled
      exact .orderBy (ih inputs plain.1 before rows) (lambda_reduces bodies plain.2 own) _
    | _ => cases same
  | groupBy input l ih =>
    cases q' with
    | groupBy input' l' =>
      obtain ⟨inputs, bodies⟩ := Query.groupBy.inj same
      obtain ⟨before, own⟩ := input_and_last inputs filled
      exact .groupBy (ih inputs plain.1 before rows) (lambda_reduces bodies plain.2 own)
    | _ => cases same
  | take input e ih =>
    cases q' with
    | take input' e' =>
      obtain ⟨inputs, -⟩ := Query.take.inj same
      obtain ⟨before, own⟩ := input_and_last inputs filled
      exact .take (ih inputs plain.1 before rows) (filled_reduces own plain.2)
    | _ => cases same
  | skip input e ih =>
    cases q' with
    | skip input' e' =>
      obtain ⟨inputs, -⟩ := Query.skip.inj same
      obtain ⟨before, own⟩ := input_and_last inputs filled
      exact .skip (ih inputs plain.1 before rows) (filled_reduces own plain.2)
    | _ => cases same
  | join outer inner k l n iho ihi =>
    cases q' with
    | join outer' inner' k' l' n' =>
      obtain ⟨outers, inners, keys, keys', results⟩ := Query.join.inj same
      obtain ⟨plainOuter, plainInner, plainKey, plainKey', plainResult⟩ := plain
      obtain ⟨sources, own⟩ := forall₂_append_inv (by
        simp [Query.length_expressions outers, Query.length_expressions inners]) filled
      obtain ⟨before, behind⟩ := forall₂_append_inv (Query.length_expressions outers) sources
      obtain ⟨left, right⟩ := forall₂_append_inv (Query.length_collections outers) rows
      obtain ⟨key, own⟩ := List.forall₂_cons.1 own
      obtain ⟨key', own⟩ := List.forall₂_cons.1 own
      exact .join (iho outers plainOuter before left) (ihi inners plainInner behind right)
        (lambda_reduces keys plainKey key) (lambda_reduces keys' plainKey' key')
        (lambda_reduces results plainResult (List.forall₂_cons.1 own).1)
    | _ => cases same
  | union left right ihl ihr =>
    cases q' with
    | union left' right' =>
      obtain ⟨lefts, rights⟩ := Query.union.inj same
      obtain ⟨before, behind⟩ := forall₂_append_inv (Query.length_expressions lefts) filled
      obtain ⟨first, second⟩ := forall₂_append_inv (Query.length_collections lefts) rows
      exact .union (ihl lefts plain.1 before first) (ihr rights plain.2 behind second)
    | _ => cases same

theorem clause_reduces {args : List (Shape → Shape → Prop)} {c c' : Option Lambda} {e : Expr}
    (same : c.map (Lambda.rewrite fun _ => e) = c'.map (Lambda.rewrite fun _ => e))
    (plain : ∀ l ∈ c, LambdaPlain m S.left.known args l)
    (filled : List.Forall₂ (FilledTo S.left.known) (c.toList.map Lambda.body) (c'.toList.map Lambda.body)) :
    Option.Rel (LambdasReduce m S args) c c' := by
  cases c with
  | none =>
    cases c' with
    | none => exact .none
    | some l' => cases same
  | some l =>
    cases c' with
    | none => cases same
    | some l' => exact .some (lambda_reduces (Option.some.inj same) (plain l rfl) (List.forall₂_cons.1 filled).1)

/-- Mutations of one skeleton reduce, if their expressions do. -/
theorem mutations_reduce {mutation mutation' : Mutation} (same : mutation.skeleton = mutation'.skeleton)
    (plain : MutationPlain m S.left.known mutation mutation')
    (filled : List.Forall₂ (FilledTo S.left.known) mutation.expressions mutation'.expressions)
    (rows : List.Forall₂ (RowsSame S) mutation.collections mutation'.collections) :
    MutationsReduce m S mutation mutation' := by
  cases mutation with
  | delete q =>
    cases mutation' with
    | delete q' => exact .delete (queries_reduce (Mutation.delete.inj same) plain filled rows)
    | _ => cases same
  | insertInto q target =>
    cases mutation' with
    | insertInto q' target' =>
      obtain ⟨queries, rfl⟩ := Mutation.insertInto.inj same
      exact .insertInto (queries_reduce queries plain filled rows) target
    | _ => cases same
  | update q l =>
    cases mutation' with
    | update q' l' =>
      obtain ⟨queries, bodies⟩ := Mutation.update.inj same
      obtain ⟨before, own⟩ := input_and_last queries filled
      exact .update (queries_reduce queries plain.1 before rows) (lambda_reduces bodies plain.2 own)
    | _ => cases same
  | updateJoin q r k l n c =>
    cases mutation' with
    | updateJoin q' r' k' l' n' c' =>
      obtain ⟨outers, inners, keys, keys', bodies, conditions⟩ := Mutation.updateJoin.inj same
      obtain ⟨plainOuter, plainInner, plainKey, plainKey', plainSet, plainCondition⟩ := plain
      -- the expressions stand in the order of the fields, and the condition comes last
      have length := Query.length_expressions outers
      have length' := Query.length_expressions inners
      obtain ⟨lambdas, condition⟩ := forall₂_append_inv (by simp [length, length']) filled
      obtain ⟨sources, own⟩ := forall₂_append_inv (by simp [length, length']) lambdas
      obtain ⟨before, behind⟩ := forall₂_append_inv length sources
      obtain ⟨left, right⟩ := forall₂_append_inv (Query.length_collections outers) rows
      obtain ⟨key, own⟩ := List.forall₂_cons.1 own
      obtain ⟨key', own⟩ := List.forall₂_cons.1 own
      exact .updateJoin (queries_reduce outers plainOuter before left) (queries_reduce inners plainInner behind right)
        (lambda_reduces keys plainKey key) (lambda_reduces keys' plainKey' key')
        (lambda_reduces bodies plainSet (List.forall₂_cons.1 own).1) (clause_reduces conditions plainCondition condition)
    | _ => cases same
  | upsert target q l u =>
    cases mutation' with
    | upsert target' q' l' u' =>
      obtain ⟨rfl, sources, inserts, updates⟩ := Mutation.upsert.inj same
      obtain ⟨plainSource, plainInsert, plainUpdate⟩ := plain
      cases q with
      | none =>
        cases q' with
        | none =>
          obtain ⟨insert, update⟩ := List.forall₂_cons.1 filled
          exact .upsert target .none (lambda_reduces inserts plainInsert insert) (clause_reduces updates plainUpdate update)
        | some q' => cases sources
      | some q =>
        cases q' with
        | none => cases sources
        | some q' =>
          have queries : q.skeleton = q'.skeleton := Option.some.inj sources
          obtain ⟨before, update⟩ := forall₂_append_inv (by simp [Query.length_expressions queries]) filled
          obtain ⟨before, insert⟩ := input_and_last queries before
          exact .upsert target (.some (queries_reduce queries plainSource before rows))
            (lambda_reduces inserts plainInsert insert) (clause_reduces updates plainUpdate update)
    | _ => cases same
  | merge target q k l u i d =>
    cases mutation' with
    | merge target' q' k' l' u' i' d' =>
      obtain ⟨rfl, queries, keys, keys', updates, inserts, rfl⟩ := Mutation.merge.inj same
      obtain ⟨plainSource, plainKey, plainKey', plainUpdate, plainInsert⟩ := plain
      have length := Query.length_expressions queries
      have clauses : u.toList.length = u'.toList.length := by
        cases u <;> cases u' <;> first | rfl | cases updates
      obtain ⟨before, insert⟩ := forall₂_append_inv (by simp [length, clauses]) filled
      obtain ⟨before, update⟩ := forall₂_append_inv (by simp [length]) before
      obtain ⟨before, own⟩ := forall₂_append_inv length before
      obtain ⟨key, own⟩ := List.forall₂_cons.1 own
      exact .merge target (queries_reduce queries plainSource before rows) (lambda_reduces keys plainKey key)
        (lambda_reduces keys' plainKey' (List.forall₂_cons.1 own).1) (clause_reduces updates plainUpdate update)
        (clause_reduces inserts plainInsert insert) d
    | _ => cases same

end

end Planning

end Setwise
