import Setwise.Proofs.BoundValues

/-!
Folding reaches a normal form.

An expression is foldable when it is itself one that folding rewrites, and settled when no expression in it is. What
folding gives is settled (`fold_settled`), and a settled expression is its own folded form (`fold_of_settled`), so
folding once more changes nothing, neither an expression nor a mutation (`folding_settles`).
-/

set_option autoImplicit false

namespace Setwise.Client

/-! ## Normal forms -/

namespace Expr

/-- Folding rewrites the expression itself: it is an operator on two constants, the negation of a negation, of a truth
value or of NULL, or a conditional with a constant test. -/
inductive Foldable : Expr → Prop
  | constants (v : Value) (op : Operator) (w : Value) : Foldable (.binary (.constant v) op (.constant w))
  | negatedTwice (e : Expr) : Foldable (.not (.not e))
  | negatedTruth (b : Bool) : Foldable (.not (.constant (.bool b)))
  | negatedNull : Foldable (.not (.constant .null))
  | decided (v : Value) (a b : Expr) : Foldable (.conditional (.constant v) a b)

inductive Inside : Expr → Expr → Prop
  | self (e : Expr) : Inside e e
  | owner {part of : Expr} (name : String) (h : Inside part of) : Inside part (.member of name)
  | left {part l : Expr} (op : Operator) (r : Expr) (h : Inside part l) : Inside part (.binary l op r)
  | right {part r : Expr} (l : Expr) (op : Operator) (h : Inside part r) : Inside part (.binary l op r)
  | operand {part e : Expr} (h : Inside part e) : Inside part (.not e)
  | test {part test : Expr} (a b : Expr) (h : Inside part test) : Inside part (.conditional test a b)
  | ifTrue {part a : Expr} (test b : Expr) (h : Inside part a) : Inside part (.conditional test a b)
  | ifFalse {part b : Expr} (test a : Expr) (h : Inside part b) : Inside part (.conditional test a b)
  | arg {part a : Expr} {args : List Expr} (type : Option String) (bindings : List (Binding Expr))
      (member : a ∈ args) (h : Inside part a) : Inside part (.new type args bindings)
  | assigned {part value : Expr} {name : String} {bindings : List (Binding Expr)} (type : Option String)
      (args : List Expr) (member : .assign name value ∈ bindings) (h : Inside part value) :
      Inside part (.new type args bindings)
  | item {part value : Expr} {name : String} {values : List Expr} {bindings : List (Binding Expr)}
      (type : Option String) (args : List Expr) (member : .items name values ∈ bindings) (item : value ∈ values)
      (h : Inside part value) : Inside part (.new type args bindings)

def Settled (e : Expr) : Prop :=
  ∀ part : Expr, part.Inside e → ¬ part.Foldable

end Expr

/-- Nothing in the member initialiser is left to fold. -/
def Binding.Settled : Binding Expr → Prop
  | .assign _ value => value.Settled
  | .items _ values => ∀ value ∈ values, value.Settled

namespace Expr

theorem settled_member {of : Expr} {name : String} : (member of name).Settled ↔ of.Settled := by
  constructor
  · exact fun h part inside => h part (.owner name inside)
  · intro h part inside
    cases inside with
    | self => exact nofun
    | owner _ inside => exact h part inside

theorem settled_binary {l r : Expr} {op : Operator} :
    (binary l op r).Settled ↔ l.Settled ∧ r.Settled ∧ ¬ (binary l op r).Foldable := by
  constructor
  · exact fun h => ⟨fun part inside => h part (.left op r inside), fun part inside => h part (.right l op inside),
      h _ (.self _)⟩
  · rintro ⟨left, right, here⟩ part inside
    cases inside with
    | self => exact here
    | left _ _ inside => exact left part inside
    | right _ _ inside => exact right part inside

theorem settled_not {e : Expr} : (not e).Settled ↔ e.Settled ∧ ¬ (not e).Foldable := by
  constructor
  · exact fun h => ⟨fun part inside => h part (.operand inside), h _ (.self _)⟩
  · rintro ⟨operand, here⟩ part inside
    cases inside with
    | self => exact here
    | operand inside => exact operand part inside

theorem settled_conditional {test a b : Expr} :
    (conditional test a b).Settled ↔
      test.Settled ∧ a.Settled ∧ b.Settled ∧ ¬ (conditional test a b).Foldable := by
  constructor
  · exact fun h => ⟨fun part inside => h part (.test a b inside), fun part inside => h part (.ifTrue test b inside),
      fun part inside => h part (.ifFalse test a inside), h _ (.self _)⟩
  · rintro ⟨tested, first, second, here⟩ part inside
    cases inside with
    | self => exact here
    | test _ _ inside => exact tested part inside
    | ifTrue _ _ inside => exact first part inside
    | ifFalse _ _ inside => exact second part inside

theorem settled_new {type : Option String} {args : List Expr} {bindings : List (Binding Expr)} :
    (new type args bindings).Settled ↔ (∀ a ∈ args, a.Settled) ∧ ∀ b ∈ bindings, b.Settled := by
  constructor
  · intro h
    refine ⟨fun a member part inside => h part (.arg type bindings member inside), fun b member => ?_⟩
    cases b with
    | assign name value => exact fun part inside => h part (.assigned type args member inside)
    | items name values => exact fun value item part inside => h part (.item type args member item inside)
  · rintro ⟨inArgs, inBindings⟩ part inside
    cases inside with
    | self => exact nofun
    | arg _ _ member inside => exact inArgs _ member part inside
    | assigned _ _ member inside => exact inBindings _ member part inside
    | item _ _ member item inside => exact inBindings _ member _ item part inside

theorem settled_of_alone {e : Expr} (alone : ∀ part, part.Inside e → part = e) (h : ¬ e.Foldable) : e.Settled :=
  fun part inside => alone part inside ▸ h

theorem settled_param (name : String) : (param name).Settled :=
  settled_of_alone (fun _ inside => by cases inside; rfl) nofun

theorem settled_constant (v : Value) : (constant v).Settled :=
  settled_of_alone (fun _ inside => by cases inside; rfl) nofun

theorem settled_captured (name : String) (v : Value) : (captured name v).Settled :=
  settled_of_alone (fun _ inside => by cases inside; rfl) nofun

theorem settled_runtime (name : String) : (runtime name).Settled :=
  settled_of_alone (fun _ inside => by cases inside; rfl) nofun

/-! ## What folding gives -/

theorem foldBinary_settled {whole l r e : Expr} {op : Operator} (left : l.Settled) (right : r.Settled)
    (h : foldBinary whole l op r = .ok e) : e.Settled := by
  unfold foldBinary at h
  split at h
  next v w =>
    split at h
    next result _ =>
      obtain rfl := Except.ok.inj h
      exact settled_constant result
    next => cases h
  next open_ =>
    obtain rfl := Except.ok.inj h
    refine settled_binary.2 ⟨left, right, fun foldable => ?_⟩
    cases foldable with
    | constants v _ w => exact open_ v w rfl rfl

theorem foldNot_settled {e : Expr} (h : e.Settled) : (foldNot e).Settled := by
  unfold foldNot
  split
  next => exact settled_constant _
  next => exact settled_constant _
  next inner => exact (settled_not.1 h).1
  next noTruth noNull noNegation =>
    refine settled_not.2 ⟨h, fun foldable => ?_⟩
    cases foldable with
    | negatedTwice inner => exact noNegation inner rfl
    | negatedTruth b => exact noTruth b rfl
    | negatedNull => exact noNull rfl

mutual

theorem fold_settled {e e' : Expr} (h : e.fold = .ok e') : e'.Settled := by
  match e with
  | .param name =>
    obtain rfl := Except.ok.inj h
    exact settled_param name
  | .constant v =>
    obtain rfl := Except.ok.inj h
    exact settled_constant v
  | .captured name v =>
    obtain rfl := Except.ok.inj h
    exact settled_captured name v
  | .runtime name =>
    obtain rfl := Except.ok.inj h
    exact settled_runtime name
  | .member of name =>
    obtain ⟨of', folded, h⟩ := bind_eq_ok.1 h
    obtain rfl := pure_eq_ok.1 h
    exact settled_member.2 (fold_settled folded)
  | .binary l op r =>
    obtain ⟨l', left, h⟩ := bind_eq_ok.1 h
    obtain ⟨r', right, h⟩ := bind_eq_ok.1 h
    exact foldBinary_settled (fold_settled left) (fold_settled right) h
  | .not operand =>
    obtain ⟨operand', folded, h⟩ := bind_eq_ok.1 h
    obtain rfl := pure_eq_ok.1 h
    exact foldNot_settled (fold_settled folded)
  | .conditional test a b =>
    obtain ⟨test', tested, h⟩ := bind_eq_ok.1 h
    split at h
    next v =>
      -- the branch that is chosen is all that remains
      split at h
      next => exact fold_settled h
      next => exact fold_settled h
    next undecided =>
      obtain ⟨a', first, h⟩ := bind_eq_ok.1 h
      obtain ⟨b', second, h⟩ := bind_eq_ok.1 h
      obtain rfl := pure_eq_ok.1 h
      refine settled_conditional.2 ⟨fold_settled tested, fold_settled first, fold_settled second, fun foldable => ?_⟩
      cases foldable with
      | decided v _ _ => exact undecided v rfl
  | .new type args bindings =>
    obtain ⟨bindings', inBindings, h⟩ := bind_eq_ok.1 h
    obtain ⟨args', inArgs, h⟩ := bind_eq_ok.1 h
    obtain rfl := pure_eq_ok.1 h
    exact settled_new.2 ⟨foldList_settled inArgs, foldBindings_settled inBindings⟩

theorem foldList_settled {es es' : List Expr} (h : foldList es = .ok es') : ∀ e ∈ es', e.Settled := by
  match es with
  | [] =>
    obtain rfl := Except.ok.inj h
    exact fun _ member => nomatch member
  | e :: rest =>
    obtain ⟨e', folded, h⟩ := bind_eq_ok.1 h
    obtain ⟨rest', later, h⟩ := bind_eq_ok.1 h
    obtain rfl := pure_eq_ok.1 h
    exact List.forall_mem_cons.2 ⟨fold_settled folded, foldList_settled later⟩

theorem foldBindings_settled {bs bs' : List (Binding Expr)} (h : foldBindings bs = .ok bs') :
    ∀ b ∈ bs', b.Settled := by
  match bs with
  | [] =>
    obtain rfl := Except.ok.inj h
    exact fun _ member => nomatch member
  | b :: rest =>
    obtain ⟨b', folded, h⟩ := bind_eq_ok.1 h
    obtain ⟨rest', later, h⟩ := bind_eq_ok.1 h
    obtain rfl := pure_eq_ok.1 h
    exact List.forall_mem_cons.2 ⟨foldBinding_settled folded, foldBindings_settled later⟩

theorem foldBinding_settled {b b' : Binding Expr} (h : foldBinding b = .ok b') : b'.Settled := by
  match b with
  | .assign name value =>
    obtain ⟨value', folded, h⟩ := bind_eq_ok.1 h
    obtain rfl := pure_eq_ok.1 h
    exact fold_settled folded
  | .items name values =>
    obtain ⟨values', folded, h⟩ := bind_eq_ok.1 h
    obtain rfl := pure_eq_ok.1 h
    exact foldList_settled folded

end

/-! ## What folding leaves alone -/

theorem foldBinary_of_open {whole l r : Expr} {op : Operator} (h : ¬ (binary l op r).Foldable) :
    foldBinary whole l op r = .ok (binary l op r) := by
  unfold foldBinary
  split
  next v w => exact absurd (.constants v op w) h
  next => rfl

theorem foldNot_of_open {e : Expr} (h : ¬ (not e).Foldable) : foldNot e = not e := by
  unfold foldNot
  split
  next b => exact absurd (.negatedTruth b) h
  next => exact absurd .negatedNull h
  next inner => exact absurd (.negatedTwice inner) h
  next => rfl

mutual

/-- A settled expression is its own folded form. -/
theorem fold_of_settled {e : Expr} (h : e.Settled) : e.fold = .ok e := by
  match e with
  | .param _ | .constant _ | .captured .. | .runtime _ => rfl
  | .member of name => exact bind_eq_ok.2 ⟨of, fold_of_settled (settled_member.1 h), rfl⟩
  | .binary l op r =>
    obtain ⟨left, right, here⟩ := settled_binary.1 h
    exact bind_eq_ok.2 ⟨l, fold_of_settled left, bind_eq_ok.2 ⟨r, fold_of_settled right, foldBinary_of_open here⟩⟩
  | .not operand =>
    obtain ⟨inside, here⟩ := settled_not.1 h
    exact bind_eq_ok.2 ⟨operand, fold_of_settled inside, congrArg Except.ok (foldNot_of_open here)⟩
  | .conditional test a b =>
    obtain ⟨tested, first, second, here⟩ := settled_conditional.1 h
    refine bind_eq_ok.2 ⟨test, fold_of_settled tested, ?_⟩
    split
    next v => exact absurd (.decided v a b) here
    next => exact bind_eq_ok.2 ⟨a, fold_of_settled first, bind_eq_ok.2 ⟨b, fold_of_settled second, rfl⟩⟩
  | .new type args bindings =>
    obtain ⟨inArgs, inBindings⟩ := settled_new.1 h
    exact bind_eq_ok.2 ⟨bindings, foldBindings_of_settled inBindings,
      bind_eq_ok.2 ⟨args, foldList_of_settled inArgs, rfl⟩⟩

theorem foldList_of_settled {es : List Expr} (h : ∀ e ∈ es, e.Settled) : foldList es = .ok es := by
  match es with
  | [] => rfl
  | e :: rest =>
    obtain ⟨here, later⟩ := List.forall_mem_cons.1 h
    exact bind_eq_ok.2 ⟨e, fold_of_settled here, bind_eq_ok.2 ⟨rest, foldList_of_settled later, rfl⟩⟩

theorem foldBindings_of_settled {bs : List (Binding Expr)} (h : ∀ b ∈ bs, b.Settled) :
    foldBindings bs = .ok bs := by
  match bs with
  | [] => rfl
  | b :: rest =>
    obtain ⟨here, later⟩ := List.forall_mem_cons.1 h
    exact bind_eq_ok.2 ⟨b, foldBinding_of_settled here, bind_eq_ok.2 ⟨rest, foldBindings_of_settled later, rfl⟩⟩

theorem foldBinding_of_settled {b : Binding Expr} (h : b.Settled) : foldBinding b = .ok b := by
  match b with
  | .assign name value => exact bind_eq_ok.2 ⟨value, fold_of_settled h, rfl⟩
  | .items name values => exact bind_eq_ok.2 ⟨values, foldList_of_settled h, rfl⟩

end

end Expr

/-! ## Queries and mutations -/

def Expr.Folded (e : Expr) : Prop :=
  e.fold = .ok e

theorem Lambda.fold_of_folded {l : Lambda} (h : l.body.Folded) : l.fold = .ok l :=
  bind_eq_ok.2 ⟨l.body, h, rfl⟩

theorem Lambda.foldOption_of_folded {l : Option Lambda} (h : ∀ e ∈ l.toList.map Lambda.body, e.Folded) :
    Lambda.foldOption l = .ok l := by
  cases l with
  | none => rfl
  | some l => exact bind_eq_ok.2 ⟨l, fold_of_folded (h l.body (List.mem_singleton_self _)), rfl⟩

theorem Query.fold_of_folded {q : Query} (h : ∀ e ∈ q.expressions, e.Folded) : q.fold = .ok q := by
  induction q with
  | set | rows => rfl
  | filter input l ih | map input l ih | orderBy input l _ ih | groupBy input l ih =>
    obtain ⟨before, last⟩ := List.forall_mem_append.1 h
    have body := Lambda.fold_of_folded (List.forall_mem_singleton.1 last)
    exact bind_eq_ok.2 ⟨input, ih before, bind_eq_ok.2 ⟨l, body, rfl⟩⟩
  | take input count ih | skip input count ih =>
    obtain ⟨before, last⟩ := List.forall_mem_append.1 h
    have folded : count.Folded := List.forall_mem_singleton.1 last
    exact bind_eq_ok.2 ⟨input, ih before, bind_eq_ok.2 ⟨count, folded, rfl⟩⟩
  | join outer inner outerKey innerKey result iho ihi =>
    simp only [expressions, List.forall_mem_append, List.forall_mem_cons] at h
    obtain ⟨⟨inOuter, inInner⟩, inOuterKey, inInnerKey, inResult, -⟩ := h
    refine bind_eq_ok.2 ⟨outer, iho inOuter, bind_eq_ok.2 ⟨inner, ihi inInner, ?_⟩⟩
    refine bind_eq_ok.2 ⟨outerKey, Lambda.fold_of_folded inOuterKey, ?_⟩
    refine bind_eq_ok.2 ⟨innerKey, Lambda.fold_of_folded inInnerKey, ?_⟩
    exact bind_eq_ok.2 ⟨result, Lambda.fold_of_folded inResult, rfl⟩
  | union left right ihl ihr =>
    obtain ⟨inLeft, inRight⟩ := List.forall_mem_append.1 h
    exact bind_eq_ok.2 ⟨left, ihl inLeft, bind_eq_ok.2 ⟨right, ihr inRight, rfl⟩⟩

theorem Query.foldOption_of_folded {q : Option Query} (h : ∀ e ∈ q.elim [] Query.expressions, e.Folded) :
    Query.foldOption q = .ok q := by
  cases q with
  | none => rfl
  | some q => exact bind_eq_ok.2 ⟨q, fold_of_folded h, rfl⟩

theorem Mutation.fold_of_folded {m : Mutation} (h : ∀ e ∈ m.expressions, e.Folded) : m.fold = .ok m := by
  cases m with
  | delete q | insertInto q target => exact bind_eq_ok.2 ⟨q, Query.fold_of_folded h, rfl⟩
  | update q set =>
    obtain ⟨inQuery, inSet⟩ := List.forall_mem_append.1 h
    have assigned := Lambda.fold_of_folded (List.forall_mem_singleton.1 inSet)
    exact bind_eq_ok.2 ⟨q, Query.fold_of_folded inQuery, bind_eq_ok.2 ⟨set, assigned, rfl⟩⟩
  | updateJoin outer inner outerKey innerKey set condition =>
    simp only [expressions, List.forall_mem_append, List.forall_mem_cons] at h
    obtain ⟨⟨⟨inOuter, inInner⟩, inOuterKey, inInnerKey, inSet, -⟩, inCondition⟩ := h
    refine bind_eq_ok.2 ⟨outer, Query.fold_of_folded inOuter, ?_⟩
    refine bind_eq_ok.2 ⟨inner, Query.fold_of_folded inInner, ?_⟩
    refine bind_eq_ok.2 ⟨outerKey, Lambda.fold_of_folded inOuterKey, ?_⟩
    refine bind_eq_ok.2 ⟨innerKey, Lambda.fold_of_folded inInnerKey, ?_⟩
    refine bind_eq_ok.2 ⟨set, Lambda.fold_of_folded inSet, ?_⟩
    exact bind_eq_ok.2 ⟨condition, Lambda.foldOption_of_folded inCondition, rfl⟩
  | upsert target source inserted updated =>
    simp only [expressions, List.forall_mem_append] at h
    obtain ⟨⟨inSource, inInserted⟩, inUpdated⟩ := h
    refine bind_eq_ok.2 ⟨source, Query.foldOption_of_folded inSource, ?_⟩
    refine bind_eq_ok.2 ⟨inserted, Lambda.fold_of_folded (List.forall_mem_singleton.1 inInserted), ?_⟩
    exact bind_eq_ok.2 ⟨updated, Lambda.foldOption_of_folded inUpdated, rfl⟩
  | merge target source targetKey sourceKey updated inserted deleted =>
    simp only [expressions, List.forall_mem_append, List.forall_mem_cons] at h
    obtain ⟨⟨⟨inSource, inTargetKey, inSourceKey, -⟩, inUpdated⟩, inInserted⟩ := h
    refine bind_eq_ok.2 ⟨source, Query.fold_of_folded inSource, ?_⟩
    refine bind_eq_ok.2 ⟨targetKey, Lambda.fold_of_folded inTargetKey, ?_⟩
    refine bind_eq_ok.2 ⟨sourceKey, Lambda.fold_of_folded inSourceKey, ?_⟩
    refine bind_eq_ok.2 ⟨updated, Lambda.foldOption_of_folded inUpdated, ?_⟩
    exact bind_eq_ok.2 ⟨inserted, Lambda.foldOption_of_folded inInserted, rfl⟩

/-- Folding leaves nothing to fold in the expressions of a mutation. -/
theorem Mutation.fold_settled {m m' : Mutation} (h : m.fold = .ok m') : ∀ e ∈ m'.expressions, e.Settled := by
  intro e member
  obtain ⟨before, -, folds⟩ := exists_of_mem_right (mutation_folds h).1 member
  exact Expr.fold_settled folds

/-- Folding reaches a normal form at once: its results hold nothing to fold, and folding them again gives them back. -/
theorem folding_settles :
    (∀ e e' : Expr, e.fold = .ok e' → e'.Settled ∧ e'.fold = .ok e') ∧
      ∀ m m' : Mutation, m.fold = .ok m' → (∀ e ∈ m'.expressions, e.Settled) ∧ m'.fold = .ok m' := by
  constructor
  · intro e e' folded
    have settled := Expr.fold_settled folded
    exact ⟨settled, Expr.fold_of_settled settled⟩
  · intro m m' folded
    have settled := Mutation.fold_settled folded
    exact ⟨settled, Mutation.fold_of_folded fun e member => Expr.fold_of_settled (settled e member)⟩

/-- A condition that is negated twice, with a test and a bound that are constant. -/
def overdrawn : Expr :=
  .not (.not (.conditional (.binary (.constant (.int 1)) .less (.constant (.int 2)))
    (.binary (.member (.param "x") "Value") .less (.binary (.constant (.int 2)) .subtract (.constant (.int 2))))
    (.binary (.constant (.int 1)) .divide (.constant (.int 0)))))

/-- Of the condition, one comparison remains, and nothing in it is left to fold. -/
theorem overdrawn_settles :
    overdrawn.fold = .ok (.binary (.member (.param "x") "Value") .less (.constant (.int 0))) ∧
      Expr.Settled (.binary (.member (.param "x") "Value") .less (.constant (.int 0))) ∧
      (Mutation.delete (.filter (.set "Item") ⟨["x"], overdrawn⟩)).fold =
        .ok (.delete (.filter (.set "Item")
          ⟨["x"], .binary (.member (.param "x") "Value") .less (.constant (.int 0))⟩)) ∧
      (Mutation.delete (.filter (.set "Item")
          ⟨["x"], .binary (.member (.param "x") "Value") .less (.constant (.int 0))⟩)).fold =
        .ok (.delete (.filter (.set "Item")
          ⟨["x"], .binary (.member (.param "x") "Value") .less (.constant (.int 0))⟩)) :=
  ⟨rfl, (folding_settles.1 overdrawn _ rfl).1, rfl,
    (folding_settles.2 (.delete (.filter (.set "Item") ⟨["x"], overdrawn⟩)) _ rfl).2⟩

end Setwise.Client
