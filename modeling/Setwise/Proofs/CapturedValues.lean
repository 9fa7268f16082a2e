import Setwise.Proofs.Fallbacks
import Setwise.Proofs.LosslessLifting
import Setwise.Proofs.Navigation
import Setwise.Proofs.WrittenForms

/-!
Captured values and constants.

A captured value is lifted out and comes back as a runtime parameter when the plan runs; a constant is folded and planned
where it stands. Both ways, a mutation does the same (`captured_values_are_constants`), where writing the captured
values out keeps the tests for NULL, drops negations in front of truth values only and gives up no branch that joins
anything. All three conditions are needed: a captured NULL is compared, but a constant one is tested for
(`capturedNull_changes`); a conditional that is decided can leave two negations of a number (`capturedCondition_changes`);
and the joins of a branch that is never taken still drop rows (`capturedBranch_changes`).
-/

set_option autoImplicit false

namespace Setwise

open Client

/-! ## Captured values written as constants -/

namespace Client

def Expr.written (e : Expr) : Expr :=
  e.replace (fun _ v => .constant v) .runtime

def Expr.writtenList (es : List Expr) : List Expr :=
  Expr.replaceList (fun _ v => .constant v) .runtime es

def Expr.writtenBindings (bs : List (Binding Expr)) : List (Binding Expr) :=
  Expr.replaceBindings (fun _ v => .constant v) .runtime bs

/-- Every captured value in a mutation is written as a constant. -/
def Mutation.written (m : Mutation) : Mutation :=
  m.rewrite Expr.written id

end Client

/-! ## Lifting and writing -/

namespace Lifting

mutual

theorem expr_written (e : Expr) : expr e.written = pure e.written := by
  match e with
  | .param _ | .constant _ | .captured .. | .runtime _ => rfl
  | .member of name =>
    change (expr of.written >>= fun of => pure (Expr.member of name)) = _
    rw [expr_written of]
    rfl
  | .not operand =>
    change (expr operand.written >>= fun operand => pure (Expr.not operand)) = _
    rw [expr_written operand]
    rfl
  | .binary l op r =>
    change (expr l.written >>= fun l => expr r.written >>= fun r => pure (Expr.binary l op r)) = _
    rw [expr_written l, expr_written r]
    rfl
  | .conditional test a b =>
    change (expr test.written >>= fun test => expr a.written >>= fun a => expr b.written >>= fun b =>
      pure (Expr.conditional test a b)) = _
    rw [expr_written test, expr_written a, expr_written b]
    rfl
  | .new type args bindings =>
    change (exprs (Expr.writtenList args) >>= fun args => bindingList (Expr.writtenBindings bindings) >>= fun bindings =>
      pure (Expr.new type args bindings)) = _
    rw [exprs_written args, bindingList_written bindings]
    rfl

theorem exprs_written (es : List Expr) : exprs (Expr.writtenList es) = pure (Expr.writtenList es) := by
  match es with
  | [] => rfl
  | e :: rest =>
    change (expr e.written >>= fun e => exprs (Expr.writtenList rest) >>= fun rest => pure (e :: rest)) = _
    rw [expr_written e, exprs_written rest]
    rfl

theorem bindingList_written (bs : List (Binding Expr)) :
    bindingList (Expr.writtenBindings bs) = pure (Expr.writtenBindings bs) := by
  match bs with
  | [] => rfl
  | .assign member value :: rest =>
    change ((expr value.written >>= fun value => pure (Binding.assign member value)) >>= fun b =>
      bindingList (Expr.writtenBindings rest) >>= fun rest => pure (b :: rest)) = _
    rw [expr_written value, bindingList_written rest]
    rfl
  | .items member values :: rest =>
    change ((exprs (Expr.writtenList values) >>= fun values => pure (Binding.items member values)) >>= fun b =>
      bindingList (Expr.writtenBindings rest) >>= fun rest => pure (b :: rest)) = _
    rw [exprs_written values, bindingList_written rest]
    rfl

end

theorem known_eq_some {ps : Parameters} {name : String} {v : Value} :
    ps.known name = some v ↔ ps.find? name = some (.scalar v) := by
  rw [Parameters.known, Execution.toOption_eq_some, Parameters.scalar_eq_ok]

theorem known_eq_none {ps : Parameters} {name : String} (none : ps.find? name = none) : ps.known name = .none := by
  refine Option.eq_none_iff_forall_not_mem.2 fun v member => ?_
  cases none.symm.trans (known_eq_some.1 member)

theorem Lifts.filled {s : Lifting} {e e' : Expr} (h : Lifts s e e')
    (own : ∀ name ∈ e.parameterNames, s.values.find? name = none) : e'.fill s.values.known = e.written := by
  obtain ⟨s, vs, numbered, rfl, rfl⟩ := h
  refine expr_restored numbered e (RestoredBy.earlier (numbered.expr e) vs fun hint n v found => ?_) fun name member => ?_
  · rw [known_eq_some.2 found]
    rfl
  · rw [known_eq_none (own name member)]
    rfl

theorem Lifts.written {s : Lifting} {e e' : Expr} (h : Lifts s e.written e') : e' = e.written := by
  obtain ⟨s, vs, -, rfl, -⟩ := h
  rw [expr_written]
  rfl

end Lifting

/-! ## Values that remain -/

namespace Client

theorem LocalRows.no_scalar {c : LocalRows} {hint : String} {v : Value} : (hint, Parameter.scalar v) ∉ c.clientValues := by
  unfold LocalRows.clientValues
  split
  next => exact List.not_mem_nil
  next => split <;> simp

theorem Expr.written_clientValues (e : Expr) : e.written.clientValues = [] := by
  have next := Lifting.addAll_next {} e.written.clientValues
  rw [← Lifting.expr_values, Lifting.expr_written] at next
  exact List.eq_nil_of_length_eq_zero (Nat.add_eq_left.1 next.symm)

theorem Query.written_clientValues (q : Query) {hint : String} {v : Value} :
    (hint, Parameter.scalar v) ∉ (q.rewrite Expr.written id).clientValues := by
  induction q with
  | set => exact List.not_mem_nil
  | rows c => exact LocalRows.no_scalar
  | _ => simp_all [Query.rewrite, Query.clientValues, Lambda.rewrite, Expr.written_clientValues]

theorem Mutation.written_clientValues (m : Mutation) {hint : String} {v : Value} :
    (hint, Parameter.scalar v) ∉ m.written.clientValues := by
  have bodies (l : Option Lambda) : Lambda.clientValues? (l.map (Lambda.rewrite Expr.written)) = [] := by
    cases l with
    | none => rfl
    | some l => exact l.body.written_clientValues
  unfold Mutation.written
  cases m with
  | upsert target source inserted updated =>
    cases source <;> simp [Mutation.rewrite, Mutation.clientValues, Query.written_clientValues, bodies, Lambda.rewrite,
      Expr.written_clientValues]
  | _ => simp [Mutation.rewrite, Mutation.clientValues, Query.written_clientValues, bodies, Lambda.rewrite,
      Expr.written_clientValues]

/-! ## Names of a mutation -/

theorem Query.mem_parameterNames {q : Query} {name : String} : name ∈ q.parameterNames ↔
    (∃ e ∈ q.expressions, name ∈ e.parameterNames) ∨ ∃ c ∈ q.collections, name ∈ c.parameterNames := by
  induction q with
  | set | rows => simp [expressions, collections, parameterNames]
  | _ => grind [expressions, collections, parameterNames]

theorem Mutation.mem_parameterNames {m : Mutation} {name : String} : name ∈ m.parameterNames ↔
    (∃ e ∈ m.expressions, name ∈ e.parameterNames) ∨ ∃ c ∈ m.collections, name ∈ c.parameterNames := by
  have clauses (l : Option Lambda) :
      name ∈ Lambda.parameterNames? l ↔ ∃ e ∈ l.toList.map Lambda.body, name ∈ e.parameterNames := by
    cases l <;> simp [Lambda.parameterNames?]
  cases m with
  | upsert target source inserted updated =>
    cases source <;>
      simp only [expressions, collections, parameterNames, Option.elim, List.mem_append, List.mem_cons, List.not_mem_nil,
        Query.mem_parameterNames, clauses, or_and_right, exists_or, exists_eq_left, false_and, exists_false] <;>
      grind
  | _ =>
    simp only [expressions, collections, parameterNames, List.mem_append, List.mem_cons, List.not_mem_nil,
      Query.mem_parameterNames, clauses, or_and_right, exists_or, exists_eq_left, false_and, exists_false] <;>
      grind

end Client

/-! ## A mutation beside its written form -/

theorem forall₂_both {α β γ : Type} {P : α → β → Prop} {Q : α → γ → Prop} {R : β → γ → Prop} {as : List α} {bs : List β}
    {cs : List γ} (first : List.Forall₂ P as bs) (second : List.Forall₂ Q as cs)
    (both : ∀ a ∈ as, ∀ b c, P a b → Q a c → R b c) : List.Forall₂ R bs cs := by
  induction first generalizing cs with
  | nil =>
    cases second
    exact .nil
  | cons here _ ih =>
    obtain ⟨beside, behind⟩ := List.forall_mem_cons.1 both
    cases second with
    | cons here' rest => exact .cons (beside _ _ here here') (ih rest behind)

namespace Planning

open Relational Execution

theorem known_written {mutation form : Mutation} {ps : Parameters} (lifted : mutation.written.lift = .ok (form, ps))
    (name : String) : ps.known name = none := by
  refine Option.eq_none_iff_forall_not_mem.2 fun v member => ?_
  obtain ⟨n, hint, value, -⟩ := (Mutation.find?_lifted lifted name _).1 (Lifting.known_eq_some.1 member)
  exact mutation.written_clientValues (List.mem_of_getElem? value)

section

variable {mutation form form' folded folded' : Mutation} {ps ps' : Parameters}
  (lifted : mutation.lift = .ok (form, ps)) (lifted' : mutation.written.lift = .ok (form', ps'))
  (own : ∀ name ∈ mutation.parameterNames, ps.find? name = none)
include lifted lifted' own

theorem expressions_written : List.Forall₂ (fun e e' => e.fill ps.known = e') form.expressions form'.expressions := by
  obtain ⟨s, run, rfl⟩ := Mutation.lift_eq_ok lifted
  obtain ⟨s', run', rfl⟩ := Mutation.lift_eq_ok lifted'
  have writes := Lifting.mutation_lifts Lifting.numbered_empty run'
  unfold Mutation.written at writes
  rw [Mutation.rewrite_expressions, List.forall₂_map_left_iff] at writes
  refine forall₂_both (Lifting.mutation_lifts Lifting.numbered_empty run) writes fun e member e' e'' lifts written => ?_
  have names : ∀ name ∈ e.parameterNames, s.values.find? name = none := fun name inside =>
    own name (Mutation.mem_parameterNames.2 (.inl ⟨e, member, inside⟩))
  rw [lifts.filled names, written.written]

theorem collections_written : List.Forall₂ (RowsSame ⟨ps, ps'⟩) form.collections form'.collections := by
  have writes := Mutation.collections_lifted lifted'
  unfold Mutation.written at writes
  rw [Mutation.rewrite_collections, List.map_id] at writes
  refine forall₂_both (Mutation.collections_lifted lifted) writes fun c member c' c'' lifts written => ?_
  cases c with
  | records fields elements =>
    obtain ⟨name, rfl, held⟩ := lifts
    obtain ⟨name', rfl, held'⟩ := written
    refine ⟨name, name', fields, rfl, rfl, fun rows rows' found found' => ?_⟩
    exact (Except.ok.inj (found.symm.trans held)).trans (Except.ok.inj (held'.symm.trans found'))
  | parameter name fields =>
    obtain rfl : c' = _ := lifts
    obtain rfl : c'' = _ := written
    refine ⟨name, name, fields, rfl, rfl, fun rows rows' found _ => ?_⟩
    have missing := own name (Mutation.mem_parameterNames.2 (.inr ⟨_, member, List.mem_singleton_self _⟩))
    cases missing.symm.trans (Parameters.rows_eq_ok.1 found)

/-- Once folded, the form of a mutation reduces to that of the mutation with its captured values written as constants,
if writing them out is plain. -/
theorem folded_reduces {m : Model} (folds : form.fold = .ok folded) (folds' : form'.fold = .ok folded')
    (plain : MutationPlain m ps.known folded folded') : MutationsReduce m ⟨ps, ps'⟩ folded folded' := by
  have skeletons : folded.skeleton = folded'.skeleton := by
    obtain ⟨s, run, -⟩ := Mutation.lift_eq_ok lifted
    obtain ⟨s', run', -⟩ := Mutation.lift_eq_ok lifted'
    rw [Mutation.fold_skeleton folds, Mutation.fold_skeleton folds', Lifting.mutation_skeleton run,
      Lifting.mutation_skeleton run', Mutation.written,
      Mutation.rewrite_skeleton]
  obtain ⟨foldings, rows⟩ := mutation_folds folds
  obtain ⟨foldings', rows'⟩ := mutation_folds folds'
  refine mutations_reduce skeletons plain ?_ ?_
  · have filled : List.Forall₂ (fun e e' => (e.fill ps.known).fold = .ok e') form.expressions folded'.expressions := by
      refine forall₂_both (expressions_written lifted lifted' own).flip foldings' fun e' _ e e'' written folds => ?_
      change e'.fold = .ok e'' at folds
      rwa [written]
    exact forall₂_both foldings filled fun _ _ _ _ => fold_filled
  · rw [rows, rows']
    exact collections_written lifted lifted' own

end

/-- Writing the captured values of a mutation as constants is plain: as far as it can be planned both ways, no operand of
an equality comes to stand for NULL or ceases to, double negations are dropped in front of truth values only, and no
branch is given up that joins anything. -/
def WritesPlainly (m : Model) (mutation : Mutation) : Prop :=
  ∀ form form' folded folded' ps ps', mutation.lift = .ok (form, ps) → mutation.written.lift = .ok (form', ps') →
    form.fold = .ok folded → form'.fold = .ok folded' → MutationPlain m ps.known folded folded'

/-- A mutation and the one with its captured values written as constants report the same number of rows and leave the
same database, where both succeed and writing the values is plain. -/
theorem captured_values_are_constants {c : Planner} (honest : c.Honest) (finite : Finite c.model)
    {mutation : Mutation} (plain : WritesPlainly c.model mutation) {plan plan' : Plan} {ps ps' : Parameters}
    (planned : (c.plan mutation).1 = .ok (plan, ps)) (planned' : (c.plan mutation.written).1 = .ok (plan', ps'))
    (own : ∀ name ∈ mutation.parameterNames, ps.find? name = none) {b b' : Block} (bound : plan.bind ps = .ok b)
    (bound' : plan'.bind ps' = .ok b') {db after after' : Database} {outcome outcome' : Outcome}
    (ran : run db b ps = (.ok outcome, after)) (ran' : run db b' ps' = (.ok outcome', after')) :
    outcome = outcome' ∧ after = after' := by
  obtain ⟨form, lifted, made⟩ := (honest.plan mutation).2 plan ps planned
  obtain ⟨form', lifted', made'⟩ := (honest.plan mutation.written).2 plan' ps' planned'
  obtain ⟨folded, raw, _, folds, planning, rfl⟩ := planOf_eq_ok made
  obtain ⟨folded', raw', _, folds', planning', rfl⟩ := planOf_eq_ok made'
  have reduces := folded_reduces lifted lifted' own folds folds' (plain _ _ _ _ _ _ lifted lifted' folds folds')
  obtain ⟨K, agree⟩ := mutation_beside finite (known_written lifted') reduces planning planning'
  exact agree.run bound bound' ran ran'

/-! ## A captured number, and a captured NULL -/

def deleteValued (v : Value) : Mutation :=
  .delete (.filter (.set "Item")
    ⟨["x"], .binary (.member (.param "x") "Value") .equal (.captured "value" v)⟩)

theorem elements_of_set {m : Model} {name : String} {s s' : Shape} (h : Elements m (.set name) (.set name) s s') :
    (∃ r, s = .entity r) ∧ ∃ r, s' = .entity r := by
  obtain ⟨w, p, v, w', p', v', run, run', shapes⟩ := h
  obtain ⟨e, t, -, -, -, rfl⟩ := set_yields run
  obtain ⟨e', t', -, -, -, rfl⟩ := set_yields run'
  rcases shapes with ⟨rfl, rfl⟩ | ⟨subject, subject', label, label', ps, ps', exposed, exposed'⟩
  · exact ⟨⟨_, rfl⟩, _, rfl⟩
  · obtain ⟨_, -, exposed⟩ := bind_eq_ok.1 exposed
    obtain ⟨_, -, exposed'⟩ := bind_eq_ok.1 exposed'
    exact ⟨⟨_, (Prod.mk.inj (pure_eq_ok.1 exposed)).1.symm⟩, _, (Prod.mk.inj (pure_eq_ok.1 exposed')).1.symm⟩

theorem deleteValued_plain (i : Int) : WritesPlainly itemModel (deleteValued (.int i)) := by
  rintro form form' folded folded' ps ps' ⟨⟩ ⟨⟩ ⟨⟩ ⟨⟩
  refine ⟨trivial, ?_⟩
  rintro _ (_ | ⟨element, ⟨⟩⟩)
  obtain ⟨⟨r, entity⟩, r', entity'⟩ := elements_of_set element
  refine ⟨trivial, trivial, fun _ => ?_⟩
  dsimp only [List.map]
  rw [entity, entity']
  rfl

/-- Written as a constant, a captured number deletes the same item. -/
theorem tens_deleted : ∃ plan plan' ps ps' b b' after,
    (Planner.plan { model := itemModel, capabilities := .inMemory } (deleteValued (.int 10))).1 = .ok (plan, ps) ∧
      (Planner.plan { model := itemModel, capabilities := .inMemory } (deleteValued (.int 10)).written).1 =
        .ok (plan', ps') ∧
      plan.bind ps = .ok b ∧ plan'.bind ps' = .ok b' ∧ run twoItems b ps = (.ok (.affected 1), after) ∧
      run twoItems b' ps' = (.ok (.affected 1), after) := by
  obtain ⟨plan, plan', ps, ps', b, b', planned, planned', bound, bound', ran, ran'⟩ : ∃ plan plan' ps ps' b b',
      (Planner.plan { model := itemModel, capabilities := .inMemory } (deleteValued (.int 10))).1 = .ok (plan, ps) ∧
        (Planner.plan { model := itemModel, capabilities := .inMemory } (deleteValued (.int 10)).written).1 =
          .ok (plan', ps') ∧
        plan.bind ps = .ok b ∧ plan'.bind ps' = .ok b' ∧ (run twoItems b ps).1 = .ok (.affected 1) ∧
        (run twoItems b' ps').1 = .ok (.affected 1) :=
    ⟨_, _, _, _, _, _, rfl, rfl, rfl, rfl, rfl, rfl⟩
  have all : ∀ e ∈ itemModel.entities, (itemModel.columns? e).isSome := by decide
  have finite : Finite itemModel := fun _ e known => all e (List.mem_of_find?_eq_some known)
  obtain ⟨-, same⟩ := captured_values_are_constants (Planner.honest_of_no_plans rfl) finite (deleteValued_plain 10)
    planned planned' nofun bound bound' (Prod.ext ran rfl) (Prod.ext ran' rfl)
  exact ⟨plan, plan', ps, ps', b, b', _, planned, planned', bound, bound', Prod.ext ran rfl, Prod.ext ran' same.symm⟩

def Reports (m : Model) (db : Database) (mutation : Mutation) (n : Nat) : Prop :=
  ∃ plan ps b, (Planner.plan { model := m, capabilities := .inMemory } mutation).1 = .ok (plan, ps) ∧
    plan.bind ps = .ok b ∧ (run db b ps).1 = .ok (.affected n)

/-- Nothing equals a captured NULL, but the constant is a test for NULL. -/
theorem capturedNull_changes :
    Reports itemModel twoItems (deleteValued .null) 0 ∧ Reports itemModel twoItems (deleteValued .null).written 1 :=
  ⟨⟨_, _, _, rfl, rfl, rfl⟩, _, _, _, rfl, rfl, rfl⟩

def deleteTruths : Mutation :=
  .delete (.filter (.set "Item") ⟨["x"],
    .binary (.not (.conditional (.captured "on" (.bool true)) (.not (.member (.param "x") "Value")) (.constant .null)))
      .equal (.member (.param "x") "Value")⟩)

/-- Once the condition is decided, the two negations are dropped in front of a number. -/
theorem capturedCondition_changes :
    Reports itemModel twoItems deleteTruths 0 ∧ Reports itemModel twoItems deleteTruths.written 1 :=
  ⟨⟨_, _, _, rfl, rfl, rfl⟩, _, _, _, rfl, rfl, rfl⟩

def stranger : Database :=
  emigrant.put
    { name := "Persons"
      columns := [⟨"CountryId", .integer, false⟩, ⟨"Address_CountryId", .integer, false⟩]
      rows := [[.int 3, .int 2]] }

def restoreCountry : Mutation :=
  .update (.set "Person") ⟨["x"], .new (some "Person") [] [.assign "CountryId"
    (.conditional (.captured "plain" (.bool true)) (.member (.param "x") "CountryId")
      (.member (.member (.param "x") "Country") "Id"))]⟩

/-- The reference is followed even where the captured condition rules it out. -/
theorem capturedBranch_changes :
    Reports people stranger restoreCountry 0 ∧ Reports people stranger restoreCountry.written 1 :=
  ⟨⟨_, _, _, rfl, rfl, rfl⟩, _, _, _, rfl, rfl, rfl⟩

end Planning

end Setwise
