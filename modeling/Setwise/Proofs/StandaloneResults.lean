import Setwise.Proofs.GatheredElements
import Setwise.Proofs.ReplayedRuns

/-!
Lambdas that join nothing.

Where no navigation is remembered from the labels in scope, an expression whose planning has joined nothing has read no
reference at all. It stands for what it returns in every frame (`expr_standalone`), under any parameters and any
incoming row.
-/

set_option autoImplicit false

namespace Setwise

open Client Relational Execution Planning

theorem LeadsOn.static {m : Model} {db : Database} (on : LeadsOn m db) {s t : Shape} {name : String} (found : s.staticMember? m name = some t)
    (env : Environment) (f : Frame) : (s.element m env f).read? m db name = some (t.element m env f) := by
  have leads : ({} : Workspace).Leads m db fun _ => True :=
    ⟨on.owned, nofun, fun _ _ y _ _ => y.within_trivial⟩
  have single : (s.element m env f).LeadsToOne m db name :=
    leads.member (readMember_of_static found (.param "") {}) (Element.within_trivial _)
  refine read?_of_member (staticMember?_reads found single) ?_
  rw [dangles?_of_static found]
  nofun

namespace Planning

section

variable {m : Model} {db : Database} {w w' : Workspace}

theorem follow_still {owner : Entity} {r : EntityView} {n : Navigation} {foreignKey principalKey : List String}
    {required : Bool} {t : Shape} (h : Step.Yields (follow m owner r n foreignKey principalKey required) w t w')
    (still : w'.joins = w.joins) : ∃ entry ∈ w.navigations, entry.1.1 = r.label := by
  obtain ⟨label, -, ⟨found, -⟩ | ⟨-, _, _, -, -, rfl⟩⟩ := follow_yields h
  · exact ⟨_, mem_of_lookup found, rfl⟩
  · simp at still

theorem Replays.longer {α : Type} {x : Step α} {a : α} (h : Replays x w a w') : w.joins <+: w'.joins := by
  obtain ⟨more, joins, -⟩ := h
  exact joins ▸ List.prefix_append _ _

theorem still_between {α : Type} {k l l' : List α} (first : k <+: l) (second : l <+: l') (still : l' = k) :
    l = k ∧ l' = l := by
  subst still
  have same := second.eq_of_length (second.length_le.antisymm first.length_le)
  exact ⟨same, same.symm⟩

theorem shapeOperator_element {s t : Shape} {op : Operator} {whole : Expr} {c : Scalar} {a b : Bool}
    (h : shapeOperator m s op t whole = .ok c) (left : s.isNullAt [] = a) (right : t.isNullAt [] = b) (env : Environment)
    (f : Frame) :
    (Shape.scalar c).element m env f =
      .scalar (Element.comparison m op (s.element m env f) (t.element m env f) a b) := by
  rw [← shapeOperator_comparison h fun _ => ⟨left, right⟩]
  rfl

variable {scope : Scope} {L : List String}

mutual

/-- A planned expression that has joined nothing stands for what it returns. -/
theorem expr_standalone {w w' : Workspace} {t : Shape} (e : Expr) (on : LeadsOn m db) (unread : ∀ entry ∈ w.navigations, entry.1.1 ∉ L)
    (visible : scope.Reads L) (h : Step.Yields (expr m scope e) w t w') (still : w'.joins = w.joins) :
    w' = w ∧ (∀ l ∈ t.labels, l ∈ L) ∧ ∀ (env : Environment) (f : Frame),
      e.result? m db env.parameters (plannedAsNull scope) (Shape.fieldElements m env f scope) = some (t.element m env f) := by
  match e with
  | .param x =>
    obtain ⟨found, rfl⟩ := param_yields.1 h
    refine ⟨rfl, visible _ (mem_of_lookup found), fun env f => ?_⟩
    simp only [Expr.result?, Shape.lookup_fieldElements, found, Option.map_some, Option.getD_some]
  | .constant v | .captured _ v =>
    obtain ⟨rfl, rfl⟩ := Step.yields_pure.1 h
    refine ⟨rfl, nofun, fun env f => ?_⟩
    unfold Expr.result?
    rfl
  | .runtime name =>
    obtain ⟨rfl, rfl⟩ := runtime_yields.1 h
    refine ⟨rfl, nofun, fun env f => ?_⟩
    simp only [Expr.result?, Shape.element, eval, toOption_mapError]
  | .member of name =>
    obtain ⟨s, v, before, run⟩ := member_yields.1 h
    obtain ⟨here, later⟩ := still_between (expr_replays of before).longer (readMember_replays run).longer still
    obtain ⟨rfl, seen, value⟩ := expr_standalone of on unread visible before here
    obtain ⟨found, rfl⟩ | ⟨r, owner, n, foreignKey, principalKey, required, reference, followed⟩ := readMember_yields run
    · refine ⟨rfl, fun l inside => seen l (staticMember?_labels found l inside), fun env f => ?_⟩
      rw [Expr.result?, value env f]
      exact on.static found env f
    · obtain ⟨entry, member, label⟩ := follow_still followed later
      obtain rfl := reference.shape
      -- a reference that is found joined would start from a label of the scope, and none of these has been navigated from
      exact absurd (label ▸ seen _ (List.mem_singleton_self _)) (unread entry member)
  | .binary l op r =>
    obtain ⟨a, v, b, c, first, second, found, rfl⟩ := binary_yields.1 h
    obtain ⟨here, later⟩ := still_between (expr_replays l first).longer (expr_replays r second).longer still
    obtain ⟨rfl, seen, value⟩ := expr_standalone l on unread visible first here
    obtain ⟨rfl, seen', value'⟩ := expr_standalone r on unread visible second later
    refine ⟨rfl, fun k inside => ?_, fun env f => ?_⟩
    · exact (shapeOperator_sources found inside).elim (seen k) (seen' k)
    · rw [Expr.result?, value env f, value' env f]
      exact congrArg some (shapeOperator_element found (expr_isNullAt l first []) (expr_isNullAt r second []) env f).symm
  | .not operand =>
    obtain ⟨c, run, rfl⟩ := not_yields.1 h
    obtain ⟨rfl, seen, value⟩ := expr_standalone operand on unread visible run still
    refine ⟨rfl, seen, fun env f => ?_⟩
    rw [Expr.result?, value env f]
    exact congrArg (fun v => some (Element.scalar v)) (valueOf_not c).symm
  | .conditional test a b =>
    obtain ⟨c, u, d, v, e, tested, run, run', rfl⟩ := conditional_yields.1 h
    -- joins only grow, so where the whole adds none, no operand does
    have middle := (expr_replays b run').longer
    obtain ⟨here, later⟩ := still_between (expr_replays test tested).longer ((expr_replays a run).longer.trans middle) still
    obtain ⟨here', later'⟩ := still_between (expr_replays a run).longer middle later
    obtain ⟨rfl, seen, value⟩ := expr_standalone test on unread visible tested here
    obtain ⟨rfl, seen', value'⟩ := expr_standalone a on unread visible run here'
    obtain ⟨rfl, seen'', value''⟩ := expr_standalone b on unread visible run' later'
    refine ⟨rfl, fun k inside => ?_, fun env f => ?_⟩
    · rcases List.mem_append.1 inside with before | inside
      · exact (List.mem_append.1 before).elim (seen k) (seen' k)
      · exact seen'' k inside
    · rw [Expr.result?, value env f, value' env f, value'' env f]
      exact congrArg (fun v => some (Element.scalar v)) (valueOf_case c d e).symm
  | .new type args bindings =>
    obtain ⟨-, fs, run, rfl⟩ := new_yields.1 h
    obtain ⟨rfl, seen, value⟩ := fieldList_standalone bindings on unread visible run still
    refine ⟨rfl, seen, fun env f => ?_⟩
    rw [Expr.result?, value env f]
    rfl

theorem fieldList_standalone {w w' : Workspace} {whole : Expr} {fs : List (String × Shape)} (bs : List (Binding Expr)) (on : LeadsOn m db)
    (unread : ∀ entry ∈ w.navigations, entry.1.1 ∉ L) (visible : scope.Reads L)
    (h : Step.Yields (fieldList m scope whole bs) w fs w') (still : w'.joins = w.joins) :
    w' = w ∧ (∀ l ∈ Shape.fieldsLabels fs, l ∈ L) ∧ ∀ (env : Environment) (f : Frame),
      fieldResults? m db env.parameters (plannedAsNull scope) (Shape.fieldElements m env f scope) bs =
        some (Shape.fieldElements m env f fs) := by
  match bs with
  | [] =>
    obtain ⟨rfl, rfl⟩ := noFields_yields.1 h
    exact ⟨rfl, nofun, fun env f => rfl⟩
  | .assign member value :: rest =>
    obtain ⟨t, v, others, run, run', rfl⟩ := assign_yields.1 h
    obtain ⟨here, later⟩ := still_between (expr_replays value run).longer (fieldList_replays rest run').longer still
    obtain ⟨rfl, seen, first⟩ := expr_standalone value on unread visible run here
    obtain ⟨rfl, seen', second⟩ := fieldList_standalone rest on unread visible run' later
    refine ⟨rfl, fun k inside => ?_, fun env f => ?_⟩
    · exact (List.mem_append.1 inside).elim (seen k) (seen' k)
    · rw [fieldResults?, fieldResult?, first env f, second env f]
      rfl
  | .items .. :: rest => exact absurd h not_items_yields

end

end

end Planning

end Setwise
