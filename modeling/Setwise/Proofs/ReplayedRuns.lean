import Setwise.Proofs.Operators

/-!
Planning behind other joins.

Planning an expression looks at the labels in use and at the navigations that are remembered, and adds joins of stored
tables behind those there are. So the run goes through in the same way behind other joins (`expr_replays`), and one that adds no
join goes through against any select (`against_of_standalone`).
-/

set_option autoImplicit false

namespace Setwise.Planning

open Client Relational

/-- The run adds joins of stored tables, or changes nothing, and goes through in the same way behind any other joins. -/
def Replays {α : Type} (x : Step α) (w : Workspace) (a : α) (w' : Workspace) : Prop :=
  ∃ more, w'.joins = w.joins ++ more ∧ (∀ j ∈ more, ∃ t, j.source = .table t) ∧ (more = [] → w' = w) ∧
    ∀ js, Step.Yields x { w with joins := js } a { w' with joins := js ++ more }

section

variable {α β γ : Type} {m : Model} {u v w w' : Workspace} {x : Step α} {a : α}

theorem Replays.of_anywhere (anywhere : ∀ v, Step.Yields x v a v) : Replays x w a w :=
  ⟨[], by simp, by simp, fun _ => rfl, fun js => by simpa using anywhere { w with joins := js }⟩

theorem Replays.alone {z : Step γ} {c : γ} (first : Replays x u a v)
    (then_ : ∀ p q, Step.Yields x p a q → Step.Yields z p c q) : Replays z u c v := by
  obtain ⟨more, joins, tables, still, again⟩ := first
  exact ⟨more, joins, tables, still, fun js => then_ _ _ (again js)⟩

theorem Replays.both {y : Step β} {z : Step γ} {b : β} {c : γ} (first : Replays x u a v) (second : Replays y v b w)
    (then_ : ∀ p q r, Step.Yields x p a q → Step.Yields y q b r → Step.Yields z p c r) : Replays z u c w := by
  obtain ⟨more, joins, tables, still, again⟩ := first
  obtain ⟨more', joins', tables', still', again'⟩ := second
  refine ⟨more ++ more', by rw [joins', joins, List.append_assoc], List.forall_mem_append.2 ⟨tables, tables'⟩, ?_, ?_⟩
  · intro none
    obtain ⟨here, later⟩ := List.append_eq_nil_iff.1 none
    exact (still' later).trans (still here)
  · intro js
    rw [← List.append_assoc]
    exact then_ _ _ _ (again js) (again' (js ++ more))

theorem follow_of_found {m : Model} {owner : Entity} {r : EntityView} {n : Navigation} {label : String}
    {w : Workspace} (found : w.navigations.lookup (r.label, n.name) = some label)
    (foreignKey principalKey : List String) (required : Bool) :
    Step.Yields (follow m owner r n foreignKey principalKey required) w
      (.entity { entity := n.target, label }) w := by
  unfold follow
  refine Step.yields_bind.2 ⟨w, w, Step.yields_get.2 ⟨rfl, rfl⟩, ?_⟩
  rw [found]
  exact Step.yields_pure.2 ⟨rfl, rfl⟩

theorem newTable_behind {e : Entity} {t : StoredTable} (h : Step.Yields (newTable e) w t w') (js : List (Join Select)) :
    Step.Yields (newTable e) { w with joins := js } t { w' with joins := js } := by
  simp only [newTable, newLabel, Step.yields_bind, Step.yields_get, Step.yields_set, Step.yields_pure] at h ⊢
  obtain ⟨_, _, ⟨_, _, ⟨rfl, rfl⟩, _, _, rfl, rfl, rfl⟩, rfl, rfl⟩ := h
  exact ⟨_, _, ⟨_, _, ⟨rfl, rfl⟩, ⟨⟩, _, rfl, rfl, rfl⟩, rfl, rfl⟩

theorem follow_replays {owner : Entity} {r : EntityView} {n : Navigation} {foreignKey principalKey : List String}
    {required : Bool} {t : Shape} (h : Step.Yields (follow m owner r n foreignKey principalKey required) w t w') :
    Replays (follow m owner r n foreignKey principalKey required) w t w' := by
  simp only [follow, Step.yields_bind, Step.yields_get] at h
  obtain ⟨_, _, ⟨rfl, rfl⟩, h⟩ := h
  split at h
  next label found =>
    obtain ⟨rfl, rfl⟩ := Step.yields_pure.1 h
    exact ⟨[], by simp, by simp, fun _ => rfl, fun js => by simpa using follow_of_found (w := { w with joins := js }) found _ _ _⟩
  next missing =>
    simp only [Step.yields_bind, Step.yields_lookUp, Step.yields_ofResult, Step.yields_modify, Step.yields_pure] at h
    obtain ⟨target, _, ⟨known, rfl⟩, table, x, new, on, _, ⟨condition, rfl⟩, _, _, rfl, rfl, rfl⟩ := h
    have joins : x.joins = w.joins := by
      obtain ⟨-, -, rfl⟩ := newTable_yields new
      rfl
    refine ⟨[⟨if required then .inner else .leftOuter, .table table, on⟩], by simp [joins], by simp,
      fun none => absurd none (List.cons_ne_nil _ _), fun js => ?_⟩
    simp only [follow, Step.yields_bind, Step.yields_get]
    refine ⟨_, _, ⟨rfl, rfl⟩, ?_⟩
    dsimp only
    rw [missing]
    simp only [Step.yields_bind, Step.yields_lookUp, Step.yields_ofResult, Step.yields_modify, Step.yields_pure]
    exact ⟨target, _, ⟨known, rfl⟩, table, { x with joins := js }, newTable_behind new js, on, _, ⟨condition, rfl⟩, ⟨⟩, _,
      rfl, rfl, rfl⟩

theorem readMember_replays {s t : Shape} {name : String} {whole : Expr}
    (h : Step.Yields (readMember m s name whole) w t w') : Replays (readMember m s name whole) w t w' := by
  obtain ⟨found, rfl⟩ | ⟨r, owner, n, foreignKey, principalKey, required, reference, run⟩ := readMember_yields h
  · exact .of_anywhere fun v => readMember_of_static found _ _
  · exact (follow_replays run).alone fun _ _ => readMember_of_reference reference

end

section

variable {m : Model} {scope : Scope}

mutual

/-- Planning an expression goes through in the same way behind any other joins. -/
theorem expr_replays {w w' : Workspace} {t : Shape} (e : Expr) (h : Step.Yields (expr m scope e) w t w') :
    Replays (expr m scope e) w t w' := by
  match e with
  | .param x =>
    obtain ⟨found, rfl⟩ := param_yields.1 h
    exact .of_anywhere fun v => param_yields.2 ⟨found, rfl⟩
  | .constant v | .captured _ v | .runtime _ =>
    unfold expr at h ⊢
    obtain ⟨rfl, rfl⟩ := Step.yields_pure.1 h
    exact .of_anywhere fun _ => Step.yields_pure.2 ⟨rfl, rfl⟩
  | .member of name =>
    obtain ⟨s, v, before, run⟩ := member_yields.1 h
    exact (expr_replays of before).both (readMember_replays run) fun _ _ _ first second =>
      member_yields.2 ⟨_, _, first, second⟩
  | .binary l op r =>
    obtain ⟨a, u, b, c, left, right, found, rfl⟩ := binary_yields.1 h
    exact (expr_replays l left).both (expr_replays r right) fun _ _ _ first second =>
      binary_yields.2 ⟨_, _, _, _, first, second, found, rfl⟩
  | .not operand =>
    obtain ⟨c, run, rfl⟩ := not_yields.1 h
    exact (expr_replays operand run).alone fun _ _ first => not_yields.2 ⟨_, first, rfl⟩
  | .conditional test a b =>
    obtain ⟨c, u, d, v, e, tested, run, run', rfl⟩ := conditional_yields.1 h
    -- a pair of results stands for the two branches
    have branches : Replays (expr m scope a >>= fun s => expr m scope b >>= fun t => pure (s, t)) u _ w' :=
      (expr_replays a run).both (expr_replays b run') fun _ _ _ first second =>
        Step.yields_bind.2 ⟨_, _, first, Step.yields_bind.2 ⟨_, _, second, Step.yields_pure.2 ⟨rfl, rfl⟩⟩⟩
    refine (expr_replays test tested).both branches fun _ _ _ first both => ?_
    obtain ⟨_, _, second, both⟩ := Step.yields_bind.1 both
    obtain ⟨_, _, third, both⟩ := Step.yields_bind.1 both
    obtain ⟨same, rfl⟩ := Step.yields_pure.1 both
    obtain ⟨rfl, rfl⟩ := Prod.mk.inj same
    exact conditional_yields.2 ⟨_, _, _, _, _, first, second, third, rfl⟩
  | .new type args bindings =>
    obtain ⟨none, fs, run, rfl⟩ := new_yields.1 h
    exact (fieldList_replays bindings run).alone fun _ _ first => new_yields.2 ⟨none, _, first, rfl⟩

theorem fieldList_replays {whole : Expr} {w w' : Workspace} {fs : List (String × Shape)} (bs : List (Binding Expr))
    (h : Step.Yields (fieldList m scope whole bs) w fs w') : Replays (fieldList m scope whole bs) w fs w' := by
  match bs with
  | [] =>
    obtain ⟨rfl, rfl⟩ := noFields_yields.1 h
    exact .of_anywhere fun _ => noFields_yields.2 ⟨rfl, rfl⟩
  | .assign member value :: rest =>
    obtain ⟨t, v, others, here, later, rfl⟩ := assign_yields.1 h
    exact (expr_replays value here).both (fieldList_replays rest later) fun _ _ _ first second =>
      assign_yields.2 ⟨_, _, _, first, second, rfl⟩
  | .items .. :: rest => exact absurd h not_items_yields

end

end

/-- What is planned on its own goes through in the same way against any select, and changes nothing. -/
theorem against_of_standalone {m : Model} {scope : Scope} {subject : Subject} {e : Expr}
    {w w' : Workspace} {t : Shape} (h : Step.Yields (standalone m scope subject e) w t w') (s : Select) :
    Step.Yields (against s (expr m scope e)) w (t, s) { w with joins := s.joins } ∧
      w' = { w with joins := [] } := by
  obtain ⟨run, empty⟩ := standalone_yields h
  obtain ⟨more, joins, -, still, again⟩ := expr_replays e run
  obtain rfl : more = [] := by simpa [empty] using joins
  obtain rfl := still rfl
  refine ⟨against_yields.2 ⟨by simpa using again s.joins, ?_⟩, rfl⟩
  cases s
  rfl

end Setwise.Planning
