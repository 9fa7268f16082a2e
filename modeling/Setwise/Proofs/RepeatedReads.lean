import Setwise.Proofs.ReadElements
import Setwise.Proofs.ReplayedRuns

/-!
References read again behind other joins.

Where the joins under the labels of a select are replaced, and those of stored tables stay (`StandFor`), an expression that
read its references on joins of their own foreign keys does so still (`ReadsAs.behind`).
-/

set_option autoImplicit false

namespace Setwise.Planning

open Client Relational Execution

/-- Under the label of each of these joins there is one of those, and it is the same where it joins a stored table. -/
def StandFor (js ks : List (Join Select)) : Prop :=
  ∀ k ∈ ks, ∃ j ∈ js, j.source.label = k.source.label ∧ ∀ t, j.source = .table t → k = j

section

variable {m : Model} {js ks : List (Join Select)} {w : Workspace}

theorem StandFor.append (h : StandFor js ks) (more : List (Join Select)) : StandFor (js ++ more) (ks ++ more) := by
  intro k member
  rcases List.mem_append.1 member with old | new
  · obtain ⟨j, inside, same⟩ := h k old
    exact ⟨j, List.mem_append_left _ inside, same⟩
  · exact ⟨k, List.mem_append_right _ new, rfl, fun _ _ => rfl⟩

theorem ReusesOwn.behind {s : Shape} {name : String} (own : ReusesOwn m w s name) (stands : StandFor w.joins ks) :
    ReusesOwn m { w with joins := ks } s name := by
  intro r owner n foreignKey principalKey required label reference found k member labelled
  obtain ⟨j, inside, same, table⟩ := stands k member
  have joined := own r owner n foreignKey principalKey required label reference found j inside (same.trans labelled)
  obtain ⟨_, _, _, target, on, -, -, -, shape⟩ := id joined
  rw [table _ (congrArg Join.source shape)]
  exact joined

/-- A run behind other joins is one behind those that they stand for. -/
theorem Replays.stands {α : Type} {x : Step α} {a : α} {v : Workspace} (stands : StandFor w.joins ks)
    (replays : Replays x { w with joins := ks } a v) :
    ∃ u, Step.Yields x w a u ∧ StandFor u.joins v.joins ∧ { u with joins := v.joins } = v := by
  obtain ⟨more, joins, -, -, again⟩ := replays
  exact ⟨_, again w.joins, joins ▸ stands.append more, rfl⟩

variable {nulls : Expr → Bool} {scope : Scope}

mutual

theorem ReadsAs.behind {e : Expr} {w : Workspace} {ks : List (Join Select)} (own : ReadsAs m nulls scope e w) (stands : StandFor w.joins ks) :
    ReadsAs m nulls scope e { w with joins := ks } := by
  match e with
  | .param _ | .constant _ | .captured .. | .runtime _ => exact trivial
  | .member of name =>
    obtain ⟨before, own⟩ := own
    refine ⟨before.behind stands, fun s v run => ?_⟩
    obtain ⟨u, first, stands', same⟩ := (expr_replays of run).stands stands
    rw [← same]
    exact (own s u first).behind stands'
  | .binary l op r =>
    obtain ⟨left, right, null⟩ := own
    refine ⟨left.behind stands, fun s v run => ?_, null⟩
    obtain ⟨u, first, stands', same⟩ := (expr_replays l run).stands stands
    rw [← same]
    exact (right s u first).behind stands'
  | .not operand => exact ReadsAs.behind (e := operand) own stands
  | .conditional test a b =>
    obtain ⟨tested, branches⟩ := own
    refine ⟨tested.behind stands, fun s v run => ?_⟩
    obtain ⟨u, first, stands', same⟩ := (expr_replays test run).stands stands
    obtain ⟨here, there⟩ := branches s u first
    rw [← same]
    refine ⟨here.behind stands', fun t v' run' => ?_⟩
    obtain ⟨u', second, stands'', same'⟩ := (expr_replays a run').stands stands'
    rw [← same']
    exact (there t u' second).behind stands''
  | .new type args bindings =>
    have fields : BindingsReadAs m nulls scope bindings w := own
    exact fields.behind stands

theorem BindingsReadAs.behind {bs : List (Binding Expr)} {w : Workspace} {ks : List (Join Select)}
    (own : BindingsReadAs m nulls scope bs w) (stands : StandFor w.joins ks) : BindingsReadAs m nulls scope bs { w with joins := ks } := by
  match bs with
  | [] => exact trivial
  | .assign member value :: rest =>
    obtain ⟨here, later⟩ := own
    refine ⟨ReadsAs.behind (e := value) here stands, fun whole f v run => ?_⟩
    unfold field at run later
    obtain ⟨t, v', read, made⟩ := Step.yields_bind.1 run
    obtain ⟨rfl, rfl⟩ := Step.yields_pure.1 made
    obtain ⟨u, first, stands', same⟩ := (expr_replays value read).stands stands
    rw [← same]
    exact (later whole _ u (Step.yields_bind.2 ⟨_, _, first, Step.yields_pure.2 ⟨rfl, rfl⟩⟩)).behind stands'
  | .items .. :: rest => exact ⟨trivial, fun _ _ _ run => absurd run (Step.yields_fail _ _)⟩

end

end

end Setwise.Planning
