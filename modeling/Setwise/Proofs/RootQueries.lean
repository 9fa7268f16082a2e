import Setwise.Proofs.Navigation
import Setwise.Proofs.PlannedMutations
import Setwise.Proofs.WrittenForms
import Setwise.Session

/-!
The queries whose rows deletes and updates change.

Such a query is a chain of operators on a set. Planning notes down every operator of the chain but filters and maps, and
nothing that comes after it takes the note away: neither the subqueries that selects are wrapped in nor the selects that
are put in their place (`query_operators`). A bulk write whose query has such a note is refused, so that no session and
no command comes to run it (`rearranged_writes_refused`).
-/

set_option autoImplicit false

namespace Setwise

open Client Relational

/-! ## Chains -/

namespace Client

/-- The query ends in an operator that is neither a filter nor a map. -/
def Query.rearranges : Query → Bool
  | .set _ | .rows _ | .filter .. | .map .. => false
  | .join .. | .orderBy .. | .take .. | .skip .. | .groupBy .. | .union .. => true

/-- A query and the queries that it is made from, one after the other down to the set or collection at the root. A join
goes on with its outer side, a union with its left one. -/
def Query.chain (q : Query) : List Query :=
  q :: match q with
    | .set _ | .rows _ => []
    | .filter input _ | .map input _ | .orderBy input .. | .take input _ | .skip input _ | .groupBy input _ =>
      input.chain
    | .join outer .. => outer.chain
    | .union left _ => left.chain

def Query.rootSet? : Query → Option String
  | .set name => some name
  | .rows _ => none
  | .filter input _ | .map input _ | .orderBy input .. | .take input _ | .skip input _ | .groupBy input _ =>
    input.rootSet?
  | .join outer .. => outer.rootSet?
  | .union left _ => left.rootSet?

/-- The query whose rows a delete or an update changes. -/
def Mutation.rootQuery? : Mutation → Option Query
  | .delete q | .update q _ | .updateJoin q .. => some q
  | .insertInto .. | .upsert .. | .merge .. => none

section

variable {f : Expr → Expr} {g : LocalRows → LocalRows}

theorem Query.rewrite_rearranges (q : Query) : (q.rewrite f g).rearranges = q.rearranges := by
  cases q <;> rfl

theorem Query.rewrite_chain (q : Query) : (q.rewrite f g).chain = q.chain.map (Query.rewrite f g) := by
  induction q <;> simp_all [rewrite, chain]

theorem Query.rewrite_rootSet? (q : Query) : (q.rewrite f g).rootSet? = q.rootSet? := by
  induction q <;> simp_all [rewrite, rootSet?]

theorem Mutation.rewrite_rootQuery? (m : Mutation) : (m.rewrite f g).rootQuery? = m.rootQuery?.map (Query.rewrite f g) := by
  cases m <;> rfl

end

theorem Query.rootSet?_of_skeleton {q q' : Query} (same : q.skeleton = q'.skeleton) : q.rootSet? = q'.rootSet? := by
  have roots := congrArg Query.rootSet? same
  unfold skeleton at roots
  rwa [rewrite_rootSet?, rewrite_rootSet?] at roots

theorem Query.rearranged_of_skeleton {q q' r : Query} (same : q.skeleton = q'.skeleton) (on : r ∈ q.chain)
    (rearranges : r.rearranges = true) : ∃ r' ∈ q'.chain, r'.rearranges = true := by
  have kinds := congrArg (fun q => q.chain.any Query.rearranges) same
  simp only [skeleton, rewrite_chain, List.any_map, Function.comp_def, rewrite_rearranges] at kinds
  rw [← List.any_eq_true, ← kinds]
  exact List.any_eq_true.2 ⟨r, on, rearranges⟩

theorem Mutation.rootQuery?_of_skeleton {mutation mutation' : Mutation} (same : mutation'.skeleton = mutation.skeleton)
    {q : Query} (root : mutation.rootQuery? = some q) :
    ∃ q', mutation'.rootQuery? = some q' ∧ q'.skeleton = q.skeleton := by
  have roots := congrArg Mutation.rootQuery? same
  unfold skeleton at roots
  rw [rewrite_rootQuery?, rewrite_rootQuery?, root] at roots
  obtain ⟨q', root', rewritten⟩ := Option.map_eq_some_iff.1 roots
  exact ⟨q', root', rewritten⟩

theorem Mutation.skeleton_of_folded {mutation form folded : Mutation} {ps : Parameters}
    (lifted : mutation.lift = .ok (form, ps)) (folds : form.fold = .ok folded) :
    folded.skeleton = mutation.skeleton := by
  obtain ⟨s, run, -⟩ := Mutation.lift_eq_ok lifted
  rw [Mutation.fold_skeleton folds, Lifting.mutation_skeleton run]

end Client

/-! ## Planned chains -/

namespace Planning

variable {m : Model} {w w' : Workspace}

theorem wrapIf_operators {subject : Subject} {needed : Bool} {s p : Planned}
    (h : Step.Yields (wrapIf m subject needed s) w p w') : p.operators = s.operators := by
  rcases wrapIf_yields h with ⟨-, wrapped⟩ | ⟨-, rfl, -⟩
  · obtain ⟨label, shape, columns, -, -, -, rfl⟩ := wrap_yields wrapped
    rfl
  · rfl

/-- A query without a note has filters and maps on its chain alone. -/
theorem query_operators {q : Query} {p : Planned} (h : Step.Yields (query m q) w p w') (none : p.operators = []) :
    ∀ r ∈ q.chain, r.rearranges = false := by
  induction q generalizing w w' p with
  | set name => exact List.forall_mem_singleton.2 rfl
  | rows rows => exact List.forall_mem_singleton.2 rfl
  | filter input predicate ih =>
    obtain ⟨s, v, t, v', condition, select, first, wrapped, -, rfl⟩ := filter_yields h
    -- the names of the operators that rearrange are kept through subqueries
    exact List.forall_mem_cons.2 ⟨rfl, ih first (wrapIf_operators wrapped ▸ none)⟩
  | map input selector ih =>
    obtain ⟨s, v, shape, select, first, -, rfl⟩ := map_yields h
    exact List.forall_mem_cons.2 ⟨rfl, ih first none⟩
  | join outer inner outerKey innerKey result =>
    obtain ⟨s, v, t, x, i, y, source, shape, z, l, select, z', r, z'', on, element, select', -, -, -, -, -, -, -, -,
      rfl⟩ := join_yields h
    simp at none
  | orderBy input key descending =>
    obtain ⟨s, v, t, v', k, select, keys, -, -, -, -, rfl⟩ := orderBy_yields h
    simp at none
  | take input count =>
    obtain ⟨s, v, t, v', limit, select, -, -, -, rfl⟩ := take_yields h
    simp at none
  | skip input count =>
    obtain ⟨s, v, t, v', offset, select, -, -, -, rfl⟩ := skip_yields h
    simp at none
  | groupBy input key =>
    obtain ⟨s, v, t, v', k, select, keys, -, -, -, -, rfl⟩ := groupBy_yields h
    simp at none
  | union left right =>
    obtain ⟨l, v, r, x, l', y, r', z, -, -, -, -, united⟩ := union_yields h
    obtain ⟨label, shape, columns, others, -, -, -, -, -, rfl⟩ := unite_yields united
    simp at none

theorem rootTable_operators {mutation : Mutation} {s : Planned} {root : StoredTable × Entity}
    (h : rootTable m mutation s = .ok root) : s.operators = [] := by
  unfold rootTable at h
  dsimp only at h
  split at h
  next => exact absurd h (not_fail_eq_ok _ _)
  next none => exact none

theorem rootQuery_planned {capabilities : Capabilities} {mutation : Mutation} {plan : Plan} {q : Query}
    (root : mutation.rootQuery? = some q) (h : Step.Yields (mutationPlan m capabilities mutation) w plan w') :
    ∃ s v table e statement, Step.Yields (query m q) w s v ∧ rootTable m mutation s = .ok (table, e) ∧
      plan.root = .affected statement ∧
      ((∃ p js, statement = .delete table p js) ∨ ∃ set p js, statement = .update table set p js) ∧
      ∀ feed ∈ plan.feeds, feed.whenEmpty = .skip := by
  have skips (inner : Query) : ∀ feed ∈ feeds inner .skip, feed.whenEmpty = .skip := by
    intro feed member
    obtain ⟨parameter, -, rfl⟩ := List.mem_map.1 member
    rfl
  cases mutation with
  | delete q' =>
    obtain rfl := Option.some.inj root
    obtain ⟨s, table, e, first, rooted, rfl⟩ := delete_yields h
    exact ⟨s, w', table, e, _, first, rooted, rfl, .inl ⟨_, _, rfl⟩, fun _ member => nomatch member⟩
  | update q' set =>
    obtain rfl := Option.some.inj root
    obtain ⟨s, v, table, e, list, fields, select, first, rooted, -, -, rfl⟩ := update_yields h
    exact ⟨s, v, table, e, _, first, rooted, rfl, .inr ⟨_, _, _, rfl⟩, fun _ member => nomatch member⟩
  | updateJoin outer inner outerKey innerKey set condition =>
    -- with a condition or without one, the statement updates the root table of the outer query
    obtain rfl := Option.some.inj root
    obtain ⟨s, v, table, e, i, u, source, shape, x, l, select, y, r, z, on, list, fields, select', z', first, rooted,
      -, -, -, -, -, -, -, last⟩ := updateJoin_yields h
    rcases last with ⟨-, -, rfl⟩ | ⟨c, p, select'', -, -, rfl⟩
    · exact ⟨s, v, table, e, _, first, rooted, rfl, .inr ⟨_, _, _, rfl⟩, skips inner⟩
    · exact ⟨s, v, table, e, _, first, rooted, rfl, .inr ⟨_, _, _, rfl⟩, skips inner⟩
  | insertInto | upsert | merge => cases root

end Planning

/-! ## Bulk writes that are refused -/

theorem Planner.Honest.folded {c : Planner} (honest : c.Honest) {mutation : Mutation} {plan : Plan} {ps : Parameters}
    (planned : (c.plan mutation).1 = .ok (plan, ps)) :
    ∃ form folded made w, mutation.lift = .ok (form, ps) ∧ form.fold = .ok folded ∧
      Planning.Step.Yields (Planning.mutationPlan c.model c.capabilities folded) {} made w ∧
      plan = { made with root := made.root.prune } := by
  obtain ⟨form, lifted, found⟩ := (honest.plan mutation).2 plan ps planned
  obtain ⟨folded, made, w, folds, run, same⟩ := planOf_eq_ok found
  exact ⟨form, folded, made, w, lifted, folds, run, same⟩

theorem prepare_of_plan_error {c : Planner} {mutation : Mutation} {e : Planning.Error}
    (h : (c.plan mutation).1 = .error e) : (c.prepare mutation).1 = .error (.planning e) := by
  unfold Planner.prepare
  simp only [h, Except.mapError, bind, Except.bind]

theorem start_of_plan_error {Store : Type} {s : Session Store} {mutation : Mutation} {e : Planning.Error}
    (h : (s.planner.plan mutation).1 = .error e) (abandonable callerCancelled : Bool) :
    ∃ e planner, s.start mutation abandonable callerCancelled = (.error e, { s with planner }) := by
  unfold Session.start
  split
  · exact ⟨_, s.planner, rfl⟩
  · split
    · exact ⟨_, s.planner, rfl⟩
    · have prepared := prepare_of_plan_error h
      cases result : s.planner.prepare mutation with
      | mk outcome planner =>
        rw [result] at prepared
        obtain rfl : outcome = .error (.planning e) := prepared
        exact ⟨_, planner, rfl⟩

/-- A delete or an update whose query has anything but filters and maps on its chain is not planned. So it starts in no
session, an operation on a database held in memory leaves the database as it is, and it has no command. -/
theorem rearranged_writes_refused {mutation : Mutation} {q r : Query} (root : mutation.rootQuery? = some q)
    (on : r ∈ q.chain) (rearranges : r.rearranges = true) :
    (∀ c : Planner, c.Honest → ∃ e, (c.plan mutation).1 = .error e) ∧
      (∀ (Store : Type) (s : Session Store), s.planner.Honest → ∀ abandonable callerCancelled,
        ∃ e planner, s.start mutation abandonable callerCancelled = (.error e, { s with planner })) ∧
      (∀ s : Session Database, s.planner.Honest → ∀ abandonable callerCancelled,
        ∃ e planner, s.execute mutation abandonable callerCancelled = (.error e, { s with planner })) ∧
      ∀ m d, ∃ e, Sql.Command.ofMutation m d mutation = .error e := by
  have refused (c : Planner) (honest : c.Honest) : ∃ e, (c.plan mutation).1 = .error e := by
    cases planned : (c.plan mutation).1 with
    | error e => exact ⟨e, rfl⟩
    | ok result =>
      obtain ⟨plan, ps⟩ := result
      obtain ⟨form, folded, made, w, lifted, folds, run, -⟩ := honest.folded planned
      obtain ⟨q', root', same⟩ := Mutation.rootQuery?_of_skeleton (Mutation.skeleton_of_folded lifted folds) root
      obtain ⟨s, v, table, e, statement, first, rooted, -⟩ := Planning.rootQuery_planned root' run
      -- the folded query has an operator of the same kind on its chain
      obtain ⟨r', on', rearranges'⟩ := Query.rearranged_of_skeleton same.symm on rearranges
      have plain := Planning.query_operators first (Planning.rootTable_operators rooted) r' on'
      cases rearranges'.symm.trans plain
  have starts {Store : Type} (s : Session Store) (honest : s.planner.Honest) (abandonable callerCancelled : Bool) :
      ∃ e planner, s.start mutation abandonable callerCancelled = (.error e, { s with planner }) := by
    obtain ⟨e, failed⟩ := refused s.planner honest
    exact start_of_plan_error failed abandonable callerCancelled
  refine ⟨refused, fun _ => starts, fun s honest abandonable callerCancelled => ?_, fun m d => ?_⟩
  · obtain ⟨e, planner, failed⟩ := starts s honest abandonable callerCancelled
    refine ⟨e, planner, ?_⟩
    unfold Session.execute
    rw [failed]
  · obtain ⟨e, failed⟩ := refused { model := m, capabilities := d.capabilities, cachePlans := false }
      (Planner.honest_of_no_plans rfl)
    refine ⟨.planning e, ?_⟩
    unfold Sql.Command.ofMutation
    simp only [prepare_of_plan_error failed, bind, Except.bind]

/-- Deletes those of the first persons who are born in the first country, picked out behind the paging. -/
def deleteAmongFirst : Mutation :=
  .delete (.filter (.map (.take (.set "Person") (.constant (.int 1))) ⟨["x"], .param "x"⟩)
    ⟨["x"], .binary (.member (.param "x") "CountryId") .equal (.constant (.int 1))⟩)

/-- The filter stands on a subquery, which does not hide that only some of the persons are meant. -/
theorem amongFirst_refused :
    (∃ q r, deleteAmongFirst.rootQuery? = some q ∧ r ∈ q.chain ∧ r.rearranges = true) ∧
      ∃ e planner, Session.execute
          { planner := { model := Planning.people, capabilities := .inMemory }, store := Planning.emigrant }
          deleteAmongFirst false false =
        (.error e, { planner, store := Planning.emigrant }) := by
  have on : Query.take (.set "Person") (.constant (.int 1)) ∈ Query.chain (.filter (.map (.take (.set "Person")
      (.constant (.int 1))) ⟨["x"], .param "x"⟩)
      ⟨["x"], .binary (.member (.param "x") "CountryId") .equal (.constant (.int 1))⟩) :=
    .tail _ (.tail _ (.head _))
  obtain ⟨-, -, executes, -⟩ := rearranged_writes_refused (show deleteAmongFirst.rootQuery? = some _ from rfl) on rfl
  exact ⟨⟨_, _, rfl, on, rfl⟩, executes _ (Planner.honest_of_no_plans rfl) false false⟩

end Setwise
