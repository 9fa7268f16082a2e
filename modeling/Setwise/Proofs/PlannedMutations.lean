import Setwise.Operation
import Setwise.Proofs.Operators
import Setwise.Proofs.PlanKeys
import Setwise.Proofs.Results

/-!
What planning a mutation does, kind by kind.

Each lemma takes a successful run of the planner apart, as the lemmas on queries do. A planner that keeps its
plans hands out no others than it would make again, provided that each was made for the form that it stands
under (`Planner.Honest`), which planning maintains.
-/

set_option autoImplicit false

namespace Setwise.Planning

open Client Relational

/-! ## Targets -/

theorem rootTable_eq_ok {m : Model} {mutation : Mutation} {s : Planned} {table : StoredTable} {e : Entity}
    (h : rootTable m mutation s = .ok (table, e)) :
    s.select.source = .table table ∧ s.shape = .entity ⟨e.name, table.label, []⟩ ∧
      m.entity? e.name = some e ∧ e.table = table.name := by
  unfold rootTable at h
  dsimp only at h
  split at h
  next => exact absurd h (not_fail_eq_ok _ _)
  split at h
  next => exact absurd h (not_fail_eq_ok _ _)
  split at h
  next t source =>
    split at h
    next r shape =>
      split at h
      -- a whole row of the table itself: unrenamed, under the label of the source, of a type that is stored there
      next whole =>
        obtain ⟨type, known, h⟩ := bind_eq_ok.1 h
        split at h
        next own =>
          obtain ⟨rfl, rfl⟩ := Prod.mk.inj (pure_eq_ok.1 h)
          have known := entity_eq_ok.1 (lookUp_eq_ok.1 known)
          obtain ⟨entity, label, renames⟩ := r
          obtain ⟨rfl, rfl⟩ := whole
          have named : type.name = entity := name_of_entity? known
          exact ⟨source, by rw [shape, named], by rw [named]; exact known, own.1⟩
        next => exact absurd h (not_fail_eq_ok _ _)
      next => exact absurd h (not_fail_eq_ok _ _)
    next => exact absurd h (not_fail_eq_ok _ _)
  next => exact absurd h (not_fail_eq_ok _ _)

theorem targetEntity_eq_ok {m : Model} {mutation : Mutation} {name : String} {e : Entity}
    (h : targetEntity m mutation name = .ok e) : m.entity? name = some e ∧ e.owned = false := by
  obtain ⟨type, known, h⟩ := bind_eq_ok.1 h
  split at h
  next =>
    obtain ⟨_, failed, -⟩ := bind_eq_ok.1 h
    exact absurd failed (not_fail_eq_ok _ _)
  next stored =>
    obtain rfl := pure_eq_ok.1 h
    exact ⟨entity_eq_ok.1 (lookUp_eq_ok.1 known), by simpa using stored⟩

section

variable {m : Model} {subject : Subject} {e : Entity} {path : List String} {out list : List Assignment}

theorem assignInto_eq_ok {type : Option String} {args : List Expr} {bindings : List (Binding Expr)}
    (h : assignInto m subject e path (.new type args bindings) out = .ok list) :
    args = [] ∧ (∀ t ∈ type, t = e.name) ∧ assignAll m subject e path bindings out = .ok list := by
  unfold assignInto at h
  split at h
  next => exact absurd h (not_fail_eq_ok _ _)
  next noArgs =>
    split at h
    next => exact absurd h (not_fail_eq_ok _ _)
    next named =>
      refine ⟨by simpa using noArgs, ?_, h⟩
      rintro t rfl
      simpa using named

theorem assignOne_eq_ok {member : String} {value : Expr}
    (h : assignOne m subject e path (.assign member value) out = .ok list) :
    (∃ p, e.property? member = some p ∧ p.column ∉ out.map Assignment.column ∧
      list = out ++ [⟨path ++ [member], p.column, value⟩]) ∨
    ∃ n target, e.property? member = none ∧ e.navigation? member = some n ∧ n.isOwned ∧
      m.entity? n.target = some target ∧ assignInto m subject target (path ++ [member]) value out = .ok list := by
  unfold assignOne at h
  split at h
  next p property =>
    split at h
    next => exact absurd h (not_fail_eq_ok _ _)
    next new =>
      refine .inl ⟨p, property, fun old => new ?_, (Except.ok.inj h).symm⟩
      obtain ⟨a, inside, same⟩ := List.mem_map.1 old
      exact List.any_eq_true.2 ⟨a, inside, beq_iff_eq.2 same⟩
  next missing =>
    split at h
    next n navigation =>
      split at h
      next owned =>
        obtain ⟨target, known, h⟩ := bind_eq_ok.1 h
        exact .inr ⟨n, target, missing, navigation, owned, entity_eq_ok.1 (lookUp_eq_ok.1 known), h⟩
      next => exact absurd h (not_fail_eq_ok _ _)
    next => exact absurd h (not_fail_eq_ok _ _)

end

theorem assigned_eq_ok {m : Model} {mutation : Mutation} {e : Entity} {what : String} {l : Lambda}
    {list : List Assignment} (h : assigned m mutation e what l = .ok list) :
    (∃ args bindings, l.body = .new (some e.name) args bindings) ∧
      assignments m (.mutation mutation) e l.body = .ok list ∧ list ≠ [] := by
  obtain ⟨_, checked, h⟩ := bind_eq_ok.1 h
  obtain ⟨found, here, h⟩ := bind_eq_ok.1 h
  split at h
  next =>
    obtain ⟨_, h, -⟩ := bind_eq_ok.1 h
    exact absurd h (not_fail_eq_ok _ _)
  next some =>
    obtain rfl := pure_eq_ok.1 h
    refine ⟨?_, here, by simpa using some⟩
    unfold checkInstance at checked
    split at checked
    next type args bindings is =>
      split at checked
      next named => exact ⟨args, bindings, named ▸ is⟩
      next => split at checked <;> exact absurd checked (not_fail_eq_ok _ _)
    next => exact absurd checked (not_fail_eq_ok _ _)

/-! ## Kinds of mutations -/

section

variable {m : Model} {capabilities : Capabilities} {w w' : Workspace} {plan : Plan}

theorem delete_yields {q : Query} (h : Step.Yields (mutationPlan m capabilities (.delete q)) w plan w') :
    ∃ s table e, Step.Yields (query m q) w s w' ∧ rootTable m (.delete q) s = .ok (table, e) ∧
      plan = writePlan (.delete table s.select.predicate s.select.joins) [] := by
  simp only [mutationPlan, Step.yields_bind, Step.yields_ofResult, Step.yields_pure] at h
  obtain ⟨s, v, first, ⟨table, e⟩, _, ⟨root, rfl⟩, rfl, rfl⟩ := h
  exact ⟨s, table, e, first, root, rfl⟩

theorem update_yields {q : Query} {set : Lambda}
    (h : Step.Yields (mutationPlan m capabilities (.update q set)) w plan w') :
    ∃ s v table e list fields select, Step.Yields (query m q) w s v ∧
      rootTable m (.update q set) s = .ok (table, e) ∧
      assigned m (.update q set) e "update" set = .ok list ∧
      Step.Yields (against s.select (assignedFields m (set.params.zip [s.shape]) list)) v (fields, select) w' ∧
      plan = writePlan (.update table fields select.predicate select.joins) [] := by
  simp only [mutationPlan, Step.yields_bind, Step.yields_ofResult, Step.yields_pure] at h
  obtain ⟨s, v, first, ⟨table, e⟩, _, ⟨root, rfl⟩, list, _, ⟨assigns, rfl⟩, scope, _, scoping,
    ⟨fields, select⟩, _, run, rfl, rfl⟩ := h
  obtain ⟨rfl, rfl⟩ := scopeOf_yields scoping
  exact ⟨s, v, table, e, list, fields, select, first, root, assigns, run, rfl⟩

theorem insertInto_yields {q : Query} {target : String}
    (h : Step.Yields (mutationPlan m capabilities (.insertInto q target)) w plan w') :
    ∃ input selector e list s v fields select, q = .map input selector ∧
      targetEntity m (.insertInto q target) target = .ok e ∧
      assigned m (.insertInto q target) e "insert" selector = .ok list ∧
      Step.Yields (query m input) w s v ∧
      Step.Yields (against s.select (assignedFields m (selector.params.zip [s.shape]) list)) v
        (fields, select) w' ∧
      plan = writePlan (.insertInto e.table e.schema { select with projection := fields })
        (feeds input .skip) := by
  unfold mutationPlan at h
  cases q with
  | map input selector =>
    simp only [Step.yields_bind, Step.yields_ofResult, Step.yields_pure] at h
    obtain ⟨e, _, ⟨target, rfl⟩, list, _, ⟨assigns, rfl⟩, s, v, first, scope, _, scoping, ⟨fields, select⟩, _,
      run, rfl, rfl⟩ := h
    obtain ⟨rfl, rfl⟩ := scopeOf_yields scoping
    exact ⟨input, selector, e, list, s, v, fields, select, rfl, target, assigns, first, run, rfl⟩
  | _ => exact absurd h (Step.yields_fail _ _)

/-- An update joined to another query plans both sides, the keys of the outer side and those of the inner
one, the assignments, and a condition where there is one. -/
theorem updateJoin_yields {mutation : Mutation} {outer inner : Query} {outerKey innerKey set : Lambda}
    {condition : Option Lambda}
    (h : Step.Yields (updateJoin m mutation outer inner outerKey innerKey set condition) w plan w') :
    let subject := Subject.mutation mutation
    ∃ s v table e i u source shape x l select y r z on list fields select' z',
      Step.Yields (query m outer) w s v ∧ rootTable m mutation s = .ok (table, e) ∧
      Step.Yields (query m inner) v i u ∧ Step.Yields (asSource m subject i) u (source, shape) x ∧
      Step.Yields (against s.select (expr m (outerKey.params.zip [s.shape]) outerKey.body)) x (l, select) y ∧
      Step.Yields (standalone m (innerKey.params.zip [shape]) subject innerKey.body) y r z ∧
      Shape.equality m subject l r = .ok on ∧ assigned m mutation e "update" set = .ok list ∧
      Step.Yields (against { select with joins := select.joins ++ [⟨.inner, source, some on⟩] }
        (assignedFields m (set.params.zip [s.shape, shape]) list)) z (fields, select') z' ∧
      (condition = none ∧ w' = z' ∧
          plan = writePlan (.update table fields select'.predicate select'.joins) (feeds inner .skip) ∨
        ∃ c p select'', condition = some c ∧
          Step.Yields (against select' (scalar m (c.params.zip [s.shape, shape]) c.body)) z' (p, select'') w' ∧
          plan = writePlan (.update table fields (some (Scalar.both select''.predicate p)) select''.joins)
            (feeds inner .skip)) := by
  simp only [updateJoin, Step.yields_bind, Step.yields_ofResult] at h
  obtain ⟨s, v, first, ⟨table, e⟩, _, ⟨root, rfl⟩, i, u, second, ⟨source, shape⟩, x, sourced, scope, _,
    scoping, ⟨l, select⟩, y, run, scope', _, scoping', r, z, alone, on, _, ⟨equality, rfl⟩, list, _,
    ⟨assigns, rfl⟩, scope'', _, scoping'', ⟨fields, select'⟩, z', run', h⟩ := h
  -- binding the parameters of a lambda changes nothing about the workspace
  obtain ⟨rfl, rfl⟩ := scopeOf_yields scoping
  obtain ⟨rfl, rfl⟩ := scopeOf_yields scoping'
  obtain ⟨rfl, rfl⟩ := scopeOf_yields scoping''
  refine ⟨s, v, table, e, i, u, source, shape, x, l, select, y, r, z, on, list, fields, select', z', first,
    root, second, sourced, run, alone, equality, assigns, run', ?_⟩
  cases condition with
  | none =>
    obtain ⟨rfl, rfl⟩ := Step.yields_pure.1 h
    exact .inl ⟨rfl, rfl, rfl⟩
  | some c =>
    simp only [Step.yields_bind, Step.yields_pure] at h
    obtain ⟨scope, _, scoping, ⟨p, select''⟩, _, last, rfl, rfl⟩ := h
    obtain ⟨rfl, rfl⟩ := scopeOf_yields scoping
    exact .inr ⟨c, p, select'', rfl, last, rfl⟩

theorem upsertSource_yields {mutation : Mutation} {list : List Assignment} {insert : Lambda}
    {source : Option Query} {select : Option Select} {fields : List Projection}
    (h : Step.Yields (upsertSource m mutation list insert source) w (select, fields) w') :
    (∃ q s v t, source = some q ∧ select = some t ∧ Step.Yields (query m q) w s v ∧
        Step.Yields (against s.select (assignedFields m (insert.params.zip [s.shape]) list)) v (fields, t) w') ∨
      source = none ∧ select = none ∧
        Step.Yields (standaloneFields m mutation (insert.params.zip []) list) w fields w' := by
  cases source with
  | some q =>
    simp only [upsertSource, Step.yields_bind, Step.yields_pure] at h
    obtain ⟨s, v, first, scope, _, scoping, ⟨fs, t⟩, _, run, same, rfl⟩ := h
    obtain ⟨rfl, rfl⟩ := scopeOf_yields scoping
    obtain ⟨rfl, rfl⟩ := Prod.mk.inj same
    exact .inl ⟨q, s, v, t, rfl, rfl, first, run⟩
  | none =>
    simp only [upsertSource, Step.yields_bind, Step.yields_pure] at h
    obtain ⟨scope, _, scoping, fs, _, run, same, rfl⟩ := h
    obtain ⟨rfl, rfl⟩ := scopeOf_yields scoping
    obtain ⟨rfl, rfl⟩ := Prod.mk.inj same
    exact .inr ⟨rfl, rfl, run⟩

theorem upsert_yields {mutation : Mutation} {target : String} {source : Option Query} {insert : Lambda}
    {update : Option Lambda} (h : Step.Yields (upsert m mutation target source insert update) w plan w') :
    ∃ e table v list key select fields x updated columns,
      targetEntity m mutation target = .ok e ∧ Step.Yields (newTable e) w table v ∧
      assigned m mutation e "insert" insert = .ok list ∧
      usableKey? e (list.filterMap Assignment.directMember?) = some key ∧
      Step.Yields (upsertSource m mutation list insert source) v (select, fields) x ∧
      Step.Yields (conflictFields m mutation e [.entity { entity := e.name, label := table.label },
        .excluded e.name (fields.map Projection.name)] (effectiveUpdate? update)) x updated w' ∧
      keyColumns e key.properties = .ok columns ∧
      plan = writePlan (.upsert table select fields updated key.name columns)
        (source.elim [] fun q => feeds q .skip) := by
  simp only [upsert, Step.yields_bind, Step.yields_ofResult] at h
  obtain ⟨e, _, ⟨known, rfl⟩, table, v, new, list, _, ⟨assigns, rfl⟩, h⟩ := h
  split at h
  next => exact absurd h (Step.yields_fail _ _)
  next key usable =>
    simp only [Step.yields_bind, Step.yields_ofResult, Step.yields_pure] at h
    obtain ⟨⟨select, fields⟩, x, inserted, updated, _, conflict, columns, _, ⟨key', rfl⟩, rfl, rfl⟩ := h
    refine ⟨e, table, v, list, key, select, fields, x, updated, columns, known, new, assigns, usable, inserted,
      conflict, key', ?_⟩
    cases source <;> rfl

variable (m) in
/-- A clause, which may be missing, is planned as the assignments of its lambda, where nothing can be joined. -/
def ClauseYields (mutation : Mutation) (e : Entity) (what : String) (args : List Shape) (clause : Option Lambda)
    (w : Workspace) (fields : Option (List Projection)) (w' : Workspace) : Prop :=
  clause = none ∧ fields = none ∧ w = w' ∨
    ∃ l list fs, clause = some l ∧ fields = some fs ∧ assigned m mutation e what l = .ok list ∧
      Step.Yields (standaloneFields m mutation (l.params.zip args) list) w fs w'

theorem clauseFields_yields {mutation : Mutation} {e : Entity} {what : String} {args : List Shape}
    {clause : Option Lambda} {fields : Option (List Projection)}
    (h : Step.Yields (clauseFields m mutation e what args clause) w fields w') :
    ClauseYields m mutation e what args clause w fields w' := by
  cases clause with
  | none =>
    obtain ⟨rfl, rfl⟩ := Step.yields_pure.1 h
    exact .inl ⟨rfl, rfl, rfl⟩
  | some l =>
    simp only [clauseFields, Step.yields_bind, Step.yields_ofResult, Step.yields_pure] at h
    obtain ⟨list, _, ⟨assigns, rfl⟩, scope, _, scoping, fs, _, run, rfl, rfl⟩ := h
    obtain ⟨rfl, rfl⟩ := scopeOf_yields scoping
    exact .inr ⟨l, list, fs, rfl, rfl, assigns, run⟩

theorem conflictFields_yields {mutation : Mutation} {e : Entity} {args : List Shape}
    {clause : Option Lambda} {fields : Option (List Projection)}
    (h : Step.Yields (conflictFields m mutation e args clause) w fields w') :
    ClauseYields m mutation e "update" args clause w fields w' := by
  cases clause with
  | none =>
    obtain ⟨rfl, rfl⟩ := Step.yields_pure.1 h
    exact .inl ⟨rfl, rfl, rfl⟩
  | some l =>
    simp only [conflictFields, Step.yields_bind, Step.yields_ofResult, Step.yields_pure] at h
    obtain ⟨scope, _, scoping, list, _, ⟨assigns, rfl⟩, fs, _, run, rfl, rfl⟩ := h
    obtain ⟨rfl, rfl⟩ := scopeOf_yields scoping
    exact .inr ⟨l, list, fs, rfl, rfl, assigns, run⟩

theorem merge_yields {mutation : Mutation} {target : String} {source : Query} {targetKey sourceKey : Lambda}
    {update insert : Option Lambda} {delete : Bool}
    (h : Step.Yields
      (merge m capabilities mutation target source targetKey sourceKey update insert delete) w plan w') :
    let subject := Subject.mutation mutation
    ∃ e table v s u rows shape x l y r z on matched z' inserted,
      let targetShape := Shape.entity { entity := e.name, label := table.label }
      targetEntity m mutation target = .ok e ∧ Step.Yields (newTable e) w table v ∧
      Step.Yields (query m source) v s u ∧ Step.Yields (asSource m subject s) u (rows, shape) x ∧
      Step.Yields (standalone m (targetKey.params.zip [targetShape]) subject targetKey.body) x l y ∧
      Step.Yields (standalone m (sourceKey.params.zip [shape]) subject sourceKey.body) y r z ∧
      Shape.equality m subject l r = .ok on ∧
      Step.Yields (clauseFields m mutation e "update" [targetShape, shape] (effectiveUpdate? update)) z
        matched z' ∧
      Step.Yields (clauseFields m mutation e "insert" [shape] insert) z' inserted w' ∧
      plan = writePlan (.merge table rows on matched inserted delete)
        (feeds source (if delete then .truncate table else .skip)) := by
  unfold merge at h
  dsimp only at h
  -- the two guards refuse before anything is planned
  by_cases unsupported : (!capabilities.merge) = true
  · rw [if_pos unsupported] at h
    obtain ⟨_, _, failed, -⟩ := Step.yields_bind.1 h
    exact absurd failed (Step.yields_fail _ _)
  rw [if_neg unsupported] at h
  by_cases empty : ((effectiveUpdate? update).isNone && insert.isNone && !delete) = true
  · rw [if_pos empty] at h
    obtain ⟨_, _, failed, -⟩ := Step.yields_bind.1 h
    exact absurd failed (Step.yields_fail _ _)
  rw [if_neg empty] at h
  simp only [Step.yields_bind, Step.yields_ofResult, Step.yields_pure] at h
  obtain ⟨e, _, ⟨known, rfl⟩, table, v, new, s, u, first, ⟨rows, shape⟩, x, sourced, targetScope, _,
    scoping, l, y, here, sourceScope, _, scoping', r, z, there, on, _, ⟨equality, rfl⟩, matched, z', updated,
    inserted, _, last, rfl, rfl⟩ := h
  obtain ⟨rfl, rfl⟩ := scopeOf_yields scoping
  obtain ⟨rfl, rfl⟩ := scopeOf_yields scoping'
  exact ⟨e, table, v, s, u, rows, shape, x, l, y, r, z, on, matched, z', inserted, known, new, first, sourced,
    here, there, equality, updated, last, rfl⟩

end

end Setwise.Planning

namespace Setwise

open Client Relational

/-! ## Plans of a planner -/

theorem planOf_eq_ok {m : Model} {capabilities : Capabilities} {form : Mutation} {plan : Plan}
    (h : planOf m capabilities form = .ok plan) :
    ∃ folded made w, form.fold = .ok folded ∧
      Planning.Step.Yields (Planning.mutationPlan m capabilities folded) {} made w ∧
      plan = { made with root := made.root.prune } := by
  unfold planOf at h
  split at h
  next => cases h
  next folded folds =>
    obtain ⟨made, planned, h⟩ := bind_eq_ok.1 h
    obtain rfl := pure_eq_ok.1 h
    exact ⟨folded, made, _, folds, Prod.ext planned rfl, rfl⟩

theorem emptyStatement?_eq_some {ps : Parameters} {feeds : List Feed} {s : Statement}
    (h : emptyStatement? ps feeds = .ok (some s)) :
    ∃ feed ∈ feeds, ps.rows feed.parameter = .ok [] ∧ s = feed.whenEmpty.statement := by
  induction feeds with
  | nil => cases h
  | cons feed rest ih =>
    obtain ⟨rows, given, h⟩ := bind_eq_ok.1 h
    split at h
    next empty =>
      obtain rfl := Option.some.inj (pure_eq_ok.1 h)
      exact ⟨feed, List.mem_cons_self, List.isEmpty_iff.1 empty ▸ given, rfl⟩
    next =>
      obtain ⟨feed, member, given, rfl⟩ := ih h
      exact ⟨feed, List.mem_cons_of_mem _ member, given, rfl⟩

theorem Relational.Plan.bind_cases {plan : Plan} {ps : Parameters} {b : Block} (h : plan.bind ps = .ok b) :
    (∃ feed ∈ plan.feeds, ps.rows feed.parameter = .ok [] ∧ b = .affected feed.whenEmpty.statement) ∨
      plan.root.mapLiteralTables (LiteralTable.resolve ps) = .ok b := by
  obtain ⟨empty, found, h⟩ := bind_eq_ok.1 h
  cases empty with
  | some s =>
    obtain ⟨feed, member, given, rfl⟩ := emptyStatement?_eq_some found
    exact .inl ⟨feed, member, given, (pure_eq_ok.1 h).symm⟩
  | none => exact .inr h

namespace Planner

/-- Every plan that is kept under a form is the plan of that form. -/
def Honest (c : Planner) : Prop :=
  ∀ form plan, c.find? form = some plan → planOf c.model c.capabilities form = .ok plan

theorem eq_of_key {c : Planner} {form form' : Mutation} (h : c.key form = c.key form') : form = form' :=
  Mutation.eq_of_text h

theorem lookup_setPlan (key other : String) (plan : Plan) (plans : List (String × Plan)) :
    (setPlan key plan plans).lookup other = if other = key then some plan else plans.lookup other := by
  induction plans with
  | nil => grind [setPlan]
  | cons e rest ih => grind [setPlan]

theorem Honest.keep {c : Planner} (honest : c.Honest) {form : Mutation} {plan : Plan}
    (made : planOf c.model c.capabilities form = .ok plan) : (c.keep form plan).Honest := by
  intro other found h
  unfold Planner.keep at h ⊢
  split at h
  next caching =>
    rw [if_pos caching]
    have kept : (setPlan (c.key form) plan c.plans).lookup (c.key other) = some found := by
      simpa [find?, caching, key] using h
    rw [lookup_setPlan] at kept
    split at kept
    next same =>
      obtain rfl := Option.some.inj kept
      exact eq_of_key same ▸ made
    next => exact honest other found (by simpa [find?, caching] using kept)
  next notCaching =>
    rw [if_neg notCaching]
    exact honest other found h

theorem keep_eq (c : Planner) (form : Mutation) (plan : Plan) : ∃ plans, c.keep form plan = { c with plans } := by
  unfold keep
  split
  next => exact ⟨_, rfl⟩
  next => exact ⟨c.plans, rfl⟩

theorem plan_eq_ok {c : Planner} {m : Mutation} {plan : Plan} {ps : Parameters} (h : (c.plan m).1 = .ok (plan, ps)) :
    ∃ form, m.lift = .ok (form, ps) ∧
      (c.find? form = some plan ∨ planOf c.model c.capabilities form = .ok plan) := by
  unfold Planner.plan at h
  split at h
  next => cases h
  next form params lifted =>
    split at h
    next kept found =>
      obtain ⟨rfl, rfl⟩ := Prod.mk.inj (Except.ok.inj h)
      exact ⟨form, lifted, .inl found⟩
    next =>
      split at h
      next => cases h
      next made planned =>
        obtain ⟨rfl, rfl⟩ := Prod.mk.inj (Except.ok.inj h)
        exact ⟨form, lifted, .inr planned⟩

theorem plan_keeps (c : Planner) (m : Mutation) :
    (c.plan m).2 = c ∨
      ∃ form plan, planOf c.model c.capabilities form = .ok plan ∧ (c.plan m).2 = c.keep form plan := by
  unfold Planner.plan
  split
  next => exact .inl rfl
  next form params lifted =>
    split
    next => exact .inl rfl
    next =>
      split
      next => exact .inl rfl
      next plan made => exact .inr ⟨form, plan, made, rfl⟩

/-- What an honest planner hands out is the plan of the lifted form, whether it has been kept or not, and the
planner stays honest. -/
theorem Honest.plan {c : Planner} (honest : c.Honest) (m : Mutation) :
    (c.plan m).2.Honest ∧
      ∀ plan ps, (c.plan m).1 = .ok (plan, ps) →
        ∃ form, m.lift = .ok (form, ps) ∧ planOf c.model c.capabilities form = .ok plan := by
  constructor
  · rcases c.plan_keeps m with same | ⟨form, plan, made, same⟩ <;> rw [same]
    · exact honest
    · exact honest.keep made
  · intro plan ps planned
    obtain ⟨form, lifted, found | made⟩ := plan_eq_ok planned
    · exact ⟨form, lifted, honest form plan found⟩
    · exact ⟨form, lifted, made⟩

theorem plan_settings (c : Planner) (m : Mutation) : ∃ plans, (c.plan m).2 = { c with plans } := by
  rcases c.plan_keeps m with same | ⟨form, plan, -, same⟩ <;> rw [same]
  · exact ⟨c.plans, rfl⟩
  · exact c.keep_eq form plan

theorem prepare_eq_ok {c : Planner} {m : Mutation} {b : Block} {ps : Parameters} (h : (c.prepare m).1 = .ok (b, ps)) :
    ∃ plan, (c.plan m).1 = .ok (plan, ps) ∧ plan.bind ps = .ok b := by
  obtain ⟨⟨plan, params⟩, planned, h⟩ := bind_eq_ok.1 h
  obtain ⟨block, bound, h⟩ := bind_eq_ok.1 h
  obtain ⟨rfl, rfl⟩ := Prod.mk.inj (pure_eq_ok.1 h)
  exact ⟨plan, mapError_eq_ok.1 planned, mapError_eq_ok.1 bound⟩

theorem honest_of_no_plans {c : Planner} (none : c.plans = []) : c.Honest := by
  intro form plan h
  unfold find? at h
  rw [none] at h
  split at h <;> cases h

end Planner

end Setwise
