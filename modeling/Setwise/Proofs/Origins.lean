import Setwise.Proofs.RootQueries

/-!
Where the elements of queries on sets come from.

Maps lead from the rows of a set to members of them, to other rows, into records and out of them again. The origin of an
element says where a chain of maps has led (`Query.origin`). A planned query knows the rows of its set by a label that
nothing else gets, and the shape of an element has that label just where its origin is such a row (`query_tells`). A
delete or an update whose elements are anything else is refused, so that it changes the rows of its root set
(`bulk_writes_change_root_rows`). What owned navigations lead to is stored in these rows as well and has their label:
there the elements are parts of the rows and not the rows, yet whole rows are deleted (`ownedPart_deleted`).
-/

set_option autoImplicit false

namespace Setwise

open Client Relational

/-! ## Origins -/

/-- Owned navigations lead from one entity type to another. -/
inductive Model.Part (m : Model) (name : String) : (path : List String) → (type : String) → Prop where
  | whole : m.Part name [] name
  | owned {path : List String} {type member : String} {e : Entity} {n : Navigation} (before : m.Part name path type)
      (known : m.entity? type = some e) (navigation : e.navigation? member = some n) (owned : n.isOwned = true) :
      m.Part name (path ++ [member]) n.target

theorem Model.Part.eq_of_nil {m : Model} {name type : String} {path : List String} (h : m.Part name path type)
    (nil : path = []) : type = name := by
  cases h with
  | whole => rfl
  | owned => simp at nil

namespace Client

inductive Origin where
  /-- It is a row of the set, seen as the entity type that some owned navigations lead to. -/
  | row (type : String) (path : List String)
  | record (fields : List (String × Origin))
  /-- It is a value, or a row that is not one of the set. -/
  | elsewhere

def Origin.member (m : Model) (name : String) : Origin → Origin
  | .row type path =>
    match m.entity? type with
    | none => .elsewhere
    | some e =>
      if (e.property? name).isSome then .elsewhere
      else
        match e.navigation? name with
        | none => .elsewhere
        | some n => if n.isOwned then .row n.target (path ++ [name]) else .elsewhere
  | .record fields => (fields.lookup name).getD .elsewhere
  | .elsewhere => .elsewhere

section

variable (m : Model) (scope : List (String × Origin))

mutual

/-- Where the value of an expression comes from, by the origins of the parameters. -/
def Expr.origin (e : Expr) : Origin :=
  match e with
  | .param name => (scope.lookup name).getD .elsewhere
  | .member of name => of.origin.member m name
  | .new _ _ bindings => .record (bindingOrigins bindings)
  | .constant _ | .captured .. | .runtime _ | .binary .. | .not _ | .conditional .. => .elsewhere

def bindingOrigins (bs : List (Binding Expr)) : List (String × Origin) :=
  match bs with
  | [] => []
  | b :: rest => bindingOrigin b :: bindingOrigins rest

def bindingOrigin (b : Binding Expr) : String × Origin :=
  match b with
  | .assign member value => (member, value.origin)
  | .items member _ => (member, .elsewhere)

end

end

/-- Where the elements of a query come from, seen from the set at its root. -/
def Query.origin (m : Model) : Query → Origin
  | .set name => .row name []
  | .rows _ | .groupBy .. | .union .. => .elsewhere
  | .filter input _ | .orderBy input .. | .take input _ | .skip input _ => input.origin m
  | .map input selector => selector.body.origin m (selector.params.zip [input.origin m])
  | .join outer _ _ _ result => result.body.origin m (result.params.zip [outer.origin m, .elsewhere])

end Client

/-! ## Shapes and origins -/

namespace Planning

/-- The shape of an element shows under the label of the set what the origin of the element is. -/
inductive Tells (m : Model) (name label : String) : Shape → Origin → Prop where
  | row {r : EntityView} {path : List String} (part : m.Part name path r.entity) :
      Tells m name label (.entity r) (.row r.entity path)
  | record {fs : List (String × Shape)} {os : List (String × Origin)}
      (fields : ∀ x s, fs.lookup x = some s → Tells m name label s ((os.lookup x).getD .elsewhere)) :
      Tells m name label (.record fs) (.record os)
  | scalar {e : Scalar} : Tells m name label (.scalar e) .elsewhere
  | other {r : EntityView} (apart : r.label ≠ label) : Tells m name label (.entity r) .elsewhere

structure Apart (label : String) (w : Workspace) : Prop where
  used : label ∈ w.labels
  unreached : ∀ entry ∈ w.navigations, entry.2 ≠ label

variable {m : Model} {name label : String}

theorem follow_apart {w w' : Workspace} {owner : Entity} {r : EntityView} {n : Navigation} {foreignKey principalKey : List String}
    {required : Bool} {t : Shape} (apart : Apart label w)
    (h : Step.Yields (follow m owner r n foreignKey principalKey required) w t w') :
    Apart label w' ∧ ∃ r', t = .entity r' ∧ r'.label ≠ label := by
  obtain ⟨target, rfl, ⟨found, rfl⟩ | ⟨fresh, e, on, -, -, rfl⟩⟩ := follow_yields h
  · exact ⟨apart, _, rfl, apart.unreached _ (mem_of_lookup found)⟩
  · -- the label is new, and that of the set is not
    have new : target ≠ label := fun same => fresh (same ▸ apart.used)
    exact ⟨⟨List.mem_append_left _ apart.used, List.forall_mem_cons.2 ⟨new, apart.unreached⟩⟩, _, rfl, new⟩

theorem readMember_tells {w w' : Workspace} {s t : Shape} {member : String} {whole : Expr} {o : Origin} (apart : Apart label w)
    (tells : Tells m name label s o) (h : Step.Yields (readMember m s member whole) w t w') :
    Apart label w' ∧ Tells m name label t (o.member m member) := by
  obtain ⟨found, rfl⟩ | ⟨r, owner, n, foreignKey, principalKey, required, reference, followed⟩ := readMember_yields h
  · -- a property is a value, and an owned part has the label of its row
    refine ⟨apart, ?_⟩
    cases Shape.StaticMember.of_found found with
    | property known property =>
      cases tells with
      | row part => simpa [Origin.member, known, property] using Tells.scalar
      | other other => exact .scalar
    | @part r e n known missing navigation owned =>
      cases tells with
      | row part =>
        simpa [Origin.member, known, missing, navigation, owned] using
          Tells.row (r := { r with entity := n.target }) (part.owned known navigation owned)
      | other other => exact .other other
    | field found =>
      cases tells with
      | record fields => exact fields member t found
    | key | proposed | proposedPart => cases tells
  · -- a reference leads away from the rows of the set
    obtain ⟨apart', r', rfl, other⟩ := follow_apart apart followed
    refine ⟨apart', ?_⟩
    obtain rfl := reference.shape
    cases tells with
    | other => exact .other other
    | row =>
      have referring : n.isOwned = false := by simp [Navigation.isOwned, reference.kind]
      simpa [Origin.member, reference.entity, reference.noProperty, reference.navigation, referring] using
        Tells.other other

section

variable {scope : Scope} {origins : List (String × Origin)}

mutual

theorem expr_tells {w w' : Workspace} (e : Expr) {s : Shape} (apart : Apart label w)
    (given : ∀ x s, scope.lookup x = some s → Tells m name label s ((origins.lookup x).getD .elsewhere))
    (h : Step.Yields (expr m scope e) w s w') : Apart label w' ∧ Tells m name label s (e.origin m origins) := by
  match e with
  | .param x =>
    obtain ⟨found, rfl⟩ := param_yields.1 h
    exact ⟨apart, given x _ found⟩
  | .constant _ | .captured .. | .runtime _ =>
    obtain ⟨rfl, rfl⟩ := Step.yields_pure.1 h
    exact ⟨apart, .scalar⟩
  | .member of x =>
    obtain ⟨t, v, first, read⟩ := member_yields.1 h
    obtain ⟨apart', tells⟩ := expr_tells of apart given first
    exact readMember_tells apart' tells read
  -- operators read rows and give values
  | .binary l op r =>
    obtain ⟨a, u, b, e, first, second, -, rfl⟩ := binary_yields.1 h
    exact ⟨(expr_tells r (expr_tells l apart given first).1 given second).1, .scalar⟩
  | .not operand =>
    obtain ⟨e, first, rfl⟩ := not_yields.1 h
    exact ⟨(expr_tells operand apart given first).1, .scalar⟩
  | .conditional test a b =>
    obtain ⟨t, u, x, v, y, first, second, third, rfl⟩ := conditional_yields.1 h
    have tested := (expr_tells test apart given first).1
    exact ⟨(expr_tells b (expr_tells a tested given second).1 given third).1, .scalar⟩
  | .new type args bindings =>
    obtain ⟨-, fields, all, rfl⟩ := new_yields.1 h
    obtain ⟨apart', tells⟩ := fieldList_tells bindings apart given all
    exact ⟨apart', .record tells⟩

theorem fieldList_tells {w w' : Workspace} {whole : Expr} {fs : List (String × Shape)} (bs : List (Binding Expr)) (apart : Apart label w)
    (given : ∀ x s, scope.lookup x = some s → Tells m name label s ((origins.lookup x).getD .elsewhere))
    (h : Step.Yields (fieldList m scope whole bs) w fs w') :
    Apart label w' ∧
      ∀ x s, fs.lookup x = some s → Tells m name label s (((bindingOrigins m origins bs).lookup x).getD .elsewhere) := by
  match bs with
  | [] =>
    obtain ⟨rfl, rfl⟩ := noFields_yields.1 h
    exact ⟨apart, fun _ _ found => nomatch found⟩
  | .items .. :: rest => exact absurd h not_items_yields
  | .assign member value :: rest =>
    obtain ⟨t, u, others, first, second, rfl⟩ := assign_yields.1 h
    obtain ⟨apart', here⟩ := expr_tells value apart given first
    obtain ⟨apart'', later⟩ := fieldList_tells rest apart' given second
    refine ⟨apart'', fun x s found => ?_⟩
    rw [bindingOrigins, bindingOrigin, List.lookup_cons]
    rw [List.lookup_cons] at found
    -- the first field of a name is the one that is read
    cases same : x == member with
    | true =>
      rw [same] at found
      obtain rfl := Option.some.inj found
      exact here
    | false =>
      rw [same] at found
      exact later x s found

end

theorem scope_tells {l : Lambda} {s : Shape} {o : Origin} (tells : Tells m name label s o) :
    ∀ x t, (l.params.zip [s]).lookup x = some t → Tells m name label t (((l.params.zip [o]).lookup x).getD .elsewhere) := by
  intro x t found
  cases params : l.params with
  | nil => simp [params] at found
  | cons p rest =>
    simp only [params, List.zip_cons_cons, List.zip_nil_right, List.lookup_cons, List.lookup_nil] at found ⊢
    cases same : x == p with
    | true =>
      rw [same] at found
      obtain rfl := Option.some.inj found
      exact tells
    | false =>
      rw [same] at found
      cases found

end

/-! ## Queries -/

variable {w w' : Workspace}

theorem wrapIf_of_table {subject : Subject} {needed : Bool} {s p : Planned} {table : StoredTable}
    (h : Step.Yields (wrapIf m subject needed s) w p w') (source : p.select.source = .table table) : p = s ∧ w = w' := by
  rcases wrapIf_yields h with ⟨-, wrapped⟩ | ⟨-, same⟩
  · obtain ⟨label, shape, columns, -, -, -, rfl⟩ := wrap_yields wrapped
    cases source
  · exact same

/-- A query with filters and maps alone, planned as a select from a table, is on the set of that table, and the shape
of its elements tells where they come from. -/
theorem query_tells {q : Query} {p : Planned} {table : StoredTable} (start : w.navigations = [])
    (h : Step.Yields (query m q) w p w') (none : p.operators = []) (source : p.select.source = .table table) :
    ∃ name e, q.rootSet? = some name ∧ m.entity? name = some e ∧ e.owned = false ∧
      table = ⟨e.table, e.schema, table.label⟩ ∧ Apart table.label w' ∧
      Tells m name table.label p.shape (q.origin m) := by
  induction q generalizing w w' p with
  | set name =>
    obtain ⟨e, t, known, stored, new, rfl⟩ := set_yields h
    obtain rfl := RowSource.table.inj source
    obtain ⟨-, same, rfl⟩ := newTable_yields new
    have named : e.name = name := name_of_entity? known
    refine ⟨name, e, rfl, known, stored, same, ⟨by simp, by simp [start]⟩, ?_⟩
    rw [named]
    exact .row .whole
  | rows rows =>
    obtain ⟨label, -, rfl⟩ := rows_yields h
    cases source
  | filter input predicate ih =>
    obtain ⟨s, v, t, v', condition, select, first, wrapped, run, rfl⟩ := filter_yields h
    obtain ⟨element, rfl⟩ := against_yields.1 run
    have source : t.select.source = .table table := by
      unfold addFilter at source
      split at source <;> exact source
    -- the filter stands on the select itself, not on a subquery
    obtain ⟨rfl, rfl⟩ := wrapIf_of_table wrapped source
    obtain ⟨name, e, root, known, stored, same, apart, tells⟩ := ih start first none source
    have within : Apart table.label { v with joins := t.select.joins } := ⟨apart.used, apart.unreached⟩
    obtain ⟨apart', -⟩ := expr_tells predicate.body within (scope_tells tells) (scalar_yields.1 element)
    exact ⟨name, e, root, known, stored, same, apart', tells⟩
  | map input selector ih =>
    obtain ⟨s, v, shape, select, first, run, rfl⟩ := map_yields h
    obtain ⟨element, rfl⟩ := against_yields.1 run
    obtain ⟨name, e, root, known, stored, same, apart, tells⟩ := ih start first none source
    have within : Apart table.label { v with joins := s.select.joins } := ⟨apart.used, apart.unreached⟩
    obtain ⟨apart', tells'⟩ := expr_tells selector.body within (scope_tells tells) element
    exact ⟨name, e, root, known, stored, same, apart', tells'⟩
  | join | orderBy | take | skip | groupBy | union =>
    -- these leave a note among the operators
    have plain := query_operators h none _ List.mem_cons_self
    cases plain

theorem rootTable_tells {mutation : Mutation} {q : Query} {s : Planned} {table : StoredTable} {e : Entity}
    (h : Step.Yields (query m q) {} s w) (rooted : rootTable m mutation s = .ok (table, e)) :
    ∃ name root path, q.rootSet? = some name ∧ m.entity? name = some root ∧ root.owned = false ∧
      table = ⟨root.table, root.schema, table.label⟩ ∧ q.origin m = .row e.name path ∧ m.Part name path e.name := by
  obtain ⟨source, shape, -, -⟩ := rootTable_eq_ok rooted
  obtain ⟨name, root, set, known, stored, same, -, tells⟩ := query_tells rfl h (rootTable_operators rooted) source
  rw [shape] at tells
  generalize q.origin m = o at tells ⊢
  cases tells with
  | row part => exact ⟨name, root, _, set, known, stored, same, rfl, part⟩
  | other apart => exact absurd rfl apart

end Planning

/-! ## Deletes and updates -/

/-- The table whose rows a statement deletes or updates. -/
def Relational.Statement.changed? : Statement → Option StoredTable
  | .delete table .. | .update table .. => some table
  | .insertInto .. | .upsert .. | .merge .. | .truncate _ | .noop => none

theorem Relational.Statement.prune_changed? (s : Statement) : s.prune.changed? = s.changed? := by
  cases s <;> rfl

/-- A delete or an update that an honest planner hands out a plan for changes the rows of the set at its root, which has
a table of its own. As it is planned, its elements are these rows or parts of them that owned navigations lead to, and
they are the rows as the entities of the set where no such navigation is taken. -/
theorem bulk_writes_change_root_rows {c : Planner} (honest : c.Honest) {mutation : Mutation} {q : Query}
    (root : mutation.rootQuery? = some q) {plan : Plan} {ps : Parameters}
    (planned : (c.plan mutation).1 = .ok (plan, ps)) :
    ∃ name e, q.rootSet? = some name ∧ c.model.entity? name = some e ∧ e.owned = false ∧
      (∃ statement label, plan.root = .affected statement ∧ statement.changed? = some ⟨e.table, e.schema, label⟩) ∧
      ∃ form folded q' type path, mutation.lift = .ok (form, ps) ∧ form.fold = .ok folded ∧
        folded.rootQuery? = some q' ∧ q'.origin c.model = .row type path ∧ c.model.Part name path type ∧
        (path = [] → type = name) := by
  obtain ⟨form, folded, made, w, lifted, folds, run, rfl⟩ := honest.folded planned
  obtain ⟨q', root', same⟩ := Mutation.rootQuery?_of_skeleton (Mutation.skeleton_of_folded lifted folds) root
  obtain ⟨s, v, table, e, statement, first, rooted, rooting, changes, -⟩ := Planning.rootQuery_planned root' run
  obtain ⟨name, own, path, set, known, stored, own', origin, part⟩ := Planning.rootTable_tells first rooted
  refine ⟨name, own, Query.rootSet?_of_skeleton same ▸ set, known, stored, ⟨statement.prune, table.label, ?_, ?_⟩,
    form, folded, q', e.name, path, lifted, folds, root', origin, part, part.eq_of_nil⟩
  · rw [rooting]
    rfl
  · rw [Statement.prune_changed?, ← own']
    rcases changes with ⟨p, js, rfl⟩ | ⟨set, p, js, rfl⟩ <;> rfl

/-- Deletes those who are born in the first country, once they have been put into a record and taken out again. -/
def deleteNatives : Mutation :=
  .delete (.map (.map (.filter (.set "Person")
      ⟨["x"], .binary (.member (.param "x") "CountryId") .equal (.constant (.int 1))⟩)
      ⟨["x"], .new none [] [.assign "Who" (.param "x"), .assign "Where" (.member (.param "x") "Country")]⟩)
    ⟨["y"], .member (.param "y") "Who"⟩)

/-- What comes out of the records are persons again, and the plan deletes from their table. -/
theorem natives_are_persons :
    ∃ q plan ps statement label, deleteNatives.rootQuery? = some q ∧ q.origin Planning.people = .row "Person" [] ∧
      (Planner.plan { model := Planning.people, capabilities := .inMemory } deleteNatives).1 = .ok (plan, ps) ∧
      plan.root = .affected statement ∧ statement.changed? = some ⟨"Persons", none, label⟩ := by
  obtain ⟨plan, ps, planned⟩ : ∃ plan ps,
      (Planner.plan { model := Planning.people, capabilities := .inMemory } deleteNatives).1 = .ok (plan, ps) :=
    ⟨_, _, rfl⟩
  obtain ⟨name, e, set, known, -, ⟨statement, label, rooting, changes⟩, -⟩ :=
    bulk_writes_change_root_rows (Planner.honest_of_no_plans rfl) rfl planned
  obtain rfl : "Person" = name := Option.some.inj set
  obtain rfl := Option.some.inj known
  exact ⟨_, plan, ps, statement, label, rfl, rfl, planned, rooting, changes⟩

def deleteAddresses : Mutation :=
  .delete (.map (.set "Person") ⟨["x"], .member (.param "x") "Address"⟩)

/-- An address is a part of the row of a person. It is no person, and the person is deleted along with it. -/
theorem ownedPart_deleted :
    let s : Session Database :=
      { planner := { model := Planning.people, capabilities := .inMemory }, store := Planning.emigrant }
    let executed := s.execute deleteAddresses false false
    Model.ofEntities Planning.people.entities = .ok Planning.people ∧
      (∃ q, deleteAddresses.rootQuery? = some q ∧ q.rootSet? = some "Person" ∧
        q.origin Planning.people = .row "Address" ["Address"]) ∧
      (s.store.find? "Persons").map (·.rows.length) = some 1 ∧ executed.1 = .ok 1 ∧
      (executed.2.store.find? "Persons").map (·.rows.length) = some 0 :=
  ⟨rfl, ⟨_, rfl, rfl, rfl⟩, rfl, rfl, rfl⟩

end Setwise
