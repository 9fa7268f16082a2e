import Setwise.Proofs.FullMerges
import Setwise.Proofs.SoundModels
import Setwise.Proofs.UpsertedRows

/-!
The keys that upserts are matched on.

An upsert names no key. Planning takes the first declared one whose properties the insert assigns itself and the store
does not generate (`FirstUsable`), and its columns are the conflict columns (`Inferred`), which no pruning or binding
changes (`upsert_prepared`). So an update assigns to no stored row but one that equals an incoming row in all columns of
a declared key (`upserts_match_on_first_key`), and rows that conflict with none are stored apart from all
(`conflicts_decide_like_keys`).

A key without properties is usable for every insert, and every row equals every other in none of its columns
(`emptyKey_matches_any`).
-/

set_option autoImplicit false

namespace Setwise

open Client Relational

def Client.Expr.assignedMembers : Expr → List String
  | .new _ _ bindings => bindings.filterMap fun
    | .assign name _ => some name
    | .items .. => none
  | _ => []

theorem Client.Expr.mem_assignedMembers {type : Option String} {args : List Expr} {bindings : List (Binding Expr)}
    {member : String} :
    member ∈ (Expr.new type args bindings).assignedMembers ↔ ∃ value, .assign member value ∈ bindings := by
  unfold assignedMembers
  rw [List.mem_filterMap]
  constructor
  · rintro ⟨b, inside, same⟩
    cases b with
    | assign other value =>
      obtain rfl := Option.some.inj same
      exact ⟨value, inside⟩
    | items => cases same
  · rintro ⟨value, inside⟩
    exact ⟨_, inside, rfl⟩

namespace Planning

open Execution

/-! ## Usable keys -/

section

variable {m : Model} {subject : Subject} {e : Entity} {body : Expr} {list : List Assignment} {key : Key}

/-- An initialiser of an entity can be matched on a key: it assigns all properties of the key, none of which the store
generates. -/
def Usable (e : Entity) (body : Expr) (key : Key) : Prop :=
  ∀ name ∈ key.properties, name ∈ body.assignedMembers ∧ ∃ p, e.property? name = some p ∧ p.generated = false

/-- The first declared key that an initialiser of an entity can be matched on. -/
def FirstUsable (e : Entity) (body : Expr) (key : Key) : Prop :=
  Usable e body key ∧ ∃ before after, e.keys = before ++ key :: after ∧ ∀ earlier ∈ before, ¬ Usable e body earlier

theorem FirstUsable.mem (h : FirstUsable e body key) : key ∈ e.keys := by
  obtain ⟨-, before, after, split, -⟩ := h
  rw [split]
  exact List.mem_append_right _ List.mem_cons_self

theorem assignments_eq_ok (h : assignments m subject e body = .ok list) :
    ∃ type args bindings, body = .new type args bindings ∧ assignAll m subject e [] bindings [] = .ok list := by
  unfold assignments at h
  cases body with
  | new type args bindings => exact ⟨type, args, bindings, rfl, (assignInto_eq_ok h).2.2⟩
  | _ => exact absurd h (not_fail_eq_ok _ _)

theorem Assignment.directMember?_eq_some {a : Assignment} {name : String} :
    a.directMember? = some name ↔ a.path = [name] := by
  unfold directMember?
  split
  next member same => rw [same, Option.some.injEq, List.singleton_inj]
  next other => exact ⟨fun none => (nomatch none), fun same => absurd same (other name)⟩

section

variable (assigns : assignments m subject e body = .ok list)
include assigns

theorem mem_directMembers {name : String} {p : Property} (property : e.property? name = some p) :
    name ∈ list.filterMap Assignment.directMember? ↔ name ∈ body.assignedMembers := by
  obtain ⟨type, args, bindings, rfl, listed⟩ := assignments_eq_ok assigns
  rw [Expr.mem_assignedMembers, List.mem_filterMap]
  constructor
  · rintro ⟨a, member, direct⟩
    rcases direct_of_mem listed member (Assignment.directMember?_eq_some.1 direct) with before | ⟨value, _, inside, -⟩
    · cases before
    · exact ⟨value, inside⟩
  · rintro ⟨value, inside⟩
    exact ⟨_, mem_of_binding listed inside property, rfl⟩

theorem column_assigned {name : String} {p : Property} (property : e.property? name = some p)
    (assigned : name ∈ body.assignedMembers) : p.column ∈ list.map Assignment.column := by
  obtain ⟨type, args, bindings, rfl, listed⟩ := assignments_eq_ok assigns
  obtain ⟨value, inside⟩ := Expr.mem_assignedMembers.1 assigned
  exact List.mem_map_of_mem (mem_of_binding listed inside property)

theorem columns_nodup : (list.map Assignment.column).Nodup :=
  (assignInto_extends body assigns).distinct List.nodup_nil

theorem usable_iff :
    (key.properties.all fun name => (list.filterMap Assignment.directMember?).contains name &&
      match e.property? name with
      | some p => !p.generated
      | none => false) = true ↔ Usable e body key := by
  rw [List.all_eq_true]
  refine forall₂_congr fun name _ => ?_
  cases property : e.property? name with
  | none => simp
  | some p => simp [mem_directMembers assigns property]

theorem usableKey?_eq_some :
    usableKey? e (list.filterMap Assignment.directMember?) = some key ↔ FirstUsable e body key := by
  unfold usableKey?
  rw [List.find?_eq_some_iff_append]
  refine and_congr (usable_iff assigns) (exists₂_congr fun before after => and_congr_right fun _ => ?_)
  refine forall₂_congr fun earlier _ => ?_
  rw [Bool.not_eq_true', Bool.eq_false_iff]
  exact not_congr (usable_iff assigns)

end

theorem keyColumns_eq_ok {names columns : List String} (h : keyColumns e names = .ok columns) :
    List.Forall₂ (fun name column => ∃ p, e.property? name = some p ∧ p.column = column) names columns := by
  induction names generalizing columns with
  | nil =>
    obtain rfl := Except.ok.inj h
    exact .nil
  | cons name rest ih =>
    obtain ⟨p, found, h⟩ := bind_eq_ok.1 h
    obtain ⟨others, later, h⟩ := bind_eq_ok.1 h
    obtain rfl := pure_eq_ok.1 h
    exact .cons ⟨p, property_eq_ok.1 found, rfl⟩ (ih later)

end

/-! ## Planned upserts -/

/-- What planning finds out about the target of an upsert: its table, the key that the insert is matched on and the
columns of the key, which are among those that are inserted, no column twice. -/
structure Inferred (m : Model) (target : String) (body : Expr) (e : Entity) (key : Key) (table : StoredTable)
    (inserted : List Projection) (columns : List String) : Prop where
  known : m.entity? target = some e
  mapped : e.owned = false ∧ table.name = e.table
  first : FirstUsable e body key
  covered : List.Forall₂ (fun name column => ∃ p, e.property? name = some p ∧ p.column = column) key.properties columns
  included : columns ⊆ assignedColumns inserted
  distinct : (assignedColumns inserted).Nodup

theorem upsertSource_names {m : Model} {mutation : Mutation} {list : List Assignment} {insert : Lambda}
    {source : Option Query} {select : Option Select} {inserted : List Projection} {w w' : Workspace}
    (h : Step.Yields (upsertSource m mutation list insert source) w (select, inserted) w') :
    assignedColumns inserted = list.map Assignment.column := by
  rcases upsertSource_yields h with ⟨_, _, _, _, -, -, -, run⟩ | ⟨-, -, run⟩
  · exact assignedFields_names (against_yields.1 run).1
  · exact standaloneFields_names run

theorem upsert_inferred {m : Model} {mutation : Mutation} {target : String} {source : Option Query} {insert : Lambda}
    {update : Option Lambda} {plan : Plan} {w w' : Workspace}
    (h : Step.Yields (upsert m mutation target source insert update) w plan w') :
    ∃ e key table select inserted updated columns, Inferred m target insert.body e key table inserted columns ∧
      plan = writePlan (.upsert table select inserted updated key.name columns)
        (source.elim [] fun q => feeds q .skip) := by
  obtain ⟨e, table, v, list, key, select, inserted, x, updated, columns, targeted, new, assigns, usable, sourced, -,
    covers, rfl⟩ := upsert_yields h
  obtain ⟨known, owned⟩ := targetEntity_eq_ok targeted
  obtain ⟨-, named, -⟩ := newTable_yields new
  obtain ⟨-, assigns, -⟩ := assigned_eq_ok assigns
  have first := (usableKey?_eq_some assigns).1 usable
  have names := upsertSource_names sourced
  have covers := keyColumns_eq_ok covers
  refine ⟨e, key, table, select, inserted, updated, columns, ⟨known, ⟨owned, by rw [named]⟩, first, covers, ?_, ?_⟩, rfl⟩
  · -- each conflict column is that of a property of the key, which the insert assigns itself
    rw [names]
    intro column member
    obtain ⟨name, listed, p, property, rfl⟩ := exists_of_mem_right covers member
    exact column_assigned assigns property (first.1 name listed).1
  · rw [names]
    exact columns_nodup assigns

theorem upsert_folded {target : String} {source : Option Query} {insert : Lambda} {update : Option Lambda}
    {form folded : Mutation} {ps : Parameters} (lifted : (Mutation.upsert target source insert update).lift = .ok (form, ps))
    (folds : form.fold = .ok folded) :
    ∃ source' insert' update', folded = .upsert target source' insert' update' := by
  have same := Mutation.skeleton_of_folded lifted folds
  cases folded with
  | upsert target' source' insert' update' =>
    injection same with named
    exact ⟨source', insert', update', by rw [named]⟩
  | _ => cases same

/-- A planner that hands out plans plans an upsert as one on the columns of the key, where nothing but the source is
still to be bound. -/
theorem upsert_planned {c : Planner} (honest : c.Honest) {target : String} {source : Option Query} {insert : Lambda}
    {update : Option Lambda} {plan : Plan} {ps : Parameters}
    (planned : (c.plan (.upsert target source insert update)).1 = .ok (plan, ps)) :
    ∃ form source' insert' update' e key table select inserted updated columns,
      (Mutation.upsert target source insert update).lift = .ok (form, ps) ∧
      form.fold = .ok (.upsert target source' insert' update') ∧
      Inferred c.model target insert'.body e key table inserted columns ∧
      plan.root = .affected (.upsert table select inserted updated key.name columns) ∧
      ∀ feed ∈ plan.feeds, feed.whenEmpty = .skip := by
  obtain ⟨form, folded, made, w, lifted, folds, run, rfl⟩ := honest.folded planned
  obtain ⟨source', insert', update', rfl⟩ := upsert_folded lifted folds
  obtain ⟨e, key, table, select, inserted, updated, columns, inferred, rfl⟩ := upsert_inferred run
  refine ⟨form, source', insert', update', e, key, table, _, inserted, updated, columns, lifted, folds, inferred, rfl,
    fun feed member => ?_⟩
  cases source' with
  | none => cases member
  | some q =>
    obtain ⟨parameter, -, rfl⟩ := List.mem_map.1 member
    rfl

theorem bind_upsert {plan : Plan} {ps : Parameters} {b : Block} {table : StoredTable} {select : Option Select}
    {inserted : List Projection} {updated : Option (List Projection)} {constraint : String} {columns : List String}
    (root : plan.root = .affected (.upsert table select inserted updated constraint columns))
    (skips : ∀ feed ∈ plan.feeds, feed.whenEmpty = .skip) (bound : plan.bind ps = .ok b) :
    b = .affected .noop ∨ ∃ counted, b = .affected (.upsert table counted inserted updated constraint columns) := by
  rcases Plan.bind_cases bound with ⟨feed, member, -, rfl⟩ | resolved
  · rw [skips feed member]
    exact .inl rfl
  · rw [root] at resolved
    obtain ⟨s, statement, same⟩ := bind_eq_ok.1 resolved
    obtain rfl := pure_eq_ok.1 same
    obtain ⟨counted, -, same⟩ := bind_eq_ok.1 statement
    obtain rfl := pure_eq_ok.1 same
    exact .inr ⟨counted, rfl⟩

/-- What is prepared for an upsert inserts on the columns of the key, or does nothing. -/
theorem upsert_prepared {c : Planner} (honest : c.Honest) {target : String} {source : Option Query} {insert : Lambda}
    {update : Option Lambda} {b : Block} {ps : Parameters}
    (prepared : (c.prepare (.upsert target source insert update)).1 = .ok (b, ps)) :
    ∃ body e key table inserted updated columns, Inferred c.model target body e key table inserted columns ∧
      (b = .affected .noop ∨ ∃ select, b = .affected (.upsert table select inserted updated key.name columns)) := by
  obtain ⟨plan, planned, bound⟩ := Planner.prepare_eq_ok prepared
  obtain ⟨form, source', insert', update', e, key, table, select, inserted, updated, columns, -, -, inferred, root,
    skips⟩ := upsert_planned honest planned
  exact ⟨_, e, key, table, inserted, updated, columns, inferred, bind_upsert root skips bound⟩

theorem upsert_refused {c : Planner} (honest : c.Honest) {target : String} {source source' : Option Query}
    {insert insert' : Lambda} {update update' : Option Lambda} {form : Mutation} {ps : Parameters}
    (lifted : (Mutation.upsert target source insert update).lift = .ok (form, ps))
    (folds : form.fold = .ok (.upsert target source' insert' update')) {e : Entity}
    (known : c.model.entity? target = some e) (unusable : ∀ key ∈ e.keys, ¬ Usable e insert'.body key) :
    ∃ err, (c.plan (.upsert target source insert update)).1 = .error err := by
  cases planned : (c.plan (.upsert target source insert update)).1 with
  | error err => exact ⟨err, rfl⟩
  | ok result =>
    obtain ⟨plan, params⟩ := result
    obtain ⟨form', _, insert'', _, e', key, _, _, _, _, _, lifted', folds', inferred, -⟩ := upsert_planned honest planned
    obtain ⟨rfl, -⟩ := Prod.mk.inj (Except.ok.inj (lifted.symm.trans lifted'))
    obtain ⟨-, -, rfl, -⟩ := Mutation.upsert.inj (Except.ok.inj (folds.symm.trans folds'))
    obtain rfl := Option.some.inj (known.symm.trans inferred.known)
    exact absurd inferred.first.1 (unusable key inferred.first.mem)

end Planning

/-! ## Primary keys -/

namespace Entity

theorem Assembled.others_secondary {e : Entity} (h : e.Assembled) : ∀ key ∈ e.keys.tail, key.primary = false := by
  induction h with
  | mapped | embedded => exact fun _ member => nomatch member
  | schema _ _ ih => exact ih
  | property _ _ ih => exact ih
  | owning _ _ _ ih => exact ih
  | referencing _ _ _ _ _ ih => exact ih
  | primaryKey _ properties => exact fun key member => by simpa using (List.mem_filter.1 member).2
  | @alternateKey e _ properties ih =>
    unfold withAlternateKey
    cases keys : e.keys with
    | nil => exact fun _ member => nomatch member
    | cons first rest =>
      rw [keys] at ih
      exact List.forall_mem_append.2 ⟨ih, List.forall_mem_singleton.2 rfl⟩

end Entity

theorem Planning.FirstUsable.eq_primary {e : Entity} {body : Expr} {key primary : Key} (first : FirstUsable e body key)
    (secondary : ∀ key ∈ e.keys.tail, key.primary = false) (declared : primary ∈ e.keys)
    (isPrimary : primary.primary = true) (usable : Usable e body primary) : key = primary := by
  obtain ⟨-, before, after, split, unusable⟩ := first
  have front : ∃ rest, e.keys = primary :: rest := by
    cases keys : e.keys with
    | nil => rw [keys] at declared; cases declared
    | cons k rest =>
      rw [keys] at declared secondary
      rcases List.mem_cons.1 declared with rfl | later
      · exact ⟨rest, rfl⟩
      · cases isPrimary.symm.trans (secondary primary later)
  obtain ⟨rest, keys⟩ := front
  rw [keys] at split
  cases before with
  | nil => exact (List.cons.inj split).1.symm
  | cons k ks =>
    obtain rfl := (List.cons.inj split).1
    exact absurd usable (unusable primary List.mem_cons_self)

/-! ## Runs of upserts -/

namespace Execution

open Planning

def Incoming (db : Database) (ps : Parameters) (select : Option Select) (inserted : List Projection) (r : Row) : Prop :=
  ∃ rows, incomingRows db { parameters := ps } select inserted = .ok rows ∧ r ∈ rows

/-- An upsert takes its table through insertions of incoming rows and assignments to rows that equal one, or leaves it
alone when it fails. -/
theorem run_upsert_reached {db : Database} {ps : Parameters} {table : StoredTable} {select : Option Select}
    {inserted : List Projection} {updated : Option (List Projection)} {constraint : String} {columns : List String}
    {t : Table} (stored : db.find? table.name = some t) :
    ∃ u, (run db (.affected (.upsert table select inserted updated constraint columns)) ps).2.find? table.name = some u ∧
      ReachedByUpserts (Incoming db ps select inserted) (assignedColumns inserted) columns t u := by
  rw [run_affected]
  rcases runWrite_leaves db (.upsert table select inserted updated constraint columns) ps with
    ⟨e, failed⟩ | ⟨n, none, -⟩ | ⟨n, before, after, target, found, changed, finished⟩
  · rw [failed]
    exact ⟨t, stored, .start⟩
  · cases none
  · rw [finished]
    have named : table.name = after.name := Option.some.inj target
    rw [← named] at found
    obtain rfl := Option.some.inj (stored.symm.trans found)
    rw [named]
    refine ⟨after, db.find?_put_self after, ?_⟩
    obtain ⟨rows, positions, incoming, located, written⟩ := write_upsert_eq_ok.1 (writeChecked_eq_ok.1 changed).1
    exact (upsertAll_reached located fun r member => ⟨rows, incoming, member⟩).of_run .start written

/-- In an accepted model without empty keys, an upsert that is planned compares with stored rows in the columns of the
first declared key whose properties the insert assigns itself and the store does not generate; there is at least one
such column, and all of them are inserted. Where no declared key is like that, the upsert is not planned. An update
only assigns to stored rows that equal an incoming one in these columns. -/
theorem upserts_match_on_first_key {entities : List Entity} {c : Planner}
    (accepted : Model.ofEntities entities = .ok c.model)
    (keyed : ∀ e ∈ entities, ∀ key ∈ e.keys, key.properties ≠ []) (honest : c.Honest) (target : String)
    (source : Option Query) (insert : Lambda) (update : Option Lambda) :
    (∀ plan ps, (c.plan (.upsert target source insert update)).1 = .ok (plan, ps) →
      ∃ form source' insert' update' e key table select inserted updated columns,
        (Mutation.upsert target source insert update).lift = .ok (form, ps) ∧
        form.fold = .ok (.upsert target source' insert' update') ∧
        Inferred c.model target insert'.body e key table inserted columns ∧ columns ≠ [] ∧
        ((∀ f ∈ entities, f.Assembled) →
          ∀ primary ∈ e.keys, primary.primary = true → Usable e insert'.body primary → key = primary) ∧
        plan.root = .affected (.upsert table select inserted updated key.name columns) ∧
        ∀ b, plan.bind ps = .ok b → b = .affected .noop ∨
          ∃ counted, b = .affected (.upsert table counted inserted updated key.name columns) ∧
            ∀ db t, db.find? table.name = some t → ∃ u, (run db b ps).2.find? table.name = some u ∧
              ReachedByUpserts (Incoming db ps counted inserted) (assignedColumns inserted) columns t u) ∧
    ∀ form ps source' insert' update' e, (Mutation.upsert target source insert update).lift = .ok (form, ps) →
      form.fold = .ok (.upsert target source' insert' update') → c.model.entity? target = some e →
      (∀ key ∈ e.keys, ¬ Usable e insert'.body key) →
      ∃ err, (c.plan (.upsert target source insert update)).1 = .error err := by
  refine ⟨fun plan ps planned => ?_, fun form ps source' insert' update' e lifted folds known unusable =>
    upsert_refused honest lifted folds known unusable⟩
  obtain ⟨form, source', insert', update', e, key, table, select, inserted, updated, columns, lifted, folds, inferred,
    root, skips⟩ := upsert_planned honest planned
  -- the keys of the entity are those that were declared for it
  obtain ⟨f, declared, -, -, keys⟩ := Model.exists_unlinked accepted (List.mem_of_find?_eq_some inferred.known)
  refine ⟨form, source', insert', update', e, key, table, select, inserted, updated, columns, lifted, folds, inferred,
    ?_, fun assembled primary member isPrimary usable => ?_, root, fun b bound => ?_⟩
  · rintro rfl
    have none : key.properties = [] := List.forall₂_nil_right_iff.1 inferred.covered
    exact keyed f declared key (keys ▸ inferred.first.mem) none
  · exact inferred.first.eq_primary (keys ▸ (assembled f declared).others_secondary) member isPrimary usable
  · rcases bind_upsert root skips bound with idle | ⟨counted, rfl⟩
    · exact .inl idle
    · exact .inr ⟨counted, rfl, fun db t stored => run_upsert_reached stored⟩

def storeItem (members : List (String × Value)) : Mutation :=
  .upsert "Item" none ⟨[], .new (some "Item") [] (members.map fun (name, v) => .assign name (.constant v))⟩
    (some ⟨["x", "r"], .new (some "Item") [] [.assign "Value" (.constant (.int 7))]⟩)

/-- An item with a number is matched on it, so that item 2 gets the value; an item without one is not planned. -/
theorem storeItem_matches_on_number :
    let c : Planner := { model := itemModel, capabilities := .inMemory }
    (∃ plan ps key columns table counted inserted updated u,
      (c.plan (storeItem [("Id", .int 2), ("Value", .null)])).1 = .ok (plan, ps) ∧ columns ≠ [] ∧
        plan.bind ps = .ok (.affected (.upsert table counted inserted updated key columns)) ∧
        (run twoItems (.affected (.upsert table counted inserted updated key columns)) ps).2.find? "Items" = some u ∧
        u.rows = [[.int 1, .int 10], [.int 2, .int 7]] ∧
        ReachedByUpserts (Incoming twoItems ps counted inserted) (assignedColumns inserted) columns itemsTable u) ∧
      ∃ err, (c.plan (storeItem [("Value", .int 7)])).1 = .error err := by
  have accepted : Model.ofEntities itemModel.entities = .ok itemModel := rfl
  intro c
  have honest : c.Honest := Planner.honest_of_no_plans rfl
  constructor
  · obtain ⟨plan, ps, b, planned, bound, rows⟩ : ∃ plan ps b,
        (c.plan (storeItem [("Id", .int 2), ("Value", .null)])).1 = .ok (plan, ps) ∧ plan.bind ps = .ok b ∧
          ((run twoItems b ps).2.find? "Items").map Table.rows = some [[.int 1, .int 10], [.int 2, .int 7]] :=
      ⟨_, _, _, rfl, rfl, rfl⟩
    obtain ⟨_, _, _, _, e, key, table, _, inserted, updated, columns, -, -, inferred, nonempty, -, -, runs⟩ :=
      (upserts_match_on_first_key accepted (by decide) honest "Item" none _ _).1 plan ps planned
    obtain rfl : itemType = e := Option.some.inj inferred.known
    rcases runs b bound with rfl | ⟨counted, rfl, reaches⟩
    · cases rows
    · have named : table.name = "Items" := inferred.mapped.2
      obtain ⟨u, found, reached⟩ := reaches twoItems itemsTable (named ▸ rfl)
      rw [named] at found
      rw [found] at rows
      exact ⟨plan, ps, key.name, columns, table, counted, inserted, updated, u, planned, nonempty, bound, found,
        Option.some.inj rows, reached⟩
  · refine (upserts_match_on_first_key accepted (by decide) honest "Item" none _ _).2 _ _ none _ _ itemType rfl rfl rfl ?_
    -- without the number no key is assigned
    refine List.forall_mem_singleton.2 fun usable => ?_
    obtain ⟨assigned, -⟩ := usable "Id" (List.mem_singleton_self _)
    exact absurd assigned (by decide)

def emptilyKeyed : Model where
  entities := [{ itemType with keys := [⟨"PK_Items", [], true⟩, ⟨"AK_Items_Id", ["Id"], false⟩] }]

/-- The empty key is usable and has no conflict columns, whence storing item 5 gives the value to item 1. -/
theorem emptyKey_matches_any :
    Model.ofEntities emptilyKeyed.entities = .ok emptilyKeyed ∧
      ∃ b ps after,
        (Planner.prepare { model := emptilyKeyed, capabilities := .inMemory }
          (storeItem [("Id", .int 5), ("Value", .int 7)])).1 = .ok (b, ps) ∧
        run twoItems b ps = (.ok (.affected 1), after) ∧
        (after.find? "Items").map Table.rows = some [[.int 1, .int 7], [.int 2, .null]] :=
  ⟨rfl, _, _, _, rfl, rfl, rfl⟩

/-! ## Conflicts and keys -/

theorem upsert_prepared_inferred {c : Planner} (honest : c.Honest) {target : String} {source : Option Query}
    {insert : Lambda} {update : Option Lambda} {table : StoredTable} {select : Option Select} {inserted : List Projection}
    {updated : Option (List Projection)} {constraint : String} {columns : List String} {ps : Parameters}
    (prepared : (c.prepare (.upsert target source insert update)).1 =
      .ok (.affected (.upsert table select inserted updated constraint columns), ps)) :
    ∃ body e key, Inferred c.model target body e key table inserted columns ∧ key.name = constraint := by
  obtain ⟨body, e, key, table', inserted', updated', columns', inferred, idle | ⟨select', same⟩⟩ :=
    upsert_prepared honest prepared
  · cases idle
  · obtain ⟨rfl, -, rfl, -, named, rfl⟩ := Statement.upsert.inj (Block.affected.inj same)
    exact ⟨body, e, key, inferred, named.symm⟩

/-- An upsert whose update assigns to no conflict column stores a row that conflicts with none apart from all rows there
are, also those that have come in before it; so it is refused for no key with just the conflict columns, one of which
is the key that it has been planned on. -/
theorem conflicts_decide_like_keys {c : Planner} (honest : c.Honest) {target : String} {source : Option Query}
    {insert : Lambda} {update : Option Lambda} {table : StoredTable} {select : Option Select} {inserted : List Projection}
    {updated : Option (List Projection)} {constraint : String} {columns : List String} {ps : Parameters}
    (prepared : (c.prepare (.upsert target source insert update)).1 =
      .ok (.affected (.upsert table select inserted updated constraint columns), ps))
    (spared : ∀ set, updated = some set → ∀ c ∈ columns, c ∉ assignedColumns set)
    {db : Database} (wellFormed : db.WellFormed) {t : Table} (stored : db.find? table.name = some t) :
    (∀ rows positions, incomingRows db { parameters := ps } select inserted = .ok rows →
      conflictPositions t (assignedColumns inserted) columns = .ok positions →
      ∀ before r after n u, rows = before ++ r :: after →
        (upsertAll { parameters := ps } table.label (assignedColumns inserted) updated positions before).run t =
          (.ok n, u) →
        (∀ s ∈ u.rows, conflicts positions s r = false) →
        ∀ v, u.insertUnchecked ((assignedColumns inserted).zip r) = .ok v →
          ∃ row, v.rows = u.rows ++ [row] ∧ ∀ s ∈ u.rows, Table.agreeOn (positions.map Prod.fst) s row = false) ∧
    (∀ e, (run db (.affected (.upsert table select inserted updated constraint columns)) ps).1 = .error (.row e) →
      t.BlamesOtherKeys columns e) ∧
    ∀ e, c.model.entity? target = some e → t.LaidOutAs (c.model.tableOf e) →
      ∃ key ∈ t.keys, key.name = constraint ∧ t.IsKeyOn columns key := by
  obtain ⟨body, e, key, inferred, rfl⟩ := upsert_prepared_inferred honest prepared
  have start := Table.apartOn_self (wellFormed.tables _ _ stored).2 columns
  refine ⟨fun rows positions incoming found before r after n u split written new v done => ?_, fun err failed => ?_,
    fun e' known laid => ?_⟩
  · have test : ConflictTest t (assignedColumns inserted) columns positions := ⟨found, inferred.included, inferred.distinct⟩
    -- the rows in front have been upserted already; the invariant says that they are apart on the conflict columns
    have length := length_of_incomingRows incoming
    rw [split, List.forall_mem_append, List.forall_mem_cons] at length
    obtain ⟨earlier, here, -⟩ := length
    have kept := (upsertAll_apart test spared earlier).of_run start written
    obtain ⟨-, row, stores, rows⟩ := Table.insertUnchecked_stores done
    refine ⟨row, rows, fun s member => ?_⟩
    rw [(test.laid kept.laid).agreeOn_eq_conflicts (kept.fit s member) here stores]
    exact new s member
  · exact (writeChecked_upsert_apart inferred.included inferred.distinct spared).of_failed_run start
      (writeChecked_of_failed_run rfl stored failed) err rfl
  · obtain rfl := Option.some.inj (known.symm.trans inferred.known)
    -- the conflict columns are those of the first key, in some order
    obtain ⟨declared, member, named, positions⟩ := key_of_declared laid inferred.first.mem
    refine ⟨declared, member, named, fun i => (positions i).trans ?_⟩
    constructor
    · rintro ⟨name, listed, p, property, index⟩
      obtain ⟨column, inside, p', property', rfl⟩ := exists_of_mem_right inferred.covered.flip listed
      obtain rfl := Option.some.inj (property.symm.trans property')
      exact ⟨_, inside, index⟩
    · rintro ⟨column, inside, index⟩
      obtain ⟨name, listed, p, property, rfl⟩ := exists_of_mem_right inferred.covered inside
      exact ⟨name, listed, p, property, index⟩

def storeNumbers (numbers : List Value) : Mutation :=
  .upsert "Item" (some (.rows (.records ["Number"] (numberElements numbers))))
    ⟨["r"], .new (some "Item") [] [.assign "Id" (.member (.param "r") "Number")]⟩ none

/-- TRUE is stored as item 1, from which item 2 stands apart on the key of the items. -/
theorem storeNumbers_apart :
    ∃ table select inserted columns ps u v,
      (Planner.prepare { model := itemModel, capabilities := .inMemory } (storeNumbers [.bool true, .int 2])).1 =
          .ok (.affected (.upsert table select inserted none "PK_Items" columns), ps) ∧
        (upsertAll { parameters := ps } table.label (assignedColumns inserted) none [(0, some 0)] [[.bool true]]).run
          largeItems = (.ok 1, u) ∧
        u.insertUnchecked ((assignedColumns inserted).zip [.int 2]) = .ok v ∧
        (∃ row, v.rows = u.rows ++ [row] ∧ ∀ s ∈ u.rows, Table.agreeOn [0] s row = false) ∧
        (∀ e, (run (.ofTables [largeItems]) (.affected (.upsert table select inserted none "PK_Items" columns)) ps).1 =
          .error (.row e) → largeItems.BlamesOtherKeys columns e) ∧
        ∃ key ∈ largeItems.keys, key.name = "PK_Items" ∧ largeItems.IsKeyOn columns key := by
  refine ⟨⟨"Items", none, "i"⟩, _, _, _, _, _, _, rfl, rfl, rfl, ?_⟩
  obtain ⟨apart, spared, planned⟩ := conflicts_decide_like_keys (Planner.honest_of_no_plans rfl)
    (show (Planner.prepare { model := itemModel, capabilities := .inMemory } (storeNumbers [.bool true, .int 2])).1 =
      .ok (.affected (.upsert ⟨"Items", none, "i"⟩ _ _ none "PK_Items" _), _) from rfl) (fun _ none => nomatch none)
    largeItems_wellFormed (t := largeItems) rfl
  exact ⟨apart _ _ rfl rfl [[.bool true]] [.int 2] [] _ _ rfl rfl (by decide) _ rfl, spared,
    planned itemType rfl ⟨_, _, rfl⟩⟩

end Execution

end Setwise
