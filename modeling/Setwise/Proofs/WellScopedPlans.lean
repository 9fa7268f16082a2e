import Setwise.Proofs.BoundValues
import Setwise.Proofs.Linking
import Setwise.Proofs.Navigation
import Setwise.Proofs.SafeWrites
import Setwise.Proofs.VisibleMutations

/-!
Plans are well scoped.

A mutation of a well-declared model is planned as a well-scoped statement (`mutation_wellScoped`), whose runtime
parameters are those that lifting has given values (`scalars_held`, `collections_held`). Pruning and binding keep it
well scoped, so it runs without an error about a table, column, parameter or row that is not there
(`plans_stay_in_scope`).
-/

set_option autoImplicit false

namespace Setwise.Execution

open Client Model Planning Relational

/-- What the statements of a model run on: its tables, and the parameters of one execution. -/
def interfaceOf (m : Model) (ps : Parameters) : Interface where
  tables := storedColumns m
  scalars name := ∃ v, ps.scalar name = .ok v
  literals := LiteralTable.Holds ps

/-- A database has the tables of a model, with the columns that they are declared with. -/
def Stores (db : Database) (m : Model) : Prop :=
  ∀ t ∈ m.database.tables, ∃ u, db.find? t.name = some u ∧ u.columnNames = t.columnNames

theorem provides_interfaceOf {db : Database} (wellFormed : db.WellFormed) {m : Model} (stores : Stores db m)
    (ps : Parameters) : Provides db ps (interfaceOf m ps) where
  tables name columns stored := by
    obtain ⟨t, declared, rfl⟩ := Option.map_eq_some_iff.1 stored
    obtain rfl := Database.name_of_find? declared
    obtain ⟨u, found, same⟩ := stores t (Database.mem_of_find? declared)
    refine ⟨u, found, same, fun r member => ?_⟩
    rw [← same, Table.columnNames, List.length_map]
    exact ((wellFormed.tables _ u found).2.rowsFit r member).length_eq.symm
  scalars _ held := held
  literals _ held := held

theorem planOf_wellScoped {entities : List Entity} {m : Model} (declared : WellDeclared entities m)
    {capabilities : Capabilities} {mutation form : Mutation} {ps : Parameters} {plan : Plan}
    (free : mutation.RuntimeFree) (lifted : mutation.lift = .ok (form, ps))
    (planned : planOf m capabilities form = .ok plan) :
    Plan.WellScoped ((interfaceOf m ps).binding (LiteralTable.Awaits ps)) plan := by
  obtain ⟨folded, raw, w, folds, run, rfl⟩ := planOf_eq_ok planned
  have literals : ∀ c ∈ folded.collections, ∀ label, LiteralTable.Awaits ps ⟨label, c.fields, cells c⟩ := by
    intro c member label
    obtain ⟨name, fields, rows, rfl, held, wide⟩ := collections_held free lifted folds c member
    exact ⟨name, rows, rfl, held, wide⟩
  have wellScoped := mutation_wellScoped (declared.tabled _ (LiteralTable.Awaits ps)) (w := {}) nofun
    (scalars_held free lifted folds) literals run
  exact ⟨wellScoped.root.prune, wellScoped.feeds⟩

/-- A plan of a mutation without runtime parameters of its own, for a well-declared model, can be bound to the lifted
values. Every expression of the bound block then reads what is visible where it is evaluated, and on a well-formed
database with the tables of the model the block fails with no error about a table, column, parameter or row that is
not there. -/
theorem plans_stay_in_scope {entities : List Entity} {c : Planner} (declared : WellDeclared entities c.model)
    (honest : c.Honest) {m : Mutation} (free : m.RuntimeFree) {plan : Plan} {ps : Parameters}
    (planned : (c.plan m).1 = .ok (plan, ps)) :
    ∃ b, plan.bind ps = .ok b ∧ Block.WellScoped (interfaceOf c.model ps) b ∧
      ∀ db : Database, db.WellFormed → Stores db c.model →
        ∀ e, (run db b ps).1 = .error e → e.isOutOfScope = false := by
  obtain ⟨form, lifted, made⟩ := (honest.plan m).2 plan ps planned
  obtain ⟨b, bound, wellScoped⟩ := (planOf_wellScoped declared free lifted made).bind
  refine ⟨b, bound, wellScoped, fun db wellFormed stores e failed => ?_⟩
  have safe := run_safe (provides_interfaceOf wellFormed stores ps) wellScoped
  rw [failed] at safe
  exact safe

/-! ## An owner, an owned type and what both refer to -/

def declaredPeople : List Entity :=
  people.entities.map fun e => if e.owned then { e with table := "" } else e

def disownEmigrants : Mutation :=
  .update (.filter (.set "Person") ⟨["x"], .binary residence .equal (.captured "name" (.text "second"))⟩)
    ⟨["x"], .new (some "Person") [] [.assign "CountryId" (.captured "country" .null)]⟩

theorem disownEmigrants_runtimeFree : disownEmigrants.RuntimeFree where
  expressions e member name inside := by
    simp only [disownEmigrants, Mutation.expressions, Query.expressions, List.nil_append, List.cons_append,
      List.mem_cons, List.not_mem_nil, or_false] at member
    rcases member with rfl | rfl <;> simp [Expr.parts, residence, bindingsParts, bindingParts] at inside
  collections := nofun

theorem people_wellDeclared : WellDeclared declaredPeople people where
  embedded e member owned tabled := by
    have bare : ∀ e ∈ declaredPeople, e.owned = true → e.table = "" := by decide
    exact absurd (bare e member owned) tabled
  mapped := by decide
  accepted := rfl
  distinct := by decide
  acyclic name cycle := by
    have all : ∀ e ∈ declaredPeople, ∀ n ∈ e.navigations, n.isOwned = true →
        e.name = "Person" ∧ n.target = "Address" := by decide
    have owns {a b : String} (h : Owns declaredPeople a b) : a = "Person" ∧ b = "Address" := by
      obtain ⟨e, member, rfl, n, navigation, owned, rfl⟩ := h
      exact all e member n navigation owned
    -- ownership starts at the person and ends at the address
    obtain ⟨_, first, -⟩ := Relation.TransGen.head'_iff.1 cycle
    obtain ⟨_, -, last⟩ := Relation.TransGen.tail'_iff.1 cycle
    exact absurd ((owns first).1.symm.trans (owns last).2) (by decide)
  linked := by decide
  targets := by
    have all : ∀ e ∈ people.entities, ∀ n ∈ e.navigations, n.isOwned = false → n.target = "Country" := by decide
    rintro _ _ _ ⟨e, member, n, navigation, reference, -, rfl⟩ ⟨e', member', n', navigation', reference', -, rfl⟩
    rw [all e member n navigation reference, all e' member' n' navigation' reference']

theorem emigrant_wellFormed : emigrant.WellFormed := by
  refine Database.wellFormed_of_tables fun t member => ⟨fun r stored => ?_, Table.keysUnique_of_checkUnique ?_⟩
  · have typed : ∀ t ∈ emigrant.tables, ∀ r ∈ t.rows,
        List.Forall₂ (fun c v => v ≠ .null ∧ v.type? = some c.type) t.columns r := by decide
    exact (typed t member r stored).imp fun c v ⟨present, type⟩ => by rwa [Column.Holds, if_neg present]
  · revert t
    decide

theorem emigrant_stores : Stores emigrant people := by
  have all : ∀ t ∈ people.database.tables,
      (emigrant.find? t.name).map Table.columnNames = some t.columnNames := by decide
  exact fun t member => Option.map_eq_some_iff.1 (all t member)

/-- Nobody can be without a country of birth, so the update fails, but not for anything that is not there. -/
theorem disownment_refused :
    ∃ plan ps b e,
      (Planner.plan { model := people, capabilities := .inMemory } disownEmigrants).1 = .ok (plan, ps) ∧
        plan.bind ps = .ok b ∧ Block.WellScoped (interfaceOf people ps) b ∧
        (run emigrant b ps).1 = .error e ∧ e.isOutOfScope = false := by
  obtain ⟨plan, ps, b, e, planned, bound, failed⟩ :
      ∃ plan ps b e,
        (Planner.plan { model := people, capabilities := .inMemory } disownEmigrants).1 = .ok (plan, ps) ∧
          plan.bind ps = .ok b ∧ (run emigrant b ps).1 = .error e :=
    ⟨_, _, _, .row (.invalidRow "Persons" (.nullNotAllowed "CountryId")), rfl, rfl, rfl⟩
  obtain ⟨b', bound', wellScoped, safe⟩ :=
    plans_stay_in_scope people_wellDeclared (Planner.honest_of_no_plans rfl) disownEmigrants_runtimeFree planned
  obtain rfl := Except.ok.inj (bound.symm.trans bound')
  exact ⟨plan, ps, b, e, planned, bound, wellScoped, failed,
    safe emigrant emigrant_wellFormed emigrant_stores e failed⟩

/-! ## An owned type with a table of its own -/

/-- An owned type is declared with a table, and nothing owns it. -/
def heirs : Model where
  entities := [
    { name := "Estate"
      table := "Estates"
      owned := true
      properties := [⟨"Id", "Id", .integer, false, false⟩] },
    { name := "Heir"
      table := "Heirs"
      properties := [⟨"EstateId", "EstateId", .integer, false, false⟩]
      navigations := [⟨"Estate", "Estate", .reference ["EstateId"] ["Id"] true⟩] }]

def disinherit : Mutation :=
  .delete (.filter (.set "Heir")
    ⟨["x"], .binary (.member (.member (.param "x") "Estate") "Id") .equal (.captured "id" (.int 1))⟩)

theorem disinherit_runtimeFree : disinherit.RuntimeFree where
  expressions e member name inside := by
    obtain rfl : e = .binary (.member (.member (.param "x") "Estate") "Id") .equal (.captured "id" (.int 1)) := by
      simpa [disinherit, Mutation.expressions, Query.expressions] using member
    simp [Expr.parts] at inside
  collections := nofun

theorem heirs_equipped : Equipped heirs.entities heirs where
  mapped := by decide
  accepted := rfl
  distinct := by decide
  acyclic name cycle := by
    have none : ∀ e ∈ heirs.entities, ∀ n ∈ e.navigations, n.isOwned = false := by decide
    obtain ⟨_, ⟨e, member, -, n, navigation, owned, -⟩, -⟩ := Relation.TransGen.head'_iff.1 cycle
    exact absurd owned (by simp [none e member n navigation])
  linked := by decide
  targets := by
    have all : ∀ e ∈ heirs.entities, ∀ n ∈ e.navigations, n.isOwned = false → n.target = "Estate" := by decide
    rintro _ _ _ ⟨e, member, n, navigation, reference, -, rfl⟩ ⟨e', member', n', navigation', reference', -, rfl⟩
    rw [all e member n navigation reference, all e' member' n' navigation' reference']

def claimant : Database :=
  Database.ofTables [{ name := "Heirs", columns := [⟨"EstateId", .integer, false⟩], rows := [[.int 1]] }]

/-- It is not enough that all types end up with a table: one that is not the table of an owner is not stored. -/
theorem estates_not_stored :
    Equipped heirs.entities heirs ∧ disinherit.RuntimeFree ∧ claimant.WellFormed ∧ Stores claimant heirs ∧
      ∃ plan ps b,
        (Planner.plan { model := heirs, capabilities := .inMemory } disinherit).1 = .ok (plan, ps) ∧
          plan.bind ps = .ok b ∧ (run claimant b ps).1 = .error (.table (.unknownTable "Estates")) := by
  have wellFormed : claimant.WellFormed := by
    refine Database.wellFormed_of_tables fun t member => ?_
    obtain rfl : t = _ := List.mem_singleton.1 member
    refine ⟨fun r stored => ?_, nofun⟩
    obtain rfl := List.mem_singleton.1 stored
    exact .cons rfl .nil
  have stores : ∀ t ∈ heirs.database.tables,
      (claimant.find? t.name).map Table.columnNames = some t.columnNames := by decide
  exact ⟨heirs_equipped, disinherit_runtimeFree, wellFormed,
    fun t member => Option.map_eq_some_iff.1 (stores t member), _, _, _, rfl, rfl, rfl⟩

end Setwise.Execution
