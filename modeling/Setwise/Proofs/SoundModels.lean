import Setwise.Proofs.KeptRows
import Setwise.Proofs.Linking

/-!
Models whose references are sound.

Entity types that are put together step by step call a reference required only where its foreign key is not nullable
(`Assembled.required`), and a model is accepted only if foreign keys have properties (`soundReferences`). The rows of a
well-formed database with the tables of a well-declared model have values in all columns that are not nullable
(`valuesPresent`).
-/

set_option autoImplicit false

namespace Setwise

open Model Relation Planning Execution

/-! ## Entity types put together step by step -/

namespace Entity

/-- Entity types that come from an empty one by declaring one thing after the other. -/
inductive Assembled : Entity → Prop where
  | mapped (name table : String) : Assembled (.mapped name table)
  | embedded (name : String) : Assembled (.embedded name)
  | schema {e : Entity} (h : Assembled e) (schema : String) : Assembled (e.withSchema schema)
  | property {e : Entity} (h : Assembled e) (p : Property) : Assembled (e.withProperty p)
  | primaryKey {e : Entity} (h : Assembled e) (properties : List String) : Assembled (e.withPrimaryKey properties)
  | alternateKey {e : Entity} (h : Assembled e) (properties : List String) : Assembled (e.withAlternateKey properties)
  | owning {e : Entity} (h : Assembled e) (name target : String) : Assembled (e.owning name target)
  | referencing {e : Entity} (h : Assembled e) (name target : String) (foreignKey principalKey : List String) :
      Assembled (e.referencing name target foreignKey principalKey)

def RequiresPresent (e : Entity) (n : Navigation) : Prop :=
  ∀ foreignKey principalKey, n.kind = .reference foreignKey principalKey true →
    ∀ k ∈ foreignKey, ∃ p, e.property? k = some p ∧ p.nullable = false

theorem property?_withProperty {e : Entity} {name : String} {p : Property} (h : e.property? name = some p)
    (q : Property) : (e.withProperty q).property? name = some p := by
  unfold property? withProperty at *
  rw [List.find?_append, h, Option.some_or]

theorem Assembled.required {e : Entity} (h : e.Assembled) : ∀ n ∈ e.navigations, e.RequiresPresent n := by
  induction h with
  | mapped name table => exact fun _ member => nomatch member
  | embedded name => exact fun _ member => nomatch member
  | schema _ _ ih => exact ih
  | property _ q ih =>
    intro n member foreignKey principalKey kind k inside
    obtain ⟨p, found, present⟩ := ih n member foreignKey principalKey kind k inside
    exact ⟨p, property?_withProperty found q, present⟩
  | primaryKey _ _ ih => exact ih
  | alternateKey _ _ ih => exact ih
  | owning _ name target ih =>
    refine List.forall_mem_append.2 ⟨ih, List.forall_mem_singleton.2 fun _ _ kind => ?_⟩
    cases kind
  | @referencing e _ name target foreignKey principalKey ih =>
    refine List.forall_mem_append.2 ⟨ih, List.forall_mem_singleton.2 fun _ _ kind k inside => ?_⟩
    obtain ⟨rfl, -, all⟩ := NavigationKind.reference.inj kind
    -- the reference has looked at the properties declared before it
    have here := List.all_eq_true.1 all k inside
    cases found : e.property? k with
    | none =>
      rw [found] at here
      cases here
    | some p =>
      rw [found] at here
      exact ⟨p, found, by simpa using here⟩

end Entity

namespace Model

/-! ## Accepted models -/

theorem exists_unlinked {entities : List Entity} {m : Model} (accepted : ofEntities entities = .ok m) {e : Entity}
    (member : e ∈ m.entities) :
    ∃ f ∈ entities, f.properties = e.properties ∧ f.navigations = e.navigations ∧ f.keys = e.keys := by
  have same : m.entities.map unlinked = entities.map unlinked := (names_nodup accepted).1 ▸ link_same entities
  have inside : unlinked e ∈ entities.map unlinked := same ▸ List.mem_map_of_mem member
  obtain ⟨f, member', alike⟩ := List.mem_map.1 inside
  have properties : f.properties = e.properties := by simpa [unlinked] using congrArg Entity.properties alike
  have navigations : f.navigations = e.navigations := by simpa [unlinked] using congrArg Entity.navigations alike
  have keys : f.keys = e.keys := by simpa [unlinked] using congrArg Entity.keys alike
  exact ⟨f, member', properties, navigations, keys⟩

theorem of_forM_eq_ok {ε α : Type} {f : α → Except ε Unit} {l : List α} (h : l.forM f = .ok ()) :
    ∀ a ∈ l, f a = .ok () := by
  induction l with
  | nil => exact fun _ member => nomatch member
  | cons a rest ih =>
    obtain ⟨_, here, later⟩ := bind_eq_ok.1 h
    exact List.forall_mem_cons.2 ⟨here, ih later⟩

theorem length_of_keyPairs? {owner target : Entity} {keys pairs : List (String × String)}
    (h : keyPairs? owner target keys = some pairs) : pairs.length = keys.length := by
  induction keys generalizing pairs with
  | nil =>
    obtain rfl := Option.some.inj h
    rfl
  | cons key rest ih =>
    obtain ⟨foreign, principal⟩ := key
    simp only [keyPairs?, Option.bind_eq_bind, Option.bind_eq_some_iff, Option.pure_def, Option.some.injEq] at h
    obtain ⟨_, -, _, -, others, found, rfl⟩ := h
    rw [List.length_cons, List.length_cons, ih found]

/-- The references of an accepted model are sound, if its entity types have been put together step by step and
the references of one name that are read from one table have one target. -/
theorem soundReferences {entities : List Entity} {m : Model} (accepted : ofEntities entities = .ok m)
    (assembled : ∀ e ∈ entities, e.Assembled) (targets : m.TargetsAgree) :
    m.SoundReferences where
  keyed name required pairs table := by
    rintro ⟨owner, n, foreignKey, principalKey, target, known, navigation, kind, targetKnown, -, keys⟩ rfl
    -- accepting the entities has checked every navigation: its keys are nonempty and pair up
    have checked : m.entities.forM (checkEntity m) = .ok () := by
      unfold ofEntities at accepted
      split at accepted
      next => cases accepted
      next =>
        obtain ⟨_, checked, same⟩ := bind_eq_ok.1 accepted
        obtain rfl := pure_eq_ok.1 same
        exact checked
    obtain ⟨_, -, here⟩ := bind_eq_ok.1 (of_forM_eq_ok checked owner (List.mem_of_find?_eq_some known))
    have here := of_forM_eq_ok here n navigation
    unfold checkNavigation at here
    rw [targetKnown, kind] at here
    dsimp only at here
    split at here
    next => cases here
    next fits =>
      have none := length_of_keyPairs? keys
      rw [List.length_zip, List.length_nil] at none
      have some := List.length_pos_iff.2 fun empty => fits (.inr empty)
      have same : foreignKey.length = principalKey.length := by
        by_contra different
        exact fits (.inl different)
      omega
  required e member n navigation foreignKey principalKey kind k inside p property := by
    obtain ⟨f, declared, properties, navigations, -⟩ := exists_unlinked accepted member
    obtain ⟨q, found, present⟩ :=
      (assembled f declared).required n (navigations ▸ navigation) foreignKey principalKey kind k inside
    -- linking changes tables and schemas only, so what was declared of the properties still holds
    have same : f.property? k = e.property? k := by
      unfold Entity.property?
      rw [properties]
    obtain rfl := Option.some.inj (property.symm.trans (same.symm.trans found))
    exact present
  targets := targets

/-! ## Databases of a model -/

def HasTables (m : Model) (db : Database) : Prop :=
  ∀ e ∈ roots m.entities, ∃ t, db.find? e.table = some t ∧ t.columns = (m.tableOf e).columns

def ColumnsAgree (m : Model) : Prop :=
  ∀ e ∈ roots m.entities, ∀ p ∈ m.columns e, ∀ q ∈ m.columns e, p.column = q.column → p.nullable = q.nullable

section

variable {entities : List Entity} {m : Model} (declared : WellDeclared entities m)
include declared

theorem root_of_storedIn {table name : String} (stored : m.StoredIn table name) : ∃ root ∈ roots m.entities,
    root.table = table ∧ ∀ e, m.entity? name = some e → m.columns e ⊆ m.columns root := by
  induction stored with
  | mapped known own =>
    obtain ⟨root, inside, same, subset⟩ := declared.root known
    refine ⟨root, inside, same.trans own, fun e known' => ?_⟩
    obtain rfl := Option.some.inj (known.symm.trans known')
    exact subset
  | embedded _ known navigation owned ih =>
    obtain ⟨root, inside, same, subset⟩ := ih
    refine ⟨root, inside, same, fun e target => ?_⟩
    exact List.Subset.trans (columns_owned navigation owned target (declared.finite _ _ known)) (subset _ known)

/-- In a well-formed database with the tables of the model, rows have values where a property is not nullable. -/
theorem valuesPresent (agree : m.ColumnsAgree) {db : Database} (wellFormed : db.WellFormed) (tables : m.HasTables db) :
    m.ValuesPresent db := by
  intro name e p table t known property present stored found r member
  obtain ⟨root, inside, rfl, subset⟩ := root_of_storedIn declared stored
  obtain ⟨t', found', columns⟩ := tables root inside
  obtain rfl := Option.some.inj (found.symm.trans found')
  have own : p ∈ m.columns root := subset e known (mem_columns property)
  have fits := (wellFormed.tables _ t found).2.rowsFit r member
  unfold columnValue
  split
  next missing =>
    -- the column is there
    have name : p.column ∈ t.columnNames := by
      rw [Table.columnNames, columns]
      exact List.mem_map.2 ⟨_, List.mem_map_of_mem own, rfl⟩
    exact absurd (List.findIdx?_eq_none_iff.1 missing _ name) (by simp)
  next i first =>
    obtain ⟨bound, named, -⟩ := List.findIdx?_eq_some_iff_getElem.1 first
    have bound : i < t.columns.length := by simpa [Table.columnNames] using bound
    have bound' : i < r.length := fits.length_eq ▸ bound
    have holds : t.columns[i].Holds r[i] := List.Forall₂.get fits bound bound'
    have named : t.columns[i].name = p.column := by simpa [Table.columnNames] using named
    have inside' : t.columns[i] ∈ (m.tableOf root).columns := columns ▸ List.getElem_mem bound
    obtain ⟨q, other, same⟩ := List.mem_map.1 inside'
    have nullable : t.columns[i].nullable = false := by
      rw [← same] at named ⊢
      exact (agree root inside q other p own named).trans present
    rw [List.getElem?_eq_getElem bound']
    refine ⟨r[i], rfl, fun null => ?_⟩
    unfold Column.Holds at holds
    rw [if_pos null, nullable] at holds
    cases holds

end

end Model

end Setwise
