import Mathlib.Data.List.Induction
import Mathlib.Data.List.Nodup
import Mathlib.Data.List.Perm.Subperm
import Mathlib.Logic.Relation
import Setwise.Model.Storage
import Setwise.Proofs.Standing

/-!
Linked models and their tables.

Linking hands the tables of entity types on to the types that they own, so every table is that of a type which is
not owned and from which ownership leads to the type at hand (`linkedFrom_link`). Where ownership is not circular, the
stored table then has the columns of all these types (`WellDeclared.tabled`).
-/

set_option autoImplicit false

namespace Setwise

open Relation

namespace Model

/-- An entity type of the first name embeds the type of the second one. -/
def Owns (es : List Entity) (a b : String) : Prop :=
  ∃ e ∈ es, e.name = a ∧ ∃ n ∈ e.navigations, n.isOwned = true ∧ n.target = b

def roots (es : List Entity) : List Entity :=
  es.filter fun e => !e.owned

theorem mem_roots {es : List Entity} {e : Entity} : e ∈ roots es ↔ e ∈ es ∧ e.owned = false := by
  simp [roots]

def HasRoot (es : List Entity) (table name : String) : Prop :=
  ∃ root ∈ roots es, root.table = table ∧ ReflTransGen (Owns es) root.name name

/-- Entity types before linking: owned ones have no table but that of an owner, and all others have one. -/
structure Declared (es : List Entity) : Prop where
  embedded : ∀ e ∈ es, e.owned = true → e.table ≠ "" → HasRoot es e.table e.name
  mapped : ∀ e ∈ roots es, e.table ≠ ""

/-! ## Linking -/

def unlinked (e : Entity) : Entity :=
  { e with table := "", schema := none }

structure LinkedFrom (entities es : List Entity) : Prop where
  same : es.map unlinked = entities.map unlinked
  roots : roots es = roots entities
  tables : ∀ e ∈ es, e.table ≠ "" → HasRoot entities e.table e.name

theorem LinkedFrom.refl {entities : List Entity} (declared : Declared entities) : LinkedFrom entities entities where
  same := rfl
  roots := rfl
  tables := fun e member tabled => by
    cases owned : e.owned with
    | true => exact declared.embedded e member owned tabled
    | false => exact ⟨e, mem_roots.2 ⟨member, owned⟩, rfl, .refl⟩

theorem owns_of_same {es fs : List Entity} (same : es.map unlinked = fs.map unlinked) {a b : String}
    (h : Owns es a b) : Owns fs a b := by
  obtain ⟨e, member, rfl, n, navigation, owned⟩ := h
  have inside : unlinked e ∈ fs.map unlinked := same ▸ List.mem_map_of_mem member
  obtain ⟨f, member', alike⟩ := List.mem_map.1 inside
  have names : f.name = e.name := by simpa [unlinked] using congrArg Entity.name alike
  have navigations : f.navigations = e.navigations := by simpa [unlinked] using congrArg Entity.navigations alike
  exact ⟨f, member', names, n, navigations ▸ navigation, owned⟩

theorem adopt_same (table : String) (schema : Option String) (target : String) (es : List Entity) :
    (adopt table schema target es).map unlinked = es.map unlinked := by
  induction es with
  | nil => rfl
  | cons e rest ih =>
    unfold adopt
    split
    next =>
      split
      next => rfl
      next => rfl
    next => rw [List.map_cons, ih, List.map_cons]

theorem adopt_roots (table : String) (schema : Option String) (target : String) {es : List Entity}
    (mapped : ∀ e ∈ roots es, e.table ≠ "") : roots (adopt table schema target es) = roots es := by
  induction es with
  | nil => rfl
  | cons e rest ih =>
    have later : ∀ f ∈ roots rest, f.table ≠ "" := fun f member => by
      obtain ⟨inside, owned⟩ := mem_roots.1 member
      exact mapped f (mem_roots.2 ⟨List.mem_cons_of_mem _ inside, owned⟩)
    unfold adopt
    split
    next =>
      split
      next missing =>
        have owned : e.owned = true := by
          by_contra stored
          exact mapped e (mem_roots.2 ⟨List.mem_cons_self, by simpa using stored⟩) missing
        simp [roots, owned]
      next => rfl
    next =>
      have ih := ih later
      unfold roots at ih ⊢
      rw [List.filter_cons, ih, List.filter_cons]

theorem mem_adopt {table : String} {schema : Option String} {target : String} {es : List Entity} {e : Entity}
    (h : e ∈ adopt table schema target es) :
    e ∈ es ∨ ∃ f ∈ es, f.name = target ∧ f.table = "" ∧ e = { f with table := table, schema := schema } := by
  induction es with
  | nil => cases h
  | cons f rest ih =>
    unfold adopt at h
    split at h
    next named =>
      rcases List.mem_cons.1 h with here | later
      · split at here
        next missing => exact .inr ⟨f, List.mem_cons_self, named, missing, here⟩
        next => exact .inl (here ▸ List.mem_cons_self)
      · exact .inl (List.mem_cons_of_mem _ later)
    next =>
      rcases List.mem_cons.1 h with here | later
      · exact .inl (here ▸ List.mem_cons_self)
      · exact (ih later).imp (List.mem_cons_of_mem _) fun ⟨g, inside, new⟩ => ⟨g, List.mem_cons_of_mem _ inside, new⟩

theorem mem_adopt_of_tabled {e : Entity} (tabled : e.table ≠ "") (table : String) (schema : Option String)
    (target : String) {es : List Entity} (member : e ∈ es) : e ∈ adopt table schema target es := by
  induction es with
  | nil => cases member
  | cons f rest ih =>
    unfold adopt
    split
    next =>
      rcases List.mem_cons.1 member with rfl | later
      · rw [if_neg tabled]
        exact List.mem_cons_self
      · exact List.mem_cons_of_mem _ later
    next =>
      rcases List.mem_cons.1 member with rfl | later
      · exact List.mem_cons_self
      · exact List.mem_cons_of_mem _ (ih later)

/-- An entity type hands its table on to a type that it owns, which takes it unless it has one. -/
inductive HandsOn : List Entity → List Entity → Prop
  | intro {es : List Entity} {owner : Entity} {n : Navigation} (member : owner ∈ es) (tabled : owner.table ≠ "")
      (navigation : n ∈ owner.navigations) (owned : n.isOwned = true) :
      HandsOn es (adopt owner.table owner.schema n.target es)

theorem adoptOwned_run {es : List Entity} {owner : Entity} (member : owner ∈ es) :
    ReflTransGen HandsOn es (adoptOwned es owner) := by
  unfold adoptOwned
  split
  next => exact .refl
  next tabled =>
    -- the owner stays as it is while its types take the table
    refine (List.foldlRecOn _ _ (motive := fun fs => ReflTransGen HandsOn es fs ∧ owner ∈ fs) ⟨.refl, member⟩ ?_).1
    intro fs ⟨run, inside⟩ n found
    obtain ⟨navigation, owned⟩ := List.mem_filter.1 found
    exact ⟨run.tail (.intro inside tabled navigation owned), mem_adopt_of_tabled tabled _ _ _ inside⟩

theorem adoptionRound_run (es : List Entity) : ReflTransGen HandsOn es (adoptionRound es) := by
  refine List.foldlRecOn _ _ .refl fun fs run i _ => ?_
  split
  next owner found => exact run.trans (adoptOwned_run (List.mem_of_getElem? found))
  next => exact run

theorem link_run (entities : List Entity) : ReflTransGen HandsOn entities (link entities) := by
  have all (fuel : Nat) (es : List Entity) : ReflTransGen HandsOn es (adoptAll fuel es) := by
    induction fuel generalizing es with
    | zero => exact .refl
    | succ fuel ih =>
      unfold adoptAll
      dsimp only
      split
      next => exact .refl
      next => exact (adoptionRound_run es).trans (ih _)
  exact all _ entities

theorem run_same {es fs : List Entity} (run : ReflTransGen HandsOn es fs) : fs.map unlinked = es.map unlinked := by
  induction run with
  | refl => rfl
  | tail _ step ih =>
    cases step with
    | intro => exact (adopt_same _ _ _ _).trans ih

theorem link_same (entities : List Entity) : (link entities).map unlinked = entities.map unlinked :=
  run_same (link_run entities)

theorem LinkedFrom.step {entities es fs : List Entity} (declared : Declared entities) (linked : LinkedFrom entities es)
    (step : HandsOn es fs) : LinkedFrom entities fs := by
  cases step with
  | @intro owner n member tabled navigation owned =>
    obtain ⟨root, inside, same, leads⟩ := linked.tables owner member tabled
    have owns : Owns entities owner.name n.target :=
      owns_of_same linked.same ⟨owner, member, rfl, n, navigation, owned, rfl⟩
    refine ⟨(adopt_same _ _ _ es).trans linked.same, ?_, fun e found stored => ?_⟩
    · refine (adopt_roots _ _ _ ?_).trans linked.roots
      rw [linked.roots]
      exact declared.mapped
    · rcases mem_adopt found with before | ⟨f, -, named, -, rfl⟩
      · exact linked.tables e before stored
      · exact ⟨root, inside, same, named ▸ leads.tail owns⟩

theorem LinkedFrom.of_run {entities es : List Entity} (declared : Declared entities)
    (run : ReflTransGen HandsOn entities es) : LinkedFrom entities es := by
  induction run with
  | refl => exact .refl declared
  | tail _ step linked => exact linked.step declared step

/-- After linking, every table is that of a type which is not owned, from which ownership leads on. -/
theorem linkedFrom_link {entities : List Entity} (declared : Declared entities) : LinkedFrom entities (link entities) :=
  .of_run declared (link_run entities)

/-! ## Ownership -/

theorem firstDuplicate?_eq_none {seen : List String} {es : List Entity} (h : firstDuplicate? seen es = none)
    (distinct : seen.Nodup) : (seen ++ es.map Entity.name).Nodup := by
  induction es generalizing seen with
  | nil => simpa using distinct
  | cons e rest ih =>
    unfold firstDuplicate? at h
    split at h
    next => cases h
    next new =>
      have new : e.name ∉ seen := by simpa using new
      have longer : (seen ++ [e.name]).Nodup := List.nodup_append.2
        ⟨distinct, List.pairwise_singleton _ _, fun a ha b hb same => by
          obtain rfl := List.mem_singleton.1 hb
          exact new (same ▸ ha)⟩
      simpa using ih h longer

theorem names_nodup {entities : List Entity} {m : Model} (h : ofEntities entities = .ok m) :
    m.entities = link entities ∧ (entities.map Entity.name).Nodup := by
  unfold ofEntities at h
  split at h
  next => cases h
  next distinct =>
    obtain ⟨_, -, h⟩ := bind_eq_ok.1 h
    obtain rfl := pure_eq_ok.1 h
    exact ⟨rfl, by simpa using firstDuplicate?_eq_none distinct List.nodup_nil⟩

theorem linked_names_nodup {entities : List Entity} {m : Model} (h : ofEntities entities = .ok m) :
    (m.entities.map Entity.name).Nodup := by
  obtain ⟨linked, distinct⟩ := names_nodup h
  have alike : (link entities).map Entity.name = entities.map Entity.name := by
    simpa [Function.comp_def, unlinked] using congrArg (List.map Entity.name) (link_same entities)
  rw [linked, alike]
  exact distinct

theorem mapM_isSome {α β : Type} {f : α → Option β} {l : List α} (total : ∀ a ∈ l, (f a).isSome) :
    (l.mapM f).isSome := by
  induction l with
  | nil => rfl
  | cons a rest ih =>
    obtain ⟨here, later⟩ := List.forall_mem_cons.1 total
    obtain ⟨b, here⟩ := Option.isSome_iff_exists.1 here
    obtain ⟨bs, others⟩ := Option.isSome_iff_exists.1 (ih later)
    simp [List.mapM_cons, here, others]

/-- Where ownership does not lead into a circle, fuel for every entity type that has not been met on the way down is
enough to list the columns. -/
theorem columnsWithin?_isSome {m : Model} {fuel : Nat} {e : Entity}
    (acyclic : ∀ name, ReflTransGen (Owns m.entities) e.name name → ¬ TransGen (Owns m.entities) name name)
    (member : e ∈ m.entities) {owners : List String} (once : owners.Nodup)
    (above : ∀ name ∈ owners, TransGen (Owns m.entities) name e.name)
    (known : owners ⊆ m.entities.map Entity.name) (enough : m.entities.length < owners.length + fuel) :
    (m.columnsWithin? fuel e).isSome := by
  induction fuel generalizing e owners with
  | zero =>
    have few := (List.subperm_of_subset once known).length_le
    rw [List.length_map] at few
    omega
  | succ fuel ih =>
    have new : e.name ∉ owners := fun inside => acyclic _ .refl (above _ inside)
    unfold columnsWithin?
    rw [bind_pure_comp, Option.map_eq_map, Option.isSome_map]
    refine mapM_isSome fun n navigation => ?_
    -- every owned type is below this one and all that are above
    split
    next embeds =>
      split
      next target found =>
        have named : target.name = n.target := by simpa using List.find?_some found
        have owns : Owns m.entities e.name target.name := ⟨e, member, rfl, n, navigation, embeds, named.symm⟩
        have once' : (e.name :: owners).Nodup := List.nodup_cons.2 ⟨new, once⟩
        have above' := List.forall_mem_cons.2 ⟨.single owns, fun name inside => (above name inside).tail owns⟩
        have known' := List.cons_subset.2 ⟨List.mem_map_of_mem member, known⟩
        have acyclic' := fun name leads => acyclic name (.head owns leads)
        refine ih acyclic' (List.mem_of_find?_eq_some found) once' above' known' ?_
        rw [List.length_cons]
        omega
      next => rfl
    next => rfl

theorem finite_of_acyclic {m : Model} (acyclic : ∀ name, ¬ TransGen (Owns m.entities) name name) : Planning.Finite m :=
  fun _ _ known => columnsWithin?_isSome (fun name _ => acyclic name) (List.mem_of_find?_eq_some known) List.nodup_nil
    (fun _ h => absurd h List.not_mem_nil) (List.nil_subset _) (by simp)

section

variable {m : Model} (distinct : (m.entities.map Entity.name).Nodup)
include distinct

theorem entity?_of_mem {e : Entity} (member : e ∈ m.entities) : m.entity? e.name = some e := by
  unfold entity?
  cases found : m.entities.find? fun f => f.name == e.name with
  | none => exact absurd (List.find?_eq_none.1 found e member) (by simp)
  | some f =>
    have named : f.name = e.name := by simpa using List.find?_some found
    exact congrArg some (List.inj_on_of_nodup_map distinct (List.mem_of_find?_eq_some found) member named)

theorem columns_subset_of_owns (finite : Planning.Finite m) {a b : String} (leads : ReflTransGen (Owns m.entities) a b)
    {root e : Entity} (first : m.entity? a = some root) (last : m.entity? b = some e) :
    m.columns e ⊆ m.columns root := by
  induction leads generalizing e with
  | refl =>
    obtain rfl := Option.some.inj (first.symm.trans last)
    exact List.Subset.refl _
  | tail _ owns ih =>
    obtain ⟨owner, member, rfl, n, navigation, owned, rfl⟩ := owns
    have known := entity?_of_mem distinct member
    exact List.Subset.trans (Planning.columns_owned navigation owned last (finite _ owner known)) (ih known)

end

/-! ## Stored tables -/

theorem find?_ofTables (ts : List Table) (name : String) :
    (Database.ofTables ts).find? name = ts.reverse.find? fun t => t.name == name := by
  unfold Database.ofTables
  induction ts using List.reverseRecOn with
  | nil => rfl
  | append_singleton before t ih =>
    rw [List.foldl_concat, List.reverse_concat]
    by_cases same : t.name = name
    · rw [← same, Database.find?_put_self, List.find?_cons_of_pos (by simp)]
    · rw [Database.find?_put_of_ne same, ih, List.find?_cons_of_neg (by simpa using same)]

theorem find?_ofTables_alone {ts : List Table} {t : Table} (member : t ∈ ts)
    (alone : ∀ u ∈ ts, u.name = t.name → u = t) : (Database.ofTables ts).find? t.name = some t := by
  rw [find?_ofTables]
  obtain ⟨u, found⟩ : ∃ u, (ts.reverse.find? fun u => u.name == t.name) = some u :=
    Option.isSome_iff_exists.1 (List.find?_isSome.2 ⟨t, List.mem_reverse.2 member, by simp⟩)
  have named : u.name = t.name := by simpa using List.find?_some found
  rw [found, alone u (List.mem_reverse.1 (List.mem_of_find?_eq_some found)) named]

end Model

namespace Planning

open Model Relational

def storedColumns (m : Model) (table : String) : Option (List String) :=
  (m.database.find? table).map Table.columnNames

/-- Models whose types all end up with a table: the types that are not owned have different ones, ownership is not
circular, and references of one name have one target. -/
structure Equipped (entities : List Entity) (m : Model) : Prop where
  mapped : ∀ e ∈ roots entities, e.table ≠ ""
  accepted : ofEntities entities = .ok m
  distinct : ((roots entities).map Entity.table).Nodup
  acyclic : ∀ name, ¬ TransGen (Owns entities) name name
  linked : ∀ e ∈ m.entities, e.owned = true → e.table ≠ ""
  targets : ∀ name a b, Refers m name a → Refers m name b → a = b

/-- Models as they are meant to be declared: besides, the table that an owned type ends up with is that of an owner. -/
structure WellDeclared (entities : List Entity) (m : Model) : Prop extends Declared entities, Equipped entities m

namespace WellDeclared

variable {entities : List Entity} {m : Model} (declared : WellDeclared entities m)
include declared

theorem linkedFrom : LinkedFrom entities m.entities :=
  (names_nodup declared.accepted).1 ▸ linkedFrom_link declared.toDeclared

theorem names : (m.entities.map Entity.name).Nodup :=
  linked_names_nodup declared.accepted

theorem finite : Finite m :=
  finite_of_acyclic fun name cycle =>
    declared.acyclic name (cycle.lift id fun _ _ => owns_of_same declared.linkedFrom.same)

theorem root {name : String} {e : Entity} (known : m.entity? name = some e) :
    ∃ root ∈ roots m.entities, root.table = e.table ∧ m.columns e ⊆ m.columns root := by
  have linked := declared.linkedFrom
  have member := List.mem_of_find?_eq_some known
  obtain rfl := Planning.name_of_entity? known
  have tabled : e.table ≠ "" := by
    cases owned : e.owned with
    | true => exact declared.linked e member owned
    | false => exact declared.mapped e (linked.roots ▸ mem_roots.2 ⟨member, owned⟩)
  obtain ⟨root, inside, table, leads⟩ := linked.tables e member tabled
  have inside : root ∈ roots m.entities := linked.roots ▸ inside
  have first := entity?_of_mem declared.names (mem_roots.1 inside).1
  have leads := leads.lift id fun _ _ => owns_of_same linked.same.symm
  exact ⟨root, inside, table, columns_subset_of_owns declared.names declared.finite leads first known⟩

/-- The entity types of a well-declared model have stored tables with all their columns. -/
theorem tabled (scalars : String → Prop) (literals : LiteralTable → Prop) :
    Tabled m ⟨storedColumns m, scalars, literals⟩ := by
  refine ⟨declared.finite, fun name e known => ?_, declared.targets⟩
  obtain ⟨root, inside, table, subset⟩ := declared.root known
  have different : (((roots m.entities).map m.tableOf).map Table.name).Nodup := by
    simpa [declared.linkedFrom.roots, Function.comp_def, tableOf] using declared.distinct
  have found : m.database.find? (m.tableOf root).name = some (m.tableOf root) :=
    find?_ofTables_alone (List.mem_map_of_mem inside) fun u stored same =>
      List.inj_on_of_nodup_map different stored (List.mem_map_of_mem inside) same
  refine ⟨(m.tableOf root).columnNames, ?_, ?_⟩
  · rw [← table]
    exact congrArg (Option.map Table.columnNames) found
  · have names : (m.tableOf root).columnNames = (m.columns root).map Property.column := by
      simp [Table.columnNames, tableOf, Function.comp_def]
    rw [names, columnsOf_eq known]
    exact List.map_subset _ subset

end WellDeclared

end Planning

end Setwise
