import Setwise.Proofs.Linking

/-!
Where the listing of columns ends.

The columns of an entity type are its own and those of the types that it owns, which are listed in the same way
(`Lists`). A model is accepted even if one of its types owns itself, directly or through others, and from such a type
the listing never ends (`circle_never_listed`). It ends for exactly the types from which ownership leads into no circle,
and gives the columns that tables and exposed entities are made of (`listed_without_circles`).
-/

set_option autoImplicit false

namespace Setwise.Model

open Relation

section

variable (m : Model)

mutual

/-- Listing the columns of an entity type ends with the given properties: its own and those of the types it owns. -/
inductive Lists : Entity → List Property → Prop
  | intro {e : Entity} {below : List Property} (owned : ListsOwned e.navigations below) :
      Lists e (e.properties ++ below)

/-- Listing the columns of the types that some navigations embed ends with the given properties. -/
inductive ListsOwned : List Navigation → List Property → Prop
  | nil : ListsOwned [] []
  | reference {n : Navigation} {rest : List Navigation} {later : List Property} (refers : n.isOwned = false)
      (others : ListsOwned rest later) : ListsOwned (n :: rest) later
  | unknown {n : Navigation} {rest : List Navigation} {later : List Property} (missing : m.entity? n.target = none)
      (others : ListsOwned rest later) : ListsOwned (n :: rest) later
  | owned {n : Navigation} {rest : List Navigation} {target : Entity} {here later : List Property}
      (embeds : n.isOwned = true) (known : m.entity? n.target = some target) (listed : Lists target here)
      (others : ListsOwned rest later) : ListsOwned (n :: rest) (here ++ later)

end

end

section

variable {m : Model}

/-! ## What is listed -/

mutual

theorem Lists.unique {e : Entity} {ps qs : List Property} (h : m.Lists e ps) (h' : m.Lists e qs) : ps = qs := by
  match h, h' with
  | .intro owned, .intro owned' => rw [ListsOwned.unique owned owned']

theorem ListsOwned.unique {ns : List Navigation} {ps qs : List Property} (h : m.ListsOwned ns ps)
    (h' : m.ListsOwned ns qs) : ps = qs := by
  match h, h' with
  | .nil, .nil => rfl
  | .reference _ others, .reference _ others' => exact ListsOwned.unique others others'
  | .reference _ others, .unknown _ others' => exact ListsOwned.unique others others'
  | .reference refers _, .owned embeds .. => cases refers.symm.trans embeds
  | .unknown _ others, .reference _ others' => exact ListsOwned.unique others others'
  | .unknown _ others, .unknown _ others' => exact ListsOwned.unique others others'
  | .unknown missing _, .owned _ known .. => cases missing.symm.trans known
  | .owned embeds .., .reference refers _ => cases refers.symm.trans embeds
  | .owned _ known .., .unknown missing _ => cases missing.symm.trans known
  | .owned _ known listed others, .owned _ known' listed' others' =>
    obtain rfl := Option.some.inj (known.symm.trans known')
    rw [Lists.unique listed listed', ListsOwned.unique others others']

end

theorem lists_of_columnsWithin? {fuel : Nat} {e : Entity} {ps : List Property} (h : m.columnsWithin? fuel e = some ps) :
    m.Lists e ps := by
  induction fuel generalizing e ps with
  | zero => cases h
  | succ fuel ih =>
    obtain ⟨embedded, all, same⟩ := Option.bind_eq_some_iff.1 h
    obtain rfl := Option.some.inj same
    refine .intro ?_
    -- an inner induction along the navigations of the entity
    clear h same
    generalize e.navigations = ns at all ⊢
    induction ns generalizing embedded with
    | nil =>
      obtain rfl := Option.some.inj all
      exact .nil
    | cons n rest later =>
      simp only [List.mapM_cons, Option.bind_eq_bind, Option.bind_eq_some_iff, Option.pure_def,
        Option.some.injEq] at all
      obtain ⟨here, first, others, remaining, rfl⟩ := all
      have later := later others remaining
      rw [List.flatten_cons]
      split at first
      next embeds =>
        split at first
        next target known => exact .owned embeds known (ih first) later
        next missing =>
          obtain rfl := Option.some.inj first
          exact .unknown missing later
      next refers =>
        obtain rfl := Option.some.inj first
        exact .reference (by simpa using refers) later

/-! ## Where the listing ends -/

section

variable (distinct : (m.entities.map Entity.name).Nodup)
include distinct

mutual

theorem Lists.acc {e : Entity} {ps : List Property} (h : m.Lists e ps) (member : e ∈ m.entities) :
    Acc (fun b a => Owns m.entities a b) e.name := by
  match h with
  | .intro owned =>
    have below := ListsOwned.acc owned
    refine .intro _ ?_
    rintro _ ⟨owner, inside, named, n, navigation, embeds, rfl⟩
    -- names are not repeated, so what the name owns is what this type owns
    obtain rfl := List.inj_on_of_nodup_map distinct inside member named
    exact below n navigation embeds

theorem ListsOwned.acc {ns : List Navigation} {ps : List Property} (h : m.ListsOwned ns ps) :
    ∀ n ∈ ns, n.isOwned = true → Acc (fun b a => Owns m.entities a b) n.target := by
  match h with
  | .nil => exact fun _ inside => absurd inside List.not_mem_nil
  | .reference refers others =>
    refine List.forall_mem_cons.2 ⟨fun embeds => ?_, ListsOwned.acc others⟩
    cases refers.symm.trans embeds
  | .unknown missing others =>
    -- a name that no type has owns nothing
    refine List.forall_mem_cons.2 ⟨fun _ => .intro _ ?_, ListsOwned.acc others⟩
    rintro _ ⟨owner, inside, named, -⟩
    exact absurd (entity?_of_mem distinct inside) (by rw [named, missing]; nofun)
  | .owned _ known listed others =>
    refine List.forall_mem_cons.2 ⟨fun _ => ?_, ListsOwned.acc others⟩
    rw [← Planning.name_of_entity? known]
    exact Lists.acc listed (List.mem_of_find?_eq_some known)

end

end

theorem no_circle_of_acc {es : List Entity} {a : String} (h : Acc (fun b a => Owns es a b) a) {name : String}
    (leads : ReflTransGen (Owns es) a name) : ¬ TransGen (Owns es) name name := by
  induction h generalizing name with
  | intro a _ ih =>
    rcases leads.cases_head with rfl | ⟨b, owns, leads⟩
    · intro circle
      -- the circle goes through a type below, from which it can be reached as well
      obtain ⟨b, owns, back⟩ := TransGen.head'_iff.1 circle
      exact ih b owns back circle
    · exact ih b owns leads

end

section

variable {entities : List Entity} {m : Model} (accepted : ofEntities entities = .ok m)
include accepted

theorem owns_accepted {a b : String} : Owns m.entities a b ↔ Owns entities a b := by
  have same : m.entities.map unlinked = entities.map unlinked := (names_nodup accepted).1 ▸ link_same entities
  exact ⟨owns_of_same same, owns_of_same same.symm⟩

theorem no_circle_of_lists {e : Entity} (member : e ∈ m.entities) {ps : List Property} (listed : m.Lists e ps)
    {name : String} (leads : ReflTransGen (Owns m.entities) e.name name) : ¬ TransGen (Owns m.entities) name name :=
  no_circle_of_acc (listed.acc (linked_names_nodup accepted) member) leads

end

def selfOwned : Entity :=
  (((Entity.mapped "A" "As").withProperty { name := "Id", column := "Id", type := .integer }).withPrimaryKey
    ["Id"]).owning "Inner" "A"

/-- A model is accepted with a type from which the listing never ends. -/
theorem circle_never_listed :
    ∃ m, ofEntities [selfOwned] = .ok m ∧ ∃ e ∈ m.entities, ∀ ps, ¬ m.Lists e ps := by
  have accepted : ofEntities [selfOwned] = .ok ⟨[selfOwned]⟩ := by decide
  have inside : selfOwned ∈ [selfOwned] := List.mem_singleton_self _
  have circle : Owns [selfOwned] "A" "A" := ⟨selfOwned, inside, rfl, ⟨"Inner", "A", .owned⟩, by decide, rfl, rfl⟩
  exact ⟨_, accepted, selfOwned, inside, fun ps listed =>
    no_circle_of_lists accepted inside listed .refl (.single circle)⟩

/-- In an accepted model, listing the columns of an entity type ends exactly if ownership leads from it into no circle,
and then tables and exposed entities have the columns that are listed. -/
theorem listed_without_circles {entities : List Entity} {m : Model} (accepted : ofEntities entities = .ok m)
    {e : Entity} (member : e ∈ m.entities) :
    ((∃ ps, m.Lists e ps) ↔
      ∀ name, ReflTransGen (Owns entities) e.name name → ¬ TransGen (Owns entities) name name) ∧
    ∀ ps, m.Lists e ps → m.columns e = ps ∧ (m.tableOf e).columnNames = ps.map Property.column := by
  have owns : Owns m.entities = Owns entities := funext fun a => funext fun b => propext (owns_accepted accepted)
  rw [← owns]
  have listed (acyclic : ∀ name, ReflTransGen (Owns m.entities) e.name name → ¬ TransGen (Owns m.entities) name name) :
      ∃ ps, m.columns? e = some ps :=
    Option.isSome_iff_exists.1 <| columnsWithin?_isSome acyclic member List.nodup_nil
      (fun _ h => absurd h List.not_mem_nil) (List.nil_subset _) (by simp)
  refine ⟨⟨fun ⟨ps, ends⟩ name leads => no_circle_of_lists accepted member ends leads, fun acyclic => ?_⟩,
    fun ps ends => ?_⟩
  · obtain ⟨ps, found⟩ := listed acyclic
    exact ⟨ps, lists_of_columnsWithin? found⟩
  · obtain ⟨qs, found⟩ := listed fun name leads => no_circle_of_lists accepted member ends leads
    obtain rfl := ends.unique (lists_of_columnsWithin? found)
    have stored : m.columns e = ps := by rw [columns, found, Option.getD_some]
    exact ⟨stored, by simp [tableOf, Table.columnNames, stored, Function.comp_def]⟩

def customers : List Entity :=
  [((Entity.mapped "Customer" "Customers").withProperty { name := "Id", column := "Id", type := .integer }).owning
      "Address" "Address",
    (Entity.embedded "Address").withProperty { name := "City", column := "Address_City", type := .text }]

/-- The listing for customers ends with their own columns and those of the address. -/
theorem customers_listed :
    ∃ m, ofEntities customers = .ok m ∧ ∃ e ∈ m.entities, e.name = "Customer" ∧
      (∀ name, ReflTransGen (Owns customers) "Customer" name → ¬ TransGen (Owns customers) name name) ∧
      (m.tableOf e).columnNames = ["Id", "Address_City"] := by
  obtain ⟨m, accepted, e, member, named, ps, found, columns⟩ : ∃ m, ofEntities customers = .ok m ∧
      ∃ e ∈ m.entities, e.name = "Customer" ∧ ∃ ps, m.columnsWithin? 3 e = some ps ∧
        ps.map Property.column = ["Id", "Address_City"] :=
    ⟨_, rfl, _, List.mem_cons_self, rfl, _, rfl, rfl⟩
  have listed := lists_of_columnsWithin? found
  obtain ⟨ends, same⟩ := listed_without_circles accepted member
  exact ⟨m, accepted, e, member, named, named ▸ ends.1 ⟨ps, listed⟩, (same ps listed).2.trans columns⟩

end Setwise.Model
