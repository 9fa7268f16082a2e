import Setwise.Proofs.GatheredUpdates

/-!
Queries and mutations read the rows that foreign keys lead to.

Whatever the operators of a query are and wherever its elements are carried to, the frames that it delivers show what
the query delivers when every lambda is applied to elements and follows their foreign keys; and what the statement of a
mutation finds, assigns and inserts is what its lambdas give in this way (`navigations_reach_rows`). Without the condition
that references are read on joins of their own (`ReadsOwn`), an element gets the row of another one (`emigrant_misread`).
-/

set_option autoImplicit false

namespace Setwise.Planning

open Client Relational Execution

theorem mutation_reaches {m : Model} {db : Database} {ps : Parameters} {capabilities : Capabilities} {mutation : Mutation}
    {plan : Plan} {b : Block} {w : Workspace} (leads : LeadsOn m db) (own : mutation.ReadsOwn m)
    (h : Step.Yields (mutationPlan m capabilities mutation) {} plan w)
    (bound : plan.root.prune.Replaced (LiteralTable.Resolves ps) b) :
    ∃ s, b = .affected s ∧ mutation.Reaches m db ps s := by
  cases mutation with
  | delete q => exact delete_reaches leads own h bound
  | update q set => exact update_reaches leads own h bound
  | updateJoin outer inner outerKey innerKey set condition => exact updateJoin_reaches leads own h bound
  | insertInto q target => exact insertInto_reaches leads own h bound
  | upsert target source insert update => exact upsert_reaches leads own h bound
  | merge target source targetKey sourceKey update insert delete => exact merge_reaches leads own h bound

/-- Navigations reach the rows that their foreign keys lead to, in a database where these lead to one row at most.

What a planned query delivers, pruned and bound to parameters, shows the elements that the query delivers when each lambda
follows the foreign keys of the elements that it is applied to. What the statement of a plan reads is what the lambdas of
its mutation give in this way, unless a collection without rows leaves another statement. Two references that are read on
one join have equal foreign keys. -/
theorem navigations_reach_rows {m : Model} {db : Database} (leads : LeadsOn m db) (ps : Parameters) :
    (∀ q p w b frames, Step.Yields (query m q) {} p w → q.ReadsOwn m {} →
      p.select.prune.Replaced (LiteralTable.Resolves ps) b → deliveredFrames db { parameters := ps } b = .ok frames →
        q.Delivers m db ps (frames.map (p.shape.element m { parameters := ps }))) ∧
    (∀ capabilities form plan b, planOf m capabilities form = .ok plan → plan.bind ps = .ok b →
      ∃ mutation, form.fold = .ok mutation ∧ (mutation.ReadsOwn m →
        (∃ feed ∈ plan.feeds, ps.rows feed.parameter = .ok [] ∧ b = .affected feed.whenEmpty.statement) ∨
          ∃ s, b = .affected s ∧ mutation.Reaches m db ps s)) ∧
    (∀ env scope scope' of of' name name' t t' later frames, ChainRead m scope (.member of name) t later →
      ChainRead m scope' (.member of' name') t' later → t.labels = t'.labels →
      joinedFrames db env later = .ok frames → ∀ f ∈ frames,
        LeadsToOne m db (Shape.fieldElements m env f scope) of →
        LeadsToOne m db (Shape.fieldElements m env f scope') of' →
        ∀ el el' key key', reading m db (Shape.fieldElements m env f scope) of = some el →
          reading m db (Shape.fieldElements m env f scope') of' = some el' →
          el.foreignKey m name = some key → el'.foreignKey m name' = some key' → key = key') := by
  refine ⟨?queries, ?mutations, ?agree⟩
  case queries =>
    intro q p w b frames planned own bound delivered
    exact query_delivered { parameters := ps } leads (fun _ member => absurd member List.not_mem_nil) own planned
      (Select.compiles_of_prune bound) delivered
  case mutations =>
    intro capabilities form plan b made bound
    obtain ⟨mutation, planned, w, folds, run, rfl⟩ := planOf_eq_ok made
    refine ⟨mutation, folds, fun own => (Plan.bind_cases bound).imp id fun resolved => ?_⟩
    exact mutation_reaches leads own run
      (Block.replaced_of_mapLiteralTables resolved fun _ _ => LiteralTable.resolves_of_resolve)
  case agree =>
    intro env scope scope' of of' name name' t t' later frames read read' same all f member single single' el el' key key'
      owner owner' reference reference'
    exact foreignKeys_agree all member read read' single single' same owner owner' reference reference'

/-! ## A person who takes the country of their address -/

theorem navigation_of_member {m : Model} {db : Database} {type type' name : String} {row row' : List (String × Option Value)}
    (h : (Element.entity type row).member m db name = some (.entity type' row')) :
    ∃ e, m.entity? type = some e ∧ ∃ n ∈ e.navigations, n.name = name := by
  unfold Element.member at h
  obtain ⟨e, known, h⟩ := Option.bind_eq_some_iff.1 h
  split at h
  next => cases h
  next =>
    obtain ⟨n, found, -⟩ := Option.bind_eq_some_iff.1 h
    exact ⟨e, known, n, List.mem_of_find?_eq_some found, by simpa using List.find?_some found⟩

/-- Both countries, the address and the person. -/
def entitiesMet : List Element :=
  [.ofRow people "Country" ["Id", "Name"] [.int 1, .text "first"],
    .ofRow people "Country" ["Id", "Name"] [.int 2, .text "second"],
    .ofRow people "Address" ["CountryId", "Address_CountryId"] [.int 1, .int 2],
    .ofRow people "Person" ["CountryId", "Address_CountryId"] [.int 1, .int 2]]

theorem met_emigrant {x : Element} (met : Met people emigrant x) : x ∈ entitiesMet := by
  induction met with
  | stored known table member =>
    have inside := List.mem_of_find?_eq_some known
    obtain rfl := name_of_entity? known
    simp only [people, List.mem_cons, List.not_mem_nil, or_false] at inside
    rcases inside with rfl | rfl | rfl <;> cases table
    · rcases List.mem_pair.1 member with rfl | rfl
      · exact .head _
      · exact .tail _ (.head _)
    · obtain rfl := List.mem_singleton.1 member
      exact .tail _ (.tail _ (.head _))
    · obtain rfl := List.mem_singleton.1 member
      exact .tail _ (.tail _ (.tail _ (.head _)))
  | member owner read ih =>
    simp only [entitiesMet, List.mem_cons, List.not_mem_nil, or_false] at ih
    -- a country has no navigations, an address leads to the second country, and a person to the first and to the address
    rcases ih with rfl | rfl | rfl | rfl <;> obtain ⟨e, known, n, inside, rfl⟩ := navigation_of_member read <;> cases known
    · cases inside
    · cases inside
    · obtain rfl := List.mem_singleton.1 inside
      cases read
      exact .tail _ (.head _)
    · rcases List.mem_pair.1 inside with rfl | rfl <;> cases read
      · exact .head _
      · exact .tail _ (.tail _ (.head _))

theorem emigrant_leadsOn : LeadsOn people emigrant where
  owned type e name n known missing found owned := by
    have inside := List.mem_of_find?_eq_some known
    simp only [people, List.mem_cons, List.not_mem_nil, or_false] at inside
    rcases inside with rfl | rfl | rfl <;> rfl
  single x name met := by
    have inside := met_emigrant met
    simp only [entitiesMet, List.mem_cons, List.not_mem_nil, or_false] at inside
    rcases inside with rfl | rfl | rfl | rfl <;> rintro _ _ ⟨⟩ - found
    · cases found
    · cases found
    · obtain rfl := List.mem_singleton.1 (List.mem_of_find?_eq_some found)
      rintro _ _ _ ⟨⟩ ⟨⟩ ⟨⟩
      decide
    · rcases List.mem_pair.1 (List.mem_of_find?_eq_some found) with rfl | rfl
      · rintro _ _ _ ⟨⟩ ⟨⟩ ⟨⟩
        decide
      · rfl

/-- The country of the address. -/
def abode : Expr :=
  .member (.member (.param "x") "Address") "Country"

def settlement : Lambda :=
  ⟨["x"], .new (some "Person") [] [.assign "CountryId" (.member abode "Id")]⟩

/-- Persons beside the country that a column refers to. -/
def personsAndCountry (column : String) : Select where
  source := .table ⟨"Persons", none, "p"⟩
  joins := [⟨.inner, .table ⟨"Countries", none, "c"⟩, some (.binary (.column "p" column) .equal (.column "c" "Id"))⟩]

theorem abode_readsAs (nulls : Expr → Bool) : ReadsAs people nulls aPerson abode { labels := ["p"] } := by
  refine ⟨⟨trivial, ?_⟩, ?_⟩
  · rintro _ _ ⟨⟩
    exact reusesOwn_unvisited rfl _ _
  · rintro _ _ ⟨⟩
    exact reusesOwn_unvisited rfl _ _

theorem settlement_readsOwn : (Mutation.update (.set "Person") settlement).ReadsOwn people := by
  refine ⟨trivial, ?_⟩
  rintro s v ⟨⟩
  refine ⟨⟨abode_readsAs _, ?_⟩, fun _ _ _ _ => trivial⟩
  rintro _ _ ⟨⟩ _ _ _ _ _ _ _ ⟨⟨⟩, ⟨⟩, ⟨⟩, -, -⟩

theorem abodes_readsOwn : Query.ReadsOwn people (.map (.set "Person") ⟨["x"], abode⟩) {} := by
  refine ⟨trivial, ?_⟩
  rintro s v ⟨⟩
  exact abode_readsAs _

theorem abode_shared :
    ChainRead people aPerson abode (.entity { entity := "Country", label := "c" }) (personsAndCountry "Address_CountryId") ∧
      ChainRead people [("y", .entity { entity := "Address", label := "p" })] (.member (.param "y") "Country")
        (.entity { entity := "Country", label := "c" }) (personsAndCountry "Address_CountryId") := by
  let persons : Source := .table ⟨"Persons", none, "p"⟩
  have start : Scoped { labels := ["p"] } { source := persons } :=
    scoped_single (w := {}) (fun _ member => absurd member List.not_mem_nil) (show persons.label ∉ [] from List.not_mem_nil)
  refine ⟨⟨trivial, by decide, _, _, start, ?_, ?_, rfl, List.prefix_refl _⟩,
    ⟨trivial, by decide, _, _, start, ?_, ?_, rfl, List.prefix_refl _⟩⟩
  · exact List.forall_mem_singleton.2 fun _ member => List.mem_singleton.1 member ▸ List.mem_singleton_self _
  · refine ⟨⟨trivial, ?_⟩, ?_⟩
    · rintro _ _ ⟨⟩
      exact reusesOwn_unvisited rfl _ _
    · rintro _ _ ⟨⟩
      exact reusesOwn_unvisited rfl _ _
  · exact List.forall_mem_singleton.2 fun _ member => List.mem_singleton.1 member ▸ List.mem_singleton_self _
  · refine ⟨trivial, ?_⟩
    rintro _ _ ⟨⟩
    exact reusesOwn_unvisited rfl _ _

/-- The second country is found from the address, assigned to the person, and found again from the address itself. -/
theorem emigrant_settles :
    deliveredFrames emigrant { parameters := {} } (personsAndCountry "Address_CountryId") =
        .ok [besideCountry 2 "second"] ∧
      Query.Delivers people emigrant {} (.map (.set "Person") ⟨["x"], abode⟩)
        [.entity "Country" [("Id", some (.int 2)), ("Name", some (.text "second"))]] ∧
      (∃ plan s, planOf people .inMemory (.update (.set "Person") settlement) = .ok plan ∧
        plan.bind {} = .ok (.affected s) ∧ Mutation.Reaches people emigrant {} (.update (.set "Person") settlement) s) ∧
      settlement.writes people emigrant {} [Nulls.none]
          [.ofRow people "Person" ["CountryId", "Address_CountryId"] [.int 1, .int 2]] = some [.int 2] ∧
      ∀ key key', (Element.entity "Address" [("Address_CountryId", some (.int 2))]).foreignKey people "Country" = some key →
        (Element.entity "Address" [("Address_CountryId", some (.int 2))]).foreignKey people "Country" = some key' →
          key = key' := by
  obtain ⟨queries, mutations, agree⟩ := navigations_reach_rows emigrant_leadsOn {}
  refine ⟨rfl, ?_, ⟨_, _, rfl, rfl, ?_⟩, rfl, fun key key' => ?_⟩
  -- the join of the country is the one on the column of the address
  · refine queries (.map (.set "Person") ⟨["x"], abode⟩) _ _ (personsAndCountry "Address_CountryId") [besideCountry 2 "second"] rfl abodes_readsOwn ?_ rfl
    exact .intro (.table _) (.cons (.intro _ _ (.table _)) .nil) .none rfl
  · obtain ⟨mutation, folds, reaches⟩ := mutations .inMemory (.update (.set "Person") settlement) _ _ rfl rfl
    obtain rfl := Except.ok.inj folds
    obtain ⟨feed, member, -⟩ | ⟨s, same, reached⟩ := reaches settlement_readsOwn
    · cases member
    · cases same
      exact reached
  · refine agree { parameters := {} } _ _ _ _ _ _ _ _ _ [besideCountry 2 "second"] abode_shared.1 abode_shared.2 rfl rfl
      _ (List.mem_singleton_self _) ?_ ?_ _ _ _ _ rfl rfl
    · refine ⟨trivial, ?_⟩
      rintro _ ⟨⟩ _ _ ⟨⟩ - ⟨⟩
      rfl
    · trivial

/-- Those who were born in the first country. -/
def natives : Query :=
  .filter (.set "Person")
    ⟨["x"], .binary (.member (.member (.param "x") "Country") "Name") .equal (.constant (.text "first"))⟩

/-- After a filter on the country of the person, the country of the address is read in the same row: the first country is
assigned. -/
theorem emigrant_misread :
    ∃ plan s, planOf people .inMemory (.update natives settlement) = .ok plan ∧ plan.bind {} = .ok (.affected s) ∧
      ¬Mutation.Reaches people emigrant {} (.update natives settlement) s := by
  refine ⟨_, _, rfl, rfl, fun reached => ?_⟩
  obtain ⟨name, t, root, held, same⟩ := reached.2 _ _ rfl rfl
  cases root
  cases held
  cases same

end Setwise.Planning
