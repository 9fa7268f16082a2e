import Setwise.Proofs.Linking

/-!
The tables of owned types.

A round of linking lets every entity type hand its table on to the types that it owns. It changes nothing, or leaves
fewer types without a table (`Fills`), so rounds are repeated only until they settle (`settles_link`). When they have, no
type with a table owns one without (`tabled_of_quiet`). So exactly the types that ownership leads to from a type with a
table have one in the end: their own, or that of an owner (`owned_types_take_tables`).
-/

set_option autoImplicit false

namespace Setwise.Model

open Relation

/-! ## Rounds of linking -/

/-- Repeating rounds until one of them changes nothing ends with the given types. -/
inductive RoundsSettle : List Entity → List Entity → Prop
  | quiet {es : List Entity} (same : adoptionRound es = es) : RoundsSettle es es
  | again {es fs : List Entity} (changed : adoptionRound es ≠ es) (rest : RoundsSettle (adoptionRound es) fs) : RoundsSettle es fs

theorem RoundsSettle.quiet_end {es fs : List Entity} (h : RoundsSettle es fs) : adoptionRound fs = fs := by
  induction h with
  | quiet same => exact same
  | again _ _ ih => exact ih

def bareCount (es : List Entity) : Nat :=
  es.countP fun e => e.table = ""

/-- The types are the same, or fewer of them are without a table. -/
def Fills (es fs : List Entity) : Prop :=
  fs = es ∨ bareCount fs < bareCount es

theorem Fills.trans {es fs gs : List Entity} (first : Fills es fs) (second : Fills fs gs) : Fills es gs := by
  rcases first with rfl | fewer
  · exact second
  · rcases second with rfl | fewer'
    · exact .inr fewer
    · exact .inr (Nat.lt_trans fewer' fewer)

theorem adopt_fills {table : String} (tabled : table ≠ "") (schema : Option String) (target : String)
    (es : List Entity) : Fills es (adopt table schema target es) := by
  induction es with
  | nil => exact .inl rfl
  | cons e rest ih =>
    unfold adopt
    split
    next =>
      split
      next missing => exact .inr (by simp [bareCount, missing, tabled])
      next => exact .inl rfl
    next =>
      rcases ih with same | fewer
      · exact .inl (by rw [same])
      · refine .inr ?_
        simp only [bareCount, List.countP_cons] at fewer ⊢
        omega

theorem fills_of_run {es fs : List Entity} (run : ReflTransGen HandsOn es fs) : Fills es fs := by
  induction run with
  | refl => exact .inl rfl
  | tail _ step ih =>
    cases step with
    | intro _ tabled => exact ih.trans (adopt_fills tabled _ _ _)

theorem settles_adoptAll {fuel : Nat} {es : List Entity} (enough : bareCount es < fuel) :
    RoundsSettle es (adoptAll fuel es) := by
  induction fuel generalizing es with
  | zero => omega
  | succ fuel ih =>
    unfold adoptAll
    dsimp only
    split
    next same => exact .quiet same
    next changed =>
      have fewer := (fills_of_run (adoptionRound_run es)).resolve_left changed
      exact .again changed (ih (by omega))

/-- Linking goes on until the rounds have settled. -/
theorem settles_link (entities : List Entity) : RoundsSettle entities (link entities) :=
  settles_adoptAll (Nat.lt_succ_of_le List.countP_le_length)

/-! ## Where rounds have settled -/

section

variable {α : Type} {f : List Entity → α → List Entity}

theorem foldl_fills (fills : ∀ es a, Fills es (f es a)) (l : List α) (es : List Entity) : Fills es (l.foldl f es) :=
  List.foldlRecOn _ _ (.inl rfl) fun _ before a _ => before.trans (fills _ a)

theorem still_of_foldl (fills : ∀ es a, Fills es (f es a)) {l : List α} {es : List Entity} (same : l.foldl f es = es) :
    ∀ a ∈ l, f es a = es := by
  induction l with
  | nil => exact List.forall_mem_nil _
  | cons a rest ih =>
    rw [List.foldl_cons] at same
    have still : f es a = es := by
      refine (fills es a).resolve_right fun fewer => ?_
      rcases foldl_fills fills rest (f es a) with kept | fewer'
      · rw [← kept, same] at fewer
        exact Nat.lt_irrefl _ fewer
      · rw [same] at fewer'
        exact Nat.lt_asymm fewer fewer'
    rw [still] at same
    exact List.forall_mem_cons.2 ⟨still, ih same⟩

end

theorem tabled_of_adopt_eq {table target : String} {schema : Option String} (tabled : table ≠ "") {es : List Entity}
    (distinct : (es.map Entity.name).Nodup) (same : adopt table schema target es = es) {e : Entity} (member : e ∈ es)
    (named : e.name = target) : e.table ≠ "" := by
  induction es with
  | nil => cases member
  | cons f rest ih =>
    obtain ⟨apart, distinct⟩ := List.nodup_cons.1 distinct
    unfold adopt at same
    split at same
    next here =>
      -- no type behind the first has its name
      obtain rfl : e = f := (List.mem_cons.1 member).resolve_right fun later =>
        apart (here ▸ named ▸ List.mem_map_of_mem later)
      split at same
      next => exact fun missing => tabled ((congrArg Entity.table (List.cons.inj same).1).trans missing)
      next present => exact present
    next other =>
      rcases List.mem_cons.1 member with rfl | later
      · exact absurd named other
      · exact ih distinct (List.cons.inj same).2 later

/-- Where a round changes nothing, a type that is owned by one with a table has a table. -/
theorem tabled_of_quiet {es : List Entity} (distinct : (es.map Entity.name).Nodup) (quiet : adoptionRound es = es)
    {owner e : Entity} {n : Navigation} (member : owner ∈ es) (tabled : owner.table ≠ "")
    (navigation : n ∈ owner.navigations) (owned : n.isOwned = true) (inside : e ∈ es) (named : e.name = n.target) :
    e.table ≠ "" := by
  obtain ⟨i, found⟩ := List.mem_iff_getElem?.1 member
  have turn : adoptOwned es owner = es := by
    have still := still_of_foldl (fun fs j => ?_) quiet i (List.mem_range.2 (List.getElem?_eq_some_iff.1 found).1)
    · simpa only [found] using still
    · split
      next other found => exact fills_of_run (adoptOwned_run (List.mem_of_getElem? found))
      next => exact .inl rfl
  unfold adoptOwned at turn
  rw [if_neg tabled] at turn
  have still := still_of_foldl (fun fs m => adopt_fills tabled owner.schema m.target fs) turn n
    (List.mem_filter.2 ⟨navigation, owned⟩)
  exact tabled_of_adopt_eq tabled distinct still inside named

/-! ## Where tables come from -/

/-- Ownership leads to the name from an entity type that has a table. -/
def BelowTable (es : List Entity) (name : String) : Prop :=
  ∃ e ∈ es, e.table ≠ "" ∧ ReflTransGen (Owns es) e.name name

structure Adopted (entities es : List Entity) : Prop where
  same : es.map unlinked = entities.map unlinked
  kept : ∀ e ∈ entities, e.table ≠ "" → e ∈ es
  origin : ∀ f ∈ es, f ∈ entities ∨ ∃ e ∈ entities, e.table = "" ∧ ∃ owner ∈ es, owner.table ≠ "" ∧
    Owns entities owner.name e.name ∧ f = { e with table := owner.table, schema := owner.schema }
  below : ∀ f ∈ es, f.table ≠ "" → BelowTable entities f.name

theorem Adopted.refl (entities : List Entity) : Adopted entities entities where
  same := rfl
  kept _ member _ := member
  origin _ member := .inl member
  below e member tabled := ⟨e, member, tabled, .refl⟩

section

variable {entities es fs : List Entity}

theorem Adopted.untouched (adopted : Adopted entities es) {e : Entity} (member : e ∈ es) (missing : e.table = "") :
    e ∈ entities := by
  rcases adopted.origin e member with before | ⟨_, -, -, owner, -, tabled, -, rfl⟩
  · exact before
  · exact absurd missing tabled

theorem Adopted.step (adopted : Adopted entities es) (step : HandsOn es fs) : Adopted entities fs := by
  cases step with
  | @intro owner n member tabled navigation owned =>
    have stays {e : Entity} (there : e.table ≠ "") (inside : e ∈ es) := mem_adopt_of_tabled there owner.table
      owner.schema n.target inside
    have owns : Owns entities owner.name n.target :=
      owns_of_same adopted.same ⟨owner, member, rfl, n, navigation, owned, rfl⟩
    refine ⟨(adopt_same _ _ _ es).trans adopted.same, ?_, fun f found => ?_, fun f found present => ?_⟩
    · exact fun e inside there => stays there (adopted.kept e inside there)
    · rcases mem_adopt found with before | ⟨e, inside, named, missing, rfl⟩
      · refine (adopted.origin f before).imp_right ?_
        rintro ⟨e, declared, missing, giver, there, given, owns', same⟩
        exact ⟨e, declared, missing, giver, stays given there, given, owns', same⟩
      · exact .inr ⟨e, adopted.untouched inside missing, missing, owner, stays tabled member, tabled, named ▸ owns, rfl⟩
    · rcases mem_adopt found with before | ⟨e, -, named, -, rfl⟩
      · exact adopted.below f before present
      · obtain ⟨root, declared, own, leads⟩ := adopted.below owner member tabled
        exact ⟨root, declared, own, named ▸ leads.tail owns⟩

theorem Adopted.of_run (run : ReflTransGen HandsOn entities es) : Adopted entities es := by
  induction run with
  | refl => exact .refl entities
  | tail _ step adopted => exact adopted.step step

variable (distinct : (entities.map Entity.name).Nodup)
include distinct

theorem Adopted.cases (adopted : Adopted entities es) {e : Entity} (member : e ∈ entities) :
    e ∈ es ∨ ∃ owner ∈ es, owner.table ≠ "" ∧ Owns entities owner.name e.name ∧
      { e with table := owner.table, schema := owner.schema } ∈ es := by
  have inside : unlinked e ∈ es.map unlinked := adopted.same ▸ List.mem_map_of_mem member
  obtain ⟨f, found, alike⟩ := List.mem_map.1 inside
  have named : f.name = e.name := by simpa [unlinked] using congrArg Entity.name alike
  have alone {g : Entity} (declared : g ∈ entities) (same : g.name = e.name) : g = e :=
    List.inj_on_of_nodup_map distinct declared member same
  rcases adopted.origin f found with before | ⟨g, declared, -, owner, giver, tabled, owns, rfl⟩
  · exact .inl (alone before named ▸ found)
  · obtain rfl := alone declared named
    exact .inr ⟨owner, giver, tabled, owns, found⟩

theorem Adopted.complete (adopted : Adopted entities es) (quiet : adoptionRound es = es) {name : String}
    (below : BelowTable entities name) : ∀ e ∈ es, e.name = name → e.table ≠ "" := by
  have names : es.map Entity.name = entities.map Entity.name := by
    simpa [Function.comp_def, unlinked] using congrArg (List.map Entity.name) adopted.same
  have distinct' : (es.map Entity.name).Nodup := names ▸ distinct
  obtain ⟨root, member, tabled, leads⟩ := below
  induction leads with
  | refl =>
    intro e inside named
    obtain rfl := List.inj_on_of_nodup_map distinct' inside (adopted.kept root member tabled) named
    exact tabled
  | tail _ owns ih =>
    intro e inside named
    obtain ⟨owner, there, above, n, navigation, owned, same⟩ := owns_of_same adopted.same.symm owns
    exact tabled_of_quiet distinct' quiet there (ih owner there above) navigation owned inside (named.trans same.symm)

end

/-- Linking comes to an end. In an accepted model, an entity type that had a table is what it was. One that had none has
the table and schema of a type that owns it, if ownership leads to it from a type that had a table, and is what it was
otherwise. -/
theorem owned_types_take_tables (entities : List Entity) :
    RoundsSettle entities (link entities) ∧
      ∀ m, ofEntities entities = .ok m → ∀ e ∈ entities,
        (e.table ≠ "" → m.entity? e.name = some e) ∧
        (e.table = "" → BelowTable entities e.name → ∃ owner ∈ m.entities, owner.table ≠ "" ∧
          Owns entities owner.name e.name ∧
            m.entity? e.name = some { e with table := owner.table, schema := owner.schema }) ∧
        (e.table = "" → ¬ BelowTable entities e.name → m.entity? e.name = some e) := by
  refine ⟨settles_link entities, fun m accepted e member => ?_⟩
  obtain ⟨linked, distinct⟩ := names_nodup accepted
  have adopted : Adopted entities m.entities := linked ▸ .of_run (link_run entities)
  have quiet : adoptionRound m.entities = m.entities := linked ▸ (settles_link entities).quiet_end
  have found {f : Entity} (inside : f ∈ m.entities) : m.entity? f.name = some f :=
    entity?_of_mem (linked_names_nodup accepted) inside
  refine ⟨fun tabled => found (adopted.kept e member tabled), fun missing below => ?_, fun missing outside => ?_⟩
  · rcases adopted.cases distinct member with bare | ⟨owner, inside, tabled, owns, taken⟩
    · exact absurd missing (adopted.complete distinct quiet below e bare rfl)
    · exact ⟨owner, inside, tabled, owns, found taken⟩
  · rcases adopted.cases distinct member with bare | ⟨owner, inside, tabled, owns, taken⟩
    · exact found bare
    · exact absurd (adopted.below _ taken tabled) outside

def resident : Entity :=
  ((Entity.mapped "Person" "People").withSchema "hr").owning "Home" "Address"

/-- People and companies have addresses, and these have streets; the types that own come behind what they own. Nothing
owns drafts. -/
def addressBook : List Entity :=
  [.embedded "Draft", .embedded "Street", (Entity.embedded "Address").owning "Street" "Street", resident,
    (Entity.mapped "Company" "Companies").owning "Office" "Address"]

theorem street_below : BelowTable addressBook "Street" := by
  have address : Owns addressBook "Person" "Address" :=
    ⟨resident, by decide, rfl, ⟨"Home", "Address", .owned⟩, by decide, rfl, rfl⟩
  have street : Owns addressBook "Address" "Street" :=
    ⟨(Entity.embedded "Address").owning "Street" "Street", by decide, rfl, ⟨"Street", "Street", .owned⟩, by decide,
      rfl, rfl⟩
  exact ⟨resident, by decide, by decide, .tail (.single address) street⟩

theorem draft_not_below : ¬ BelowTable addressBook "Draft" := by
  rintro ⟨e, member, tabled, leads⟩
  rcases leads.cases_tail with same | ⟨_, -, owner, inside, -, n, navigation, -, target⟩
  · have alone : ∀ e ∈ addressBook, e.name = "Draft" → e.table = "" := by decide
    exact tabled (alone e member same.symm)
  · have owned : ∀ e ∈ addressBook, ∀ n ∈ e.navigations, n.target ≠ "Draft" := by decide
    exact owned owner inside n navigation target

/-- Streets are stored with the people, who come first, and drafts nowhere. -/
theorem streets_stored_with_people :
    RoundsSettle addressBook (link addressBook) ∧ ∃ m, ofEntities addressBook = .ok m ∧
      (BelowTable addressBook "Street" ∧ ∃ owner ∈ m.entities, owner.table ≠ "" ∧ Owns addressBook owner.name "Street" ∧
        m.entity? "Street" = some { Entity.embedded "Street" with table := owner.table, schema := owner.schema }) ∧
      (m.entity? "Street").map (fun e => (e.table, e.schema)) = some ("People", some "hr") ∧
      (¬ BelowTable addressBook "Draft" ∧ m.entity? "Draft" = some (.embedded "Draft")) ∧
      m.entity? "Person" = some resident := by
  obtain ⟨m, accepted, stored⟩ : ∃ m, ofEntities addressBook = .ok m ∧
      (m.entity? "Street").map (fun e => (e.table, e.schema)) = some ("People", some "hr") := ⟨_, rfl, rfl⟩
  obtain ⟨ends, tables⟩ := owned_types_take_tables addressBook
  obtain ⟨-, taken, -⟩ := tables m accepted (.embedded "Street") (by decide)
  obtain ⟨-, -, left⟩ := tables m accepted (.embedded "Draft") (by decide)
  obtain ⟨kept, -⟩ := tables m accepted resident (by decide)
  exact ⟨ends, m, accepted, ⟨street_below, taken rfl street_below⟩, stored,
    ⟨draft_not_below, left rfl draft_not_below⟩, kept (by decide)⟩

end Setwise.Model
