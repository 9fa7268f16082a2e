import Setwise.Proofs.Linking
import Setwise.Proofs.PlannedMutations

/-!
The joins of an update follow references.

Rows of a table are entities of the types that are mapped to it and of all types that these own
(`Model.StoredIn`). What planning makes of the parameter of a lambda, and of its members, resides in tables of its type
(`Resides`); therefore every join that comes up follows a reference from rows that are entities with that reference
(`assignedFields_traced`).
-/

set_option autoImplicit false

namespace Setwise

open Client Relational Execution

/-! ## Where entities are stored -/

/-- The rows of a table are entities of a type: it is mapped to the table, or owned by a type that is stored there. -/
inductive Model.StoredIn (m : Model) (table : String) : String → Prop where
  | mapped {name : String} {e : Entity} (known : m.entity? name = some e) (own : e.table = table) : StoredIn m table name
  | embedded {name : String} {e : Entity} {n : Navigation} (owner : StoredIn m table name)
      (known : m.entity? name = some e) (navigation : n ∈ e.navigations) (owned : n.isOwned = true) :
      StoredIn m table n.target

def Model.RefersFrom (m : Model) (table name target : String) : Prop :=
  ∃ type owner n, m.StoredIn table type ∧ m.entity? type = some owner ∧ n ∈ owner.navigations ∧ n.isOwned = false ∧
    n.name = name ∧ n.target = target

def Model.TargetsAgree (m : Model) : Prop :=
  ∀ table name a b, m.RefersFrom table name a → m.RefersFrom table name b → a = b

theorem Model.targetsAgree {m : Model}
    (targets : ∀ name a b, Planning.Refers m name a → Planning.Refers m name b → a = b) : m.TargetsAgree := by
  have refers {table name target : String} : m.RefersFrom table name target → Planning.Refers m name target :=
    fun ⟨_, owner, n, _, known, navigation, rest⟩ => ⟨owner, List.mem_of_find?_eq_some known, n, navigation, rest⟩
  exact fun _ name a b first second => targets name a b (refers first) (refers second)

theorem Model.mapped_of_storedIn {m : Model} (unowned : ∀ e ∈ m.entities, ∀ n ∈ e.navigations, n.isOwned = false)
    {table name : String} (stored : m.StoredIn table name) : ∃ e, m.entity? name = some e ∧ e.table = table := by
  cases stored with
  | mapped known own => exact ⟨_, known, own⟩
  | embedded _ known navigation owned =>
    rw [unowned _ (List.mem_of_find?_eq_some known) _ navigation] at owned
    cases owned

namespace Planning

section

variable (m : Model) (root : StoredTable) (js : List (Join Select))

def ShowsTable (label table : String) : Prop :=
  label = root.label ∧ table = root.name ∨
    ∃ j ∈ js, ∃ ref, j.source = .table ref ∧ ref.label = label ∧ ref.name = table

/-- An entity is seen in a table that stores its type, where its columns keep their names. -/
structure Resides (r : EntityView) : Prop where
  plain : r.renames = []
  table : ∃ table, ShowsTable root js r.label table ∧ m.StoredIn table r.entity

end

/-- Each of the joins follows a reference from an entity that is seen in front of it. -/
inductive FollowsReferences (m : Model) (root : StoredTable) : List (Join Select) → Prop where
  | none : FollowsReferences m root []
  | another {js : List (Join Select)} {j : Join Select} {owner : Entity} {r : EntityView} {n : Navigation}
      (before : FollowsReferences m root js) (resides : Resides m root js r) (known : m.entity? r.entity = some owner)
      (navigation : n ∈ owner.navigations) (own : OwnJoin m owner r n j) : FollowsReferences m root (js ++ [j])

theorem ShowsTable.later {root : StoredTable} {js ks : List (Join Select)} {label table : String}
    (h : ShowsTable root js label table) (more : js <+: ks) : ShowsTable root ks label table :=
  h.imp_right fun ⟨j, member, rest⟩ => ⟨j, more.subset member, rest⟩

theorem ShowsTable.unique {root : StoredTable} {js : List (Join Select)} {label a b : String}
    (distinct : (root.label :: joinLabels js).Nodup) (first : ShowsTable root js label a)
    (second : ShowsTable root js label b) : a = b := by
  obtain ⟨apart, once⟩ := List.nodup_cons.1 distinct
  have joined {j : Join Select} {ref : StoredTable} (member : j ∈ js) (source : j.source = .table ref) :
      ref.label ∈ joinLabels js :=
    List.mem_map.2 ⟨j, member, by rw [source]; rfl⟩
  rcases first with ⟨rfl, rfl⟩ | ⟨j, member, ref, source, rfl, rfl⟩ <;>
    rcases second with ⟨same, rfl⟩ | ⟨k, member', ref', source', same, rfl⟩
  · rfl
  · exact absurd (same ▸ joined member' source') apart
  · exact absurd (same ▸ joined member source) apart
  · have labels : j.source.label = k.source.label := by rw [source, source']; exact same.symm
    obtain rfl := List.inj_on_of_nodup_map once member member' labels
    obtain rfl := RowSource.table.inj (source.symm.trans source')
    rfl

theorem Resides.later {m : Model} {root : StoredTable} {js ks : List (Join Select)} {r : EntityView}
    (h : Resides m root js r) (more : js <+: ks) : Resides m root ks r := by
  obtain ⟨plain, table, shows, stored⟩ := h
  exact ⟨plain, table, shows.later more, stored⟩

/-! ## The entities of a shape -/

namespace Shape

mutual

def views (s : Shape) : List EntityView :=
  match s with
  | .scalar _ | .excluded .. => []
  | .entity r => [r]
  | .record fields => fieldsViews fields
  | .grouping key => views key

def fieldsViews (fs : List (String × Shape)) : List EntityView :=
  match fs with
  | [] => []
  | f :: rest => fieldViews f ++ fieldsViews rest

def fieldViews (f : String × Shape) : List EntityView :=
  match f with
  | (_, s) => views s

end

theorem mem_fieldsViews {fs : List (String × Shape)} {r : EntityView} :
    r ∈ fieldsViews fs ↔ ∃ p ∈ fs, r ∈ p.2.views := by
  induction fs with
  | nil => simp [fieldsViews]
  | cons f rest ih =>
    obtain ⟨name, s⟩ := f
    simp [fieldsViews, fieldViews, ih]

theorem views_of_static {m : Model} {s t : Shape} {name : String} (h : s.staticMember? m name = some t)
    {r : EntityView} (member : r ∈ t.views) :
    r ∈ s.views ∨ ∃ r' ∈ s.views, ∃ e n, m.entity? r'.entity = some e ∧ n ∈ e.navigations ∧ n.isOwned = true ∧
      r = { r' with entity := n.target } := by
  cases Shape.StaticMember.of_found h with
  | property | proposed | proposedPart => cases member
  | part entity missing navigation owned =>
    exact .inr ⟨_, List.mem_singleton_self _, _, _, entity, List.mem_of_find?_eq_some navigation, owned,
      List.mem_singleton.1 member⟩
  | field found => exact .inl (mem_fieldsViews.2 ⟨_, mem_of_lookup found, member⟩)
  | key named => exact .inl member

end Shape

/-! ## What planning keeps up -/

section

variable {m : Model} {root : StoredTable} {w w' : Workspace} {s t : Shape}

/-- The joins at hand follow references, and a navigation that is remembered leads to where its target resides. -/
structure Traced (m : Model) (root : StoredTable) (w : Workspace) : Prop where
  joins : FollowsReferences m root w.joins
  distinct : (root.label :: joinLabels w.joins).Nodup
  taken : ∀ l ∈ root.label :: joinLabels w.joins, l ∈ w.labels
  navigations : ∀ entry ∈ w.navigations, ∃ table, ShowsTable root w.joins entry.1.1 table ∧
    ∀ target, m.RefersFrom table entry.1.2 target → Resides m root w.joins { entity := target, label := entry.2 }

theorem follow_traced (targets : m.TargetsAgree) {owner : Entity} {r : EntityView} {n : Navigation}
    {foreignKey principalKey : List String} {required : Bool} (traced : Traced m root w)
    (resides : Resides m root w.joins r) (known : m.entity? r.entity = some owner)
    (navigation : n ∈ owner.navigations) (kind : n.kind = .reference foreignKey principalKey required)
    (h : Step.Yields (follow m owner r n foreignKey principalKey required) w t w') :
    w.joins <+: w'.joins ∧ Traced m root w' ∧ ∀ v ∈ t.views, Resides m root w'.joins v := by
  obtain ⟨plain, table, shows, stored⟩ := resides
  have refers : m.RefersFrom table n.name n.target :=
    ⟨r.entity, owner, n, stored, known, navigation, by simp [Navigation.isOwned, kind], rfl, rfl⟩
  obtain ⟨label, rfl, ⟨found, rfl⟩ | ⟨fresh, target, on, targetKnown, condition, rfl⟩⟩ := follow_yields h
  · obtain ⟨table', shows', reached⟩ := traced.navigations _ (mem_of_lookup found)
    -- a navigation that is remembered leads from this label, and one label shows one table
    obtain rfl := shows.unique traced.distinct shows'
    exact ⟨List.prefix_refl _, traced, List.forall_mem_singleton.2 (reached n.target refers)⟩
  -- a new join: its label is fresh, so the labels stay distinct and every earlier row is shown as before
  · have more : w.joins <+: w.joins ++ [referenceJoin target label required on] := List.prefix_append _ _
    have new : Resides m root (w.joins ++ [referenceJoin target label required on]) { entity := n.target, label } := by
      refine ⟨rfl, target.table, .inr ⟨_, List.mem_append_right _ (List.mem_singleton_self _), _, rfl, rfl, rfl⟩, ?_⟩
      exact .mapped targetKnown rfl
    have labels : root.label :: joinLabels (w.joins ++ [referenceJoin target label required on]) =
        (root.label :: joinLabels w.joins) ++ [label] := by
      rw [joinLabels_append]
      rfl
    refine ⟨more, ⟨?_, ?_, ?_, ?_⟩, List.forall_mem_singleton.2 new⟩
    · exact .another traced.joins ⟨plain, table, shows, stored⟩ known navigation
        ⟨foreignKey, principalKey, required, target, on, kind, targetKnown, condition, rfl⟩
    · rw [labels]
      exact List.nodup_append.2 ⟨traced.distinct, List.nodup_singleton _, fun l old l' here same =>
        fresh (List.mem_singleton.1 here ▸ same ▸ traced.taken l old)⟩
    · rw [labels]
      exact List.forall_mem_append.2 ⟨fun l old => List.mem_append_left _ (traced.taken l old),
        List.forall_mem_singleton.2 (List.mem_append_right _ (List.mem_singleton_self _))⟩
    · refine List.forall_mem_cons.2 ⟨⟨table, shows.later more, fun other refers' => ?_⟩, fun entry member => ?_⟩
      · obtain rfl := targets table n.name _ _ refers' refers
        exact new
      · obtain ⟨table', shows', reached⟩ := traced.navigations entry member
        exact ⟨table', shows'.later more, fun other refers' => (reached other refers').later more⟩

theorem carries_traced (targets : m.TargetsAgree) (root : StoredTable) :
    Carries m (fun _ => True) (Traced m root) (fun w w' => w.joins <+: w'.joins ∧ Traced m root w')
      (fun w s => ∀ r ∈ s.views, Resides m root w.joins r) where
  refl traced := ⟨List.prefix_refl _, traced⟩
  trans := fun ⟨first, _⟩ ⟨second, traced⟩ => ⟨first.trans second, traced⟩
  stays after := after.2
  keeps after resides r member := (resides r member).later after.1
  constant _ _ member := nomatch member
  runtime _ _ member := nomatch member
  member := fun {w w' s t name whole} traced resides h => by
    obtain ⟨found, rfl⟩ | ⟨r, owner, n, foreignKey, principalKey, required, reference, run⟩ := readMember_yields h
    · refine ⟨⟨List.prefix_refl _, traced⟩, fun r member => ?_⟩
      rcases Shape.views_of_static found member with old | ⟨r', old, e, n, known, navigation, owned, rfl⟩
      · exact resides r old
      -- an owned part resides in the table of its owner, under the same label
      · obtain ⟨plain, table, shows, stored⟩ := resides r' old
        exact ⟨plain, table, shows, .embedded stored known navigation owned⟩
    · obtain ⟨rfl, known, -, navigation, kind⟩ := reference
      have here := resides r (List.mem_singleton_self _)
      have navigation := List.mem_of_find?_eq_some navigation
      obtain ⟨more, traced', resides'⟩ := follow_traced targets traced here known navigation kind run
      exact ⟨⟨more, traced'⟩, resides'⟩
  operator _ _ _ _ member := nomatch member
  not _ _ member := nomatch member
  case _ _ _ _ member := nomatch member
  record fields r member := by
    obtain ⟨f, inside, here⟩ := Shape.mem_fieldsViews.1 member
    exact fields f inside r here

theorem assignedFields_traced (targets : m.TargetsAgree) {scope : Scope} {list : List Assignment}
    {fields : List Projection} (traced : Traced m root w)
    (given : ∀ p ∈ scope, ∀ r ∈ p.2.views, Resides m root w.joins r)
    (h : Step.Yields (assignedFields m scope list) w fields w') : Traced m root w' := by
  have carries := carries_traced targets root
  induction list generalizing w fields with
  | nil =>
    obtain ⟨-, rfl⟩ := Step.yields_pure.1 h
    exact traced
  | cons a rest ih =>
    simp only [assignedFields, Step.yields_bind, scalar_yields, Step.yields_pure] at h
    obtain ⟨value, v, first, others, _, second, -, rfl⟩ := h
    obtain ⟨⟨more, traced'⟩, -⟩ := carries.expr a.value (fun _ _ => trivial) traced given first
    exact ih traced' (fun p member r seen => (given p member r seen).later more) second

end

end Planning

end Setwise
