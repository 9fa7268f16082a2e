import Setwise.Proofs.Integrity
import Setwise.Proofs.ReferenceJoins

/-!
Joins that follow references keep every row once.

Where every foreign key without NULL in it has exactly one row that it refers to (`ReferencesIntact`), a frame in which
the owner of a reference is seen becomes one frame when the target joins (`extended_once`): an outer join pairs an owner
without a target with NULLs, and a required reference has a target wherever there is an owner. Behind an outer join
there may be none; unless a required reference is read from there, all joins together leave one frame of every row
(`joined_once`).
-/

set_option autoImplicit false

namespace Setwise

open Client Relational Execution Planning

/-! ## Referential integrity -/

namespace Model

/-- A reference of an entity type: the columns of its foreign key beside those of the principal key in the table of
its target. -/
structure ReferenceOf (m : Model) (name : String) (required : Bool) (pairs : List (String × String)) (table : String) :
    Prop where
  declared : ∃ owner n foreignKey principalKey target, m.entity? name = some owner ∧ n ∈ owner.navigations ∧
    n.kind = .reference foreignKey principalKey required ∧ m.entity? n.target = some target ∧ target.table = table ∧
    keyPairs? owner target (foreignKey.zip principalKey) = some pairs

def rowOf (m : Model) (name : String) (columns : List String) (row : Row) : List (String × Option Value) :=
  (m.columnsOf name).map fun c => (c, (columnValue name columns row c).toOption)

def Present (v : Option Value) : Prop :=
  ∃ w, v = some w ∧ w ≠ .null

instance (v : Option Value) : Decidable (Present v) :=
  decidable_of_iff (v ≠ none ∧ v ≠ some .null) <| by
    unfold Present
    cases v <;> simp

/-- Referential integrity: a row refers to exactly one row by a foreign key that has no NULL in it. -/
def ReferencesIntact (m : Model) (db : Database) : Prop :=
  ∀ name required pairs table t u, m.ReferenceOf name required pairs u.name → m.StoredIn table name →
    db.find? table = some t → db.find? u.name = some u →
    ∀ r ∈ t.rows, (∀ p ∈ pairs, Present ((m.rowOf name t.columnNames r).lookup p.1).join) →
      (referencedRows (m.rowOf name t.columnNames r) pairs u).length = 1

/-- A row has values other than NULL in the columns of properties that are not nullable. -/
def ValuesPresent (m : Model) (db : Database) : Prop :=
  ∀ name e p table t, m.entity? name = some e → p ∈ e.properties → p.nullable = false → m.StoredIn table name →
    db.find? table = some t → ∀ r ∈ t.rows, Present (columnValue name t.columnNames r p.column).toOption

/-- References have foreign keys, the foreign key of a required one is not nullable, and the references of one name that
are read from one table have one target. -/
structure SoundReferences (m : Model) : Prop where
  keyed : ∀ name required pairs table, m.ReferenceOf name required pairs table → pairs ≠ []
  required : ∀ e ∈ m.entities, ∀ n ∈ e.navigations, ∀ foreignKey principalKey,
    n.kind = .reference foreignKey principalKey true → ∀ k ∈ foreignKey, ∀ p, e.property? k = some p → p.nullable = false
  targets : m.TargetsAgree

end Model

open Model

theorem equated_of_absent {v : Option Value} (absent : ¬ Present v) (w : Option Value) : equated v w = false := by
  rcases v with _ | v
  · rfl
  · have null : v = .null := by
      by_contra other
      exact absent ⟨v, rfl, other⟩
    subst null
    cases w <;> rfl

theorem referencedRows_of_absent {row : List (String × Option Value)} {pairs : List (String × String)}
    {p : String × String} (member : p ∈ pairs) (absent : ¬ Present (row.lookup p.1).join) (t : Table) :
    referencedRows row pairs t = [] := by
  refine List.filter_eq_nil_iff.2 fun r _ all => ?_
  have here : equated (row.lookup p.1).join _ = true := List.all_eq_true.1 all p member
  rw [equated_of_absent absent] at here
  cases here

theorem exists_property_of_keyPairs? {owner target : Entity} {keys pairs : List (String × String)}
    (h : keyPairs? owner target keys = some pairs) :
    ∀ p ∈ pairs, ∃ k ∈ keys, ∃ f, owner.property? k.1 = some f ∧ f.column = p.1 := by
  induction keys generalizing pairs with
  | nil =>
    obtain rfl := Option.some.inj h
    exact fun _ member => nomatch member
  | cons key rest ih =>
    obtain ⟨foreign, principal⟩ := key
    simp only [keyPairs?, Option.bind_eq_bind, Option.bind_eq_some_iff, Option.pure_def, Option.some.injEq] at h
    obtain ⟨f, has, p, -, others, found, rfl⟩ := h
    refine List.forall_mem_cons.2 ⟨⟨_, List.mem_cons_self, f, has, rfl⟩, fun q member => ?_⟩
    obtain ⟨k, inside, rest⟩ := ih found q member
    exact ⟨k, List.mem_cons_of_mem _ inside, rest⟩

section

variable {m : Model} {db : Database}

theorem lookup_rowOf {name : String} {required : Bool} {pairs : List (String × String)} {table : String}
    (reference : m.ReferenceOf name required pairs table) {p : String × String} (member : p ∈ pairs)
    (columns : List String) (r : Row) :
    ((m.rowOf name columns r).lookup p.1).join = (columnValue name columns r p.1).toOption := by
  obtain ⟨owner, n, foreignKey, principalKey, target, known, -, -, -, -, found⟩ := reference
  unfold rowOf
  rw [lookup_map_self _ _ (mem_columnsOf_of_keyPairs? known found p member), Option.join_some]

theorem present_of_required (sound : m.SoundReferences) (values : m.ValuesPresent db) {name : String}
    {pairs : List (String × String)} {target : String} (reference : m.ReferenceOf name true pairs target)
    {table : String} {t : Table} (stored : m.StoredIn table name) (found : db.find? table = some t) {r : Row}
    (member : r ∈ t.rows) : ∀ p ∈ pairs, Present ((m.rowOf name t.columnNames r).lookup p.1).join := by
  intro p inside
  rw [lookup_rowOf reference inside]
  obtain ⟨owner, n, foreignKey, principalKey, u, known, navigation, kind, -, -, keys⟩ := reference
  obtain ⟨k, key, f, property, same⟩ := exists_property_of_keyPairs? keys p inside
  have declared := sound.required owner (List.mem_of_find?_eq_some known) n navigation foreignKey principalKey kind
  have present := declared k.1 (List.of_mem_zip key).1 f property
  rw [← same]
  exact values name owner f table t known (List.mem_of_find?_eq_some property) present stored found r member

theorem absent_among_nulls {name : String} {required : Bool} {pairs : List (String × String)} {table : String}
    (reference : m.ReferenceOf name required pairs table) {p : String × String} (member : p ∈ pairs)
    (columns : List String) (width : Nat) :
    ¬ Present ((m.rowOf name columns (List.replicate width .null)).lookup p.1).join := by
  rintro ⟨v, value, other⟩
  rw [lookup_rowOf reference member] at value
  unfold columnValue at value
  split at value
  next => cases value
  next i _ =>
    split at value
    next w here =>
      obtain rfl := Option.some.inj value
      exact other (List.eq_of_mem_replicate (List.mem_of_getElem? here))
    next => cases value

end

namespace Execution

/-! ## One frame of every frame -/

section

variable {m : Model} {db : Database} {env : Environment} {f : Frame}

/-- Under a label, a frame shows a row of a table, or, where the label is that of an outer join, the row of NULLs. -/
def Seen (db : Database) (js : List (Join Select)) (f : Frame) (label table : String) : Prop :=
  ∃ t r, db.find? table = some t ∧ f.find? (fun b => b.label == label) = some ⟨label, t.columnNames, r⟩ ∧
    (r ∈ t.rows ∨ r = List.replicate t.columnNames.length .null ∧
      ∃ k ∈ js, k.kind = .leftOuter ∧ k.source.label = label)

/-- An inner join reads no row that an outer join has brought in. -/
def Uninterrupted (js : List (Join Select)) : Prop :=
  ∀ j ∈ js, ∀ k ∈ js, j.kind = .inner → k.kind = .leftOuter → ∀ e ∈ j.on, k.source.label ∉ e.sources

instance (js : List (Join Select)) : Decidable (Uninterrupted js) :=
  inferInstanceAs (Decidable (∀ j ∈ js, ∀ k ∈ js, j.kind = .inner → k.kind = .leftOuter → ∀ e ∈ j.on,
    k.source.label ∉ e.sources))

theorem eval_column_of_find {label : String} {columns : List String} {r : Row}
    (h : f.find? (fun b => b.label == label) = some ⟨label, columns, r⟩) (name column : String) :
    (eval env f (.column label column)).toOption = (columnValue name columns r column).toOption := by
  unfold eval
  rw [h]
  exact columnValue_toOption _ _ _ _ _

theorem matching_rows {owner target : Entity} {r : EntityView} {label : String} {keys pairs : List (String × String)}
    {on : Option Scalar} {kind : JoinKind} {u : Table} {columns : List String} {row : Row}
    (condition : referenceCondition owner target r label keys none = .ok on)
    (found : keyPairs? owner target keys = some pairs) (known : m.entity? r.entity = some owner)
    (plain : r.renames = [])
    (owned : f.find? (fun b => b.label == r.label) = some ⟨r.label, columns, row⟩) (new : label ∉ Frame.labels f)
    (evaluated : ∀ s ∈ u.rows, holdsOption env (f ++ [(RowSet.ofTable u label).visible s]) on =
      .ok (matchesRow env kind on (.ofTable u label) f s)) :
    u.rows.filter (matchesRow env kind on (.ofTable u label) f) =
      referencedRows (m.rowOf r.entity columns row) pairs u := by
  refine List.filter_congr fun s present => ?_
  obtain ⟨pairs', keep, found', none, same⟩ := holds_referenceCondition condition (evaluated s present)
  obtain rfl := Option.some.inj (found.symm.trans found')
  obtain rfl := Except.ok.inj none
  rw [same, Bool.true_and]
  refine all_congr fun p member => ?_
  -- the left side is a column of the owner, the right side one of the row that is joined
  have left : (eval env (f ++ [(RowSet.ofTable u label).visible s]) (r.column p.1)).toOption =
      ((m.rowOf r.entity columns row).lookup p.1).join := by
    have longer : (f ++ [(RowSet.ofTable u label).visible s]).find? (fun b => b.label == r.label) =
        some ⟨r.label, columns, row⟩ := by
      rw [List.find?_append, owned, Option.some_or]
    unfold rowOf EntityView.column
    rw [plain, lookup_map_self _ _ (mem_columnsOf_of_keyPairs? known found p member), Option.join_some]
    exact eval_column_of_find longer r.entity p.1
  have right : (eval env (f ++ [(RowSet.ofTable u label).visible s]) (.column label p.2)).toOption =
      (columnValue u.name u.columnNames s p.2).toOption :=
    (congrArg Except.toOption (eval_column_last (b := (RowSet.ofTable u label).visible s) new p.2)).trans
      (columnValue_toOption _ _ _ _ _)
  dsimp only
  rw [left, right]

theorem extensions_of_matching {kind : JoinKind} {on : Option Scalar} {rs : RowSet} :
    (∀ s, rs.rows.filter (matchesRow env kind on rs f) = [s] → extensions env kind on rs f = [f ++ [rs.visible s]]) ∧
      (rs.rows.filter (matchesRow env kind on rs f) = [] → kind = .leftOuter →
        extensions env kind on rs f = [f ++ [rs.absent]]) := by
  refine ⟨fun s only => ?_, fun none outer => ?_⟩
  · simp [extensions, only]
  · subst outer
    unfold extensions
    rw [none]
    rfl

theorem mem_sources_of_referenceCondition {owner target : Entity} {r : EntityView} {label : String}
    {keys pairs : List (String × String)} {before on : Option Scalar} (found : keyPairs? owner target keys = some pairs)
    (some : pairs ≠ [] ∨ ∃ e ∈ before, r.label ∈ e.sources)
    (h : referenceCondition owner target r label keys before = .ok on) : ∃ e ∈ on, r.label ∈ e.sources := by
  induction keys generalizing before pairs with
  | nil =>
    obtain rfl := Except.ok.inj h
    obtain rfl := Option.some.inj found
    exact some.resolve_left (· rfl)
  | cons key rest ih =>
    obtain ⟨foreign, principal⟩ := key
    obtain ⟨a, ownerHas, h⟩ := bind_eq_ok.1 h
    obtain ⟨b, targetHas, h⟩ := bind_eq_ok.1 h
    simp only [keyPairs?, Option.bind_eq_bind, Option.bind_eq_some_iff, Option.pure_def, Option.some.injEq] at found
    obtain ⟨_, -, _, -, others, found, rfl⟩ := found
    refine ih found (.inr ⟨_, rfl, ?_⟩) h
    cases before <;> simp [Scalar.both, Scalar.sources, EntityView.column]

/-- Where the owner of a reference is seen, a frame becomes one frame when the target joins, unless the reference is
required and the owner is what an outer join has brought in. -/
theorem extended_once (sound : m.SoundReferences) (values : m.ValuesPresent db) (intact : m.ReferencesIntact db)
    {js : List (Join Select)} {j : Join Select} {owner : Entity} {r : EntityView} {n : Navigation}
    (own : OwnJoin m owner r n j) (known : m.entity? r.entity = some owner) (navigation : n ∈ owner.navigations)
    (plain : r.renames = []) {table : String} (stored : m.StoredIn table r.entity) (seen : Seen db js f r.label table)
    (uninterrupted : Uninterrupted (js ++ [j])) (new : j.source.label ∉ Frame.labels f) {rs : RowSet}
    (rows : sourceRows db env j.source = .ok rs)
    (evaluated : ∀ s ∈ rs.rows, j.kind ≠ .cross →
      holdsOption env (f ++ [rs.visible s]) j.on = .ok (matchesRow env j.kind j.on rs f s)) :
    ∃ ref u s, j.source = .table ref ∧ db.find? ref.name = some u ∧
      extensions env j.kind j.on rs f = [f ++ [⟨ref.label, u.columnNames, s⟩]] ∧
      (s ∈ u.rows ∨ s = List.replicate u.columnNames.length .null ∧ j.kind = .leftOuter) := by
  have member : j ∈ js ++ [j] := List.mem_append_right _ (List.mem_singleton_self _)
  obtain ⟨foreignKey, principalKey, required, target, on, kind, targetKnown, condition, shape⟩ := own
  have joinKind : j.kind = if required then .inner else .leftOuter := congrArg Join.kind shape
  have joinSource : j.source = .table ⟨target.table, target.schema, j.source.label⟩ := congrArg Join.source shape
  obtain rfl : j.on = on := congrArg Join.on shape
  obtain ⟨pairs, keys⟩ := keyPairs?_of_referenceCondition condition
  rw [joinSource] at rows
  obtain ⟨u, found, rfl⟩ := sourceRows_table rows
  have named : u.name = target.table := Database.name_of_find? found
  have reference : m.ReferenceOf r.entity required pairs u.name :=
    ⟨owner, n, foreignKey, principalKey, target, known, navigation, kind, targetKnown, named.symm, keys⟩
  obtain ⟨t, row, tabled, shown, origin⟩ := seen
  have notCross : j.kind ≠ .cross := by
    rw [joinKind]
    split <;> simp
  have matching := matching_rows condition keys known plain shown new fun s present => evaluated s present notCross
  refine ⟨⟨target.table, target.schema, j.source.label⟩, u, ?_⟩
  -- either the foreign key is whole and has its row, or a part of it is NULL and an outer join gives NULLs
  by_cases complete : ∀ p ∈ pairs, Present ((m.rowOf r.entity t.columnNames row).lookup p.1).join
  · rcases origin with inside | ⟨rfl, -⟩
    · -- a foreign key without NULL has its row
      obtain ⟨s, only⟩ := List.length_eq_one_iff.1
        (intact r.entity required pairs table t u reference stored tabled (named ▸ found) row inside complete)
      have present : s ∈ u.rows := List.mem_of_mem_filter (only ▸ List.mem_singleton_self s)
      exact ⟨s, joinSource, found, extensions_of_matching.1 s (matching.trans only), .inl present⟩
    · -- among NULLs there is no foreign key
      obtain ⟨p, inside⟩ := List.exists_mem_of_ne_nil _ (sound.keyed _ _ _ _ reference)
      exact absurd (complete p inside) (absent_among_nulls reference inside _ _)
  · push Not at complete
    obtain ⟨p, inside, absent⟩ := complete
    have none := matching.trans (referencedRows_of_absent inside absent u)
    have outer : j.kind = .leftOuter := by
      cases required with
      | false => exact joinKind
      | true =>
        rcases origin with here | ⟨-, k, earlier, outer, same⟩
        · exact absurd (present_of_required sound values reference stored tabled here p inside) absent
        · -- the owner is what an outer join has brought in
          obtain ⟨e, there, reads⟩ :=
            mem_sources_of_referenceCondition keys (.inl (sound.keyed _ _ _ _ reference)) condition
          exact absurd (same ▸ reads)
            (uninterrupted j member k (List.mem_append_left _ earlier) joinKind outer e there)
    exact ⟨_, joinSource, found, extensions_of_matching.2 none outer, .inr ⟨rfl, outer⟩⟩

/-- Joins that follow references from a table leave one frame of each of its rows, if no required reference is read
behind an optional one. -/
theorem joined_once (sound : m.SoundReferences) (values : m.ValuesPresent db) (intact : m.ReferencesIntact db)
    {root : StoredTable} {js : List (Join Select)} (follows : FollowsReferences m root js)
    (distinct : (root.label :: joinLabels js).Nodup) (uninterrupted : Uninterrupted js) {t : Table}
    (stored : db.find? root.name = some t) {r : Row} (member : r ∈ t.rows) {frames : List Frame} {columns : List String}
    (h : joinAll db env js [[(RowSet.ofTable t root.label).visible r]] = .ok (frames, columns)) :
    ∃ f, frames = [f] ∧ [(RowSet.ofTable t root.label).visible r] <+: f ∧
      ∀ label table, ShowsTable root js label table → Seen db js f label table := by
  induction follows generalizing frames columns with
  | none =>
    obtain ⟨rfl, -⟩ := joinAll_nil_eq_ok.1 h
    refine ⟨_, rfl, List.prefix_refl _, ?_⟩
    rintro label table (⟨rfl, rfl⟩ | ⟨_, inside, -⟩)
    · exact ⟨t, r, stored, by simp [RowSet.visible, RowSet.ofTable], .inl member⟩
    · cases inside
  | @another js j owner v n before resides known navigation own ih =>
    obtain ⟨middle, seen, others, first, last, -⟩ := joinAll_append h
    have earlier : js ⊆ js ++ [j] := List.subset_append_left _ _
    rw [joinLabels_append, ← List.cons_append] at distinct
    obtain ⟨distinct', -, apart⟩ := List.nodup_append.1 distinct
    have uninterrupted' : Uninterrupted js := fun i here k there => uninterrupted i (earlier here) k (earlier there)
    -- the joins before this one have left a single frame, in which the owner is seen
    obtain ⟨f, rfl, start, shows⟩ := ih distinct' uninterrupted' first
    have labels : Frame.labels f = root.label :: joinLabels js := by
      obtain ⟨g, inside, rest, rfl, same⟩ := joinAll_mem first (List.mem_singleton_self f)
      obtain rfl := List.mem_singleton.1 inside
      rw [← same]
      rfl
    have new : j.source.label ∉ Frame.labels f := by
      rw [labels]
      exact fun old => apart _ old _ (List.mem_singleton_self _) rfl
    obtain ⟨rs, extended, _, rows, joined, tail, -⟩ := joinAll_cons_eq_ok.1 last
    obtain ⟨rfl, -⟩ := joinAll_nil_eq_ok.1 tail
    obtain ⟨rfl, evaluated⟩ := extendFrames_eq_ok joined
    obtain ⟨plain, table, shown, inTable⟩ := resides
    obtain ⟨ref, u, s, source, found, single, origin⟩ := extended_once sound values intact own known navigation plain
      inTable (shows _ _ shown) uninterrupted new rows (evaluated f (List.mem_singleton_self f))
    refine ⟨f ++ [⟨ref.label, u.columnNames, s⟩], by simpa using single, start.trans (List.prefix_append _ _), ?_⟩
    -- the new row stands behind the others and hides none of them
    have old : ∀ label table, ShowsTable root js label table →
        Seen db (js ++ [j]) (f ++ [⟨ref.label, u.columnNames, s⟩]) label table := by
      intro label table here
      obtain ⟨t', r', found', shown', origin'⟩ := shows label table here
      refine ⟨t', r', found', by rw [List.find?_append, shown', Option.some_or], origin'.imp_right ?_⟩
      exact And.imp_right fun ⟨k, inside, rest⟩ => ⟨k, earlier inside, rest⟩
    rintro label table (here | ⟨k, inside, ref', source', rfl, rfl⟩)
    · exact old label table (.inl here)
    · rcases List.mem_append.1 inside with here | there
      · exact old _ _ (.inr ⟨k, here, ref', source', rfl, rfl⟩)
      · obtain rfl := List.mem_singleton.1 there
        obtain rfl := RowSource.table.inj (source.symm.trans source')
        have unseen : f.find? (fun b => b.label == ref.label) = none := by
          refine List.find?_eq_none.2 fun b present => ?_
          have other : b.label ≠ ref.label := fun same => new <| by
            rw [source]
            exact List.mem_map.2 ⟨b, present, same⟩
          simpa using other
        refine ⟨u, s, found, by rw [List.find?_append, unseen]; simp, origin.imp_right (And.imp_right fun outer => ?_)⟩
        exact ⟨k, inside, outer, by rw [source]; rfl⟩

end

end Execution

end Setwise
