import Setwise.Planning.Expression
import Setwise.Proofs.Conditions
import Setwise.Proofs.Exposure

/-!
Members of elements, and the joins that follow references.

`Element.member` says what a member of an element is: a property is a column of the entity, an owned entity
shares the row, and a reference leads to the row of the target table whose principal key equals the foreign
key, or to NULLs where there is none. A join on the foreign key of an entity shows exactly that row beside
the entity (`reached_of_ownJoin`).
-/

set_option autoImplicit false

namespace Setwise

open Client Relational Execution Planning

/-! ## Members of elements -/

def Element.ofRow (m : Model) (type : String) (columns : List String) (row : Row) : Element :=
  .entity type ((m.columnsOf type).map fun c => (c, (columnValue type columns row c).toOption))

def equated (a b : Option Value) : Bool :=
  match a, b with
  | some v, some w => v.equates w
  | _, _ => false

def keyPairs? (owner target : Entity) : List (String × String) → Option (List (String × String))
  | [] => some []
  | (foreign, principal) :: rest => do
    let f ← owner.property? foreign
    let p ← target.property? principal
    let rest ← keyPairs? owner target rest
    return (f.column, p.column) :: rest

def referencedRows (row : List (String × Option Value)) (pairs : List (String × String)) (t : Table) :
    List Row :=
  t.rows.filter fun r => pairs.all fun (foreign, principal) =>
    equated (row.lookup foreign).join (columnValue t.name t.columnNames r principal).toOption

def Element.referenced (m : Model) (db : Database) (owner : Entity) (row : List (String × Option Value))
    (target : String) (foreignKey principalKey : List String) : Option Element := do
  let e ← m.entity? target
  let t ← db.find? e.table
  let pairs ← keyPairs? owner e (foreignKey.zip principalKey)
  match referencedRows row pairs t with
  | [] => some (.ofRow m target t.columnNames (List.replicate t.columnNames.length .null))
  | [r] => some (.ofRow m target t.columnNames r)
  | _ => none

def Element.member (m : Model) (db : Database) (name : String) : Element → Option Element
  | .entity type row => do
    let e ← m.entity? type
    match e.property? name with
    | some p => some (.scalar (row.lookup p.column).join)
    | none => do
      let n ← e.navigation? name
      match n.kind with
      | .owned => do
        let columns ← (m.columnsOf n.target).mapM fun c => (row.lookup c).map fun v => (c, v)
        return .entity n.target columns
      | .reference foreignKey principalKey _ => referenced m db e row n.target foreignKey principalKey
  | .record fields => fields.lookup name
  | .group key => if name = "Key" then some key else none
  | .scalar _ => none

/-- The foreign key of an entity for one of its references. -/
def Element.foreignKey (m : Model) (name : String) : Element → Option (List (Option Value))
  | .entity type row => do
    let e ← m.entity? type
    match e.property? name with
    | some _ => none
    | none => do
      let n ← e.navigation? name
      match n.kind with
      | .owned => none
      | .reference foreignKey principalKey _ => do
        let target ← m.entity? n.target
        let pairs ← keyPairs? e target (foreignKey.zip principalKey)
        return pairs.map fun p => (row.lookup p.1).join
  | .record _ | .group _ | .scalar _ => none

/-- A member of an element leads to one place: at most one row matches a foreign key, and an entity does
not own itself in the end. -/
def Element.LeadsToOne (m : Model) (db : Database) (name : String) : Element → Prop
  | .entity type row => ∀ e n, m.entity? type = some e → e.property? name = none →
    e.navigation? name = some n →
    match n.kind with
    | .owned => (m.columns? e).isSome
    | .reference foreignKey principalKey _ => ∀ target t pairs, m.entity? n.target = some target →
      db.find? target.table = some t → keyPairs? e target (foreignKey.zip principalKey) = some pairs →
        (referencedRows row pairs t).length ≤ 1
  | .record _ | .group _ | .scalar _ => True

def IsChain : Expr → Prop
  | .param _ => True
  | .member of _ => IsChain of
  | _ => False

/-- What a chain of members on a lambda parameter reads. -/
def reading (m : Model) (db : Database) (scope : List (String × Element)) : Expr → Option Element
  | .param x => scope.lookup x
  | .member of name => do
    let el ← reading m db scope of
    el.member m db name
  | _ => none

def LeadsToOne (m : Model) (db : Database) (scope : List (String × Element)) : Expr → Prop
  | .member of name =>
    LeadsToOne m db scope of ∧ ∀ el, reading m db scope of = some el → el.LeadsToOne m db name
  | _ => True

namespace Planning

/-! ## Joins on foreign keys -/

def OwnJoin (m : Model) (owner : Entity) (r : EntityView) (n : Navigation) (j : Join Select) : Prop :=
  ∃ foreignKey principalKey required target on,
    n.kind = .reference foreignKey principalKey required ∧ m.entity? n.target = some target ∧
      referenceCondition owner target r j.source.label (foreignKey.zip principalKey) none = .ok on ∧
      j = referenceJoin target j.source.label required on

theorem property_eq_ok {e : Entity} {name : String} {p : Property} :
    (lookUp (Model.property e name) : Except Error Property) = .ok p ↔ e.property? name = some p := by
  rw [lookUp_eq_ok]
  unfold Model.property Entity.property
  cases e.property? name <;> simp

theorem keyPairs?_of_referenceCondition {owner target : Entity} {r : EntityView} {label : String}
    {keys : List (String × String)} {before on : Option Scalar}
    (h : referenceCondition owner target r label keys before = .ok on) :
    ∃ pairs, keyPairs? owner target keys = some pairs := by
  induction keys generalizing before with
  | nil => exact ⟨[], rfl⟩
  | cons key rest ih =>
    obtain ⟨foreign, principal⟩ := key
    obtain ⟨f, ownerHas, h⟩ := bind_eq_ok.1 h
    obtain ⟨p, targetHas, h⟩ := bind_eq_ok.1 h
    obtain ⟨pairs, others⟩ := ih h
    exact ⟨(f.column, p.column) :: pairs, by
      simp [keyPairs?, property_eq_ok.1 ownerHas, property_eq_ok.1 targetHas, others]⟩

def leftSides : Scalar → List Scalar
  | .binary l .and r => leftSides l ++ leftSides r
  | .binary l .equal _ => [l]
  | _ => []

theorem leftSides_referenceCondition {owner target : Entity} {r : EntityView} {label : String}
    {keys pairs : List (String × String)} {before on : Option Scalar}
    (found : keyPairs? owner target keys = some pairs)
    (h : referenceCondition owner target r label keys before = .ok on) :
    (on.map leftSides).getD [] = (before.map leftSides).getD [] ++ pairs.map fun p => r.column p.1 := by
  induction keys generalizing before pairs with
  | nil =>
    obtain rfl := Except.ok.inj h
    obtain rfl := Option.some.inj found
    simp
  | cons key rest ih =>
    obtain ⟨foreign, principal⟩ := key
    obtain ⟨f, ownerHas, h⟩ := bind_eq_ok.1 h
    obtain ⟨p, targetHas, h⟩ := bind_eq_ok.1 h
    simp only [keyPairs?, property_eq_ok.1 ownerHas, property_eq_ok.1 targetHas, Option.bind_eq_bind,
      Option.bind_some, Option.bind_eq_some_iff, Option.pure_def, Option.some.injEq] at found
    obtain ⟨others, found, rfl⟩ := found
    rw [ih found h]
    cases before <;> simp [Scalar.both, leftSides]

theorem holds_referenceCondition {env : Environment} {g : Frame} {owner target : Entity} {r : EntityView}
    {label : String} {keys : List (String × String)} {before on : Option Scalar} {keep : Bool}
    (h : referenceCondition owner target r label keys before = .ok on)
    (value : holdsOption env g on = .ok keep) :
    ∃ pairs first, keyPairs? owner target keys = some pairs ∧ holdsOption env g before = .ok first ∧
      keep = (first && pairs.all fun (foreign, principal) =>
        equated (eval env g (r.column foreign)).toOption (eval env g (.column label principal)).toOption) := by
  induction keys generalizing before with
  | nil =>
    obtain rfl := Except.ok.inj h
    exact ⟨[], keep, rfl, value, by simp⟩
  | cons key rest ih =>
    obtain ⟨foreign, principal⟩ := key
    obtain ⟨f, ownerHas, h⟩ := bind_eq_ok.1 h
    obtain ⟨p, targetHas, h⟩ := bind_eq_ok.1 h
    obtain ⟨pairs, both, others, conjunction, rfl⟩ := ih h
    obtain ⟨first, here, old, equation, rfl⟩ := holds_both conjunction
    obtain ⟨v, w, left, right, rfl⟩ := holds_equation equation
    refine ⟨(f.column, p.column) :: pairs, first, ?_, old, ?_⟩
    · simp [keyPairs?, property_eq_ok.1 ownerHas, property_eq_ok.1 targetHas, others]
    · simp [left, right, equated, Except.toOption, Bool.and_assoc]

theorem all_congr {α : Type} {l : List α} {p q : α → Bool} (h : ∀ a ∈ l, p a = q a) : l.all p = l.all q := by
  rw [Bool.eq_iff_iff, List.all_eq_true, List.all_eq_true]
  exact forall_congr' fun a => forall_congr' fun member => by rw [h a member]

theorem columnValue_toOption (a b : String) (columns : List String) (values : Row) (name : String) :
    (columnValue a columns values name).toOption = (columnValue b columns values name).toOption := by
  unfold columnValue
  split
  next => rfl
  next => split <;> rfl

theorem element_joined (m : Model) (env : Environment) (entity : String) {f : Frame} {b : Visible}
    (new : b.label ∉ Frame.labels f) (rest : Frame) :
    (Shape.entity { entity, label := b.label }).element m env (f ++ [b] ++ rest) =
      .ofRow m entity b.columns b.values := by
  have same (c : String) : (eval env (f ++ [b] ++ rest) (.column b.label c)).toOption =
      (columnValue entity b.columns b.values c).toOption := by
    rw [eval_append (by simp [Scalar.sources, Frame.labels]), eval_column_last new]
    exact columnValue_toOption _ _ _ _ _
  simp only [Shape.element, Element.ofRow, Element.entity.injEq, true_and]
  exact List.map_congr_left fun c _ => congrArg (Prod.mk c) (same c)

theorem lookup_map_self {β : Type} (names : List String) (value : String → β) {name : String}
    (h : name ∈ names) : (names.map fun n => (n, value n)).lookup name = some (value name) := by
  induction names with
  | nil => cases h
  | cons n rest ih =>
    rw [List.map_cons, List.lookup_cons]
    by_cases same : name = n
    · simp [same]
    · rw [beq_false_of_ne same]
      exact ih ((List.mem_cons.1 h).resolve_left same)

theorem mem_columns {m : Model} {e : Entity} {p : Property} (member : p ∈ e.properties) : p ∈ m.columns e := by
  unfold Model.columns
  cases columns : m.columns? e with
  | none => exact member
  | some stored =>
    unfold Model.columns? Model.columnsWithin? at columns
    obtain ⟨embedded, -, same⟩ := Option.bind_eq_some_iff.1 columns
    obtain rfl := Option.some.inj same
    exact List.mem_append_left _ member

theorem mem_columnsOf {m : Model} {type name : String} {e : Entity} {p : Property}
    (entity : m.entity? type = some e) (property : e.property? name = some p) :
    p.column ∈ m.columnsOf type := by
  simp only [Model.columnsOf, entity]
  exact List.mem_map_of_mem (mem_columns (List.mem_of_find?_eq_some property))

theorem mapM_imp {α β : Type} {f g : α → Option β} (imp : ∀ a b, f a = some b → g a = some b) {l : List α}
    {bs : List β} (h : l.mapM f = some bs) : l.mapM g = some bs := by
  induction l generalizing bs with
  | nil => exact h
  | cons a rest ih =>
    simp only [List.mapM_cons, Option.bind_eq_bind, Option.bind_eq_some_iff, Option.pure_def] at h ⊢
    obtain ⟨b, here, others, later, same⟩ := h
    exact ⟨b, imp a b here, others, ih later, same⟩

theorem mem_of_mapM_eq_some {α β : Type} {f : α → Option β} {l : List α} {bs : List β}
    (h : l.mapM f = some bs) {a : α} (member : a ∈ l) : ∃ b ∈ bs, f a = some b := by
  induction l generalizing bs with
  | nil => cases member
  | cons c rest ih =>
    simp only [List.mapM_cons, Option.bind_eq_bind, Option.bind_eq_some_iff, Option.pure_def,
      Option.some.injEq] at h
    obtain ⟨b, here, others, later, rfl⟩ := h
    rcases List.mem_cons.1 member with rfl | member
    · exact ⟨b, List.mem_cons_self, here⟩
    · obtain ⟨b', inside, found⟩ := ih later member
      exact ⟨b', List.mem_cons_of_mem _ inside, found⟩

theorem columnsWithin?_succ {m : Model} {fuel : Nat} {e : Entity} {stored : List Property}
    (h : m.columnsWithin? fuel e = some stored) : m.columnsWithin? (fuel + 1) e = some stored := by
  induction fuel generalizing e stored with
  | zero => cases h
  | succ fuel ih =>
    obtain ⟨embedded, all, same⟩ := Option.bind_eq_some_iff.1 h
    refine Option.bind_eq_some_iff.2 ⟨embedded, ?_, same⟩
    refine mapM_imp (fun n columns here => ?_) all
    split at here
    next owned =>
      rw [if_pos owned]
      split at here
      next t target => exact ih here
      next => exact here
    next embeds => rwa [if_neg embeds]

theorem columns_owned {m : Model} {e t : Entity} {n : Navigation} (navigation : n ∈ e.navigations)
    (owned : n.isOwned = true) (target : m.entity? n.target = some t) (stored : (m.columns? e).isSome) :
    m.columns t ⊆ m.columns e := by
  obtain ⟨all, columns⟩ := Option.isSome_iff_exists.1 stored
  have whole : m.columns e = all := by rw [Model.columns, columns, Option.getD_some]
  unfold Model.columns? Model.columnsWithin? at columns
  obtain ⟨embedded, each, same⟩ := Option.bind_eq_some_iff.1 columns
  obtain rfl := Option.some.inj same
  obtain ⟨part, inside, here⟩ := mem_of_mapM_eq_some each navigation
  rw [if_pos owned, target] at here
  have own : m.columns t = part := by
    rw [Model.columns, Model.columns?, columnsWithin?_succ here, Option.getD_some]
  rw [own, whole]
  exact fun p member => List.mem_append_right _ (List.mem_flatten.2 ⟨part, inside, member⟩)

theorem columnsOf_owned {m : Model} {type : String} {e : Entity} {n : Navigation}
    (entity : m.entity? type = some e) (navigation : n ∈ e.navigations) (owned : n.isOwned = true)
    (stored : (m.columns? e).isSome) : m.columnsOf n.target ⊆ m.columnsOf type := by
  unfold Model.columnsOf
  rw [entity]
  cases target : m.entity? n.target with
  | none => exact List.nil_subset _
  | some t => exact List.map_subset _ (columns_owned navigation owned target stored)

theorem mem_columnsOf_of_keyPairs? {m : Model} {type : String} {owner target : Entity}
    {keys pairs : List (String × String)} (entity : m.entity? type = some owner)
    (h : keyPairs? owner target keys = some pairs) : ∀ p ∈ pairs, p.1 ∈ m.columnsOf type := by
  induction keys generalizing pairs with
  | nil =>
    obtain rfl := Option.some.inj h
    exact fun _ h => nomatch h
  | cons key rest ih =>
    obtain ⟨foreign, principal⟩ := key
    simp only [keyPairs?, Option.bind_eq_bind, Option.bind_eq_some_iff, Option.pure_def,
      Option.some.injEq] at h
    obtain ⟨f, has, p, -, others, found, rfl⟩ := h
    exact List.forall_mem_cons.2 ⟨mem_columnsOf entity has, ih found⟩

theorem mapM_lookup_self {β : Type} {names cs : List String} (value : String → β) (h : cs ⊆ names) :
    (cs.mapM fun c => ((names.map fun n => (n, value n)).lookup c).map fun v => (c, v)) =
      some (cs.map fun c => (c, value c)) := by
  induction cs with
  | nil => rfl
  | cons c rest ih =>
    obtain ⟨here, later⟩ := List.cons_subset.1 h
    simp [List.mapM_cons, lookup_map_self names value here, ih later]

theorem ownedPart_reads {m : Model} {db : Database} {type name : String} {e : Entity} {n : Navigation}
    {value : String → Option Value} (entity : m.entity? type = some e) (missing : e.property? name = none)
    (navigation : e.navigation? name = some n) (owned : n.isOwned = true)
    (single : (Element.entity type ((m.columnsOf type).map fun c => (c, value c))).LeadsToOne m db name) :
    (Element.entity type ((m.columnsOf type).map fun c => (c, value c))).member m db name =
      some (.entity n.target ((m.columnsOf n.target).map fun c => (c, value c))) := by
  have kind := Navigation.kind_of_owned owned
  have stored : (m.columns? e).isSome := by
    have := single e n entity missing navigation
    rwa [kind] at this
  have inside := columnsOf_owned entity (List.mem_of_find?_eq_some navigation) owned stored
  simp only [Element.member, entity, missing, navigation, kind, Option.bind_eq_bind, Option.bind_some,
    mapM_lookup_self _ inside]
  rfl

theorem staticMember?_reads {m : Model} {db : Database} {env : Environment} {g : Frame} {s t : Shape}
    {name : String} (h : s.staticMember? m name = some t)
    (single : (s.element m env g).LeadsToOne m db name) :
    (s.element m env g).member m db name = some (t.element m env g) := by
  cases Shape.StaticMember.of_found h with
  | property entity property =>
    simp only [Shape.element, Element.member, entity, property, Option.bind_eq_bind, Option.bind_some,
      lookup_map_self _ _ (mem_columnsOf entity property), Option.join_some]
  | part entity missing navigation owned => exact ownedPart_reads entity missing navigation owned single
  | field found => simp [Shape.element, Element.member, Shape.lookup_fieldElements, found]
  | key named => simp [Shape.element, Element.member, named]
  | proposed entity property inserted =>
    simp only [Shape.element, Element.member, entity, property, Option.bind_eq_bind, Option.bind_some,
      lookup_map_self _ _ (mem_columnsOf entity property), if_pos inserted, Option.join_some]
  | proposedPart entity missing navigation owned => exact ownedPart_reads entity missing navigation owned single

def EntityView.row (m : Model) (env : Environment) (f : Frame) (r : EntityView) : List (String × Option Value) :=
  (m.columnsOf r.entity).map fun c => (c, (eval env f (r.column c)).toOption)

theorem EntityView.row_append {m : Model} {env : Environment} {f : Frame} {r : EntityView}
    (visible : r.label ∈ Frame.labels f) (g : Frame) : r.row m env (f ++ g) = r.row m env f := by
  unfold row
  refine List.map_congr_left fun c _ => ?_
  rw [eval_append (by simpa [EntityView.column, Scalar.sources] using visible)]

theorem matching_referenced {m : Model} {env : Environment} {f : Frame} {owner target : Entity} {r : EntityView}
    {label : String} {keys pairs : List (String × String)} {on : Option Scalar} {kind : JoinKind} {t : Table}
    (condition : referenceCondition owner target r label keys none = .ok on)
    (found : keyPairs? owner target keys = some pairs) (entity : m.entity? r.entity = some owner)
    (visible : r.label ∈ Frame.labels f) (new : label ∉ Frame.labels f)
    (evaluated : ∀ s ∈ t.rows, holdsOption env (f ++ [(RowSet.ofTable t label).visible s]) on =
      .ok (matchesRow env kind on (.ofTable t label) f s)) :
    t.rows.filter (matchesRow env kind on (.ofTable t label) f) = referencedRows (r.row m env f) pairs t := by
  refine List.filter_congr fun s present => ?_
  obtain ⟨pairs', keep, found', none, same⟩ := holds_referenceCondition condition (evaluated s present)
  obtain rfl := Option.some.inj (found.symm.trans found')
  obtain rfl := Except.ok.inj none
  rw [same, Bool.true_and]
  refine all_congr fun p member => ?_
  dsimp only
  rw [EntityView.row, lookup_map_self _ _ (mem_columnsOf_of_keyPairs? entity found p member), Option.join_some,
    eval_append (by simpa [EntityView.column, Scalar.sources] using visible)]
  congr 1
  exact (congrArg Except.toOption (eval_column_last (b := (RowSet.ofTable t label).visible s) new _)).trans
    (columnValue_toOption _ _ _ _ _)

/-- Beside an entity, a join on its foreign key shows a row that the entity refers to, or NULLs where there is none and
the reference is not required. -/
theorem joined_of_ownJoin {m : Model} {db : Database} {env : Environment} {s : Select}
    (distinct : s.labels.Nodup) {before after : List (Join Select)} {j : Join Select}
    (split : s.joins = before ++ j :: after) {owner : Entity} {r : EntityView} {n : Navigation}
    (own : OwnJoin m owner r n j) (visible : r.label ∈ s.source.label :: joinLabels before)
    (entity : m.entity? r.entity = some owner) {frames : List Frame}
    (all : joinedFrames db env s = .ok frames) {g : Frame} (member : g ∈ frames) :
    ∃ foreignKey principalKey required target t pairs f row rest,
      n.kind = .reference foreignKey principalKey required ∧ m.entity? n.target = some target ∧
      db.find? target.table = some t ∧ keyPairs? owner target (foreignKey.zip principalKey) = some pairs ∧
      j.source.label ∉ Frame.labels f ∧ g = f ++ [⟨j.source.label, t.columnNames, row⟩] ++ rest ∧
      (row ∈ referencedRows (r.row m env g) pairs t ∨ required = false ∧
        referencedRows (r.row m env g) pairs t = [] ∧ row = List.replicate t.columnNames.length .null) := by
  obtain ⟨foreignKey, principalKey, required, target, on, kind, known, condition, shape⟩ := own
  have joinKind : j.kind = if required then .inner else .leftOuter := congrArg Join.kind shape
  have joinSource : j.source = .table ⟨target.table, target.schema, j.source.label⟩ :=
    congrArg Join.source shape
  obtain rfl : j.on = on := congrArg Join.on shape
  -- the frame before the join, the row that joins it, and the rows behind
  obtain ⟨first, columns, rows, joined⟩ := joinedFrames_eq_ok.1 all
  rw [split] at joined
  obtain ⟨rs, f, extension, rest, middle, seen, targetRows, joinedBefore, inside, extended, rfl, evaluated⟩ :=
    joinAll_split joined member
  have labels : Frame.labels f = s.source.label :: joinLabels before :=
    labels_of_joinedFrames (s := { source := s.source, joins := before })
      (joinedFrames_eq_ok.2 ⟨first, seen, rows, joinedBefore⟩) inside
  rw [← labels] at visible
  have new : j.source.label ∉ Frame.labels f := by
    rw [labels]
    have apart := distinct
    rw [Select.labels, split, joinLabels_append, ← List.cons_append] at apart
    exact fun old => (List.nodup_append.1 apart).2.2 _ old _ List.mem_cons_self rfl
  rw [joinSource] at targetRows
  obtain ⟨t, stored, rfl⟩ := sourceRows_table targetRows
  obtain ⟨pairs, found⟩ := keyPairs?_of_referenceCondition condition
  have matching := matching_referenced condition found entity visible new fun s present =>
    evaluated s present (by rw [joinKind]; split <;> simp)
  have refers (h : Frame) : r.row m env (f ++ h) = r.row m env f := EntityView.row_append visible h
  rcases mem_extensions.1 extended with ⟨row, present, kept, rfl⟩ | ⟨outer, alone, rfl⟩
  · refine ⟨foreignKey, principalKey, required, target, t, pairs, f, row, rest, kind, known, stored, found, new, rfl,
      .inl ?_⟩
    rw [List.append_assoc, refers, ← matching]
    exact List.mem_filter.2 ⟨present, kept⟩
  · refine ⟨foreignKey, principalKey, required, target, t, pairs, f, _, rest, kind, known, stored, found, new, rfl,
      .inr ⟨?_, ?_, rfl⟩⟩
    · cases required with
      | false => rfl
      | true => exact absurd (joinKind.symm.trans outer) (by decide)
    · rw [List.append_assoc, refers, ← matching, List.filter_eq_nil_iff]
      exact fun row present => by simp [alone row present]

/-- Beside an entity, a join on its foreign key shows the entity that the reference leads to. -/
theorem reached_of_ownJoin {m : Model} {db : Database} {env : Environment} {s : Select}
    (distinct : s.labels.Nodup) {before after : List (Join Select)} {j : Join Select}
    (split : s.joins = before ++ j :: after) {owner : Entity} {r : EntityView} {n : Navigation}
    (own : OwnJoin m owner r n j) (visible : r.label ∈ s.source.label :: joinLabels before)
    (entity : m.entity? r.entity = some owner) {frames : List Frame}
    (all : joinedFrames db env s = .ok frames) {g : Frame} (member : g ∈ frames)
    {foreignKey principalKey : List String} {required : Bool}
    (kind : n.kind = .reference foreignKey principalKey required) {row : List (String × Option Value)}
    (view : row = (m.columnsOf r.entity).map fun c => (c, (eval env g (r.column c)).toOption))
    (single : ∀ target t pairs, m.entity? n.target = some target → db.find? target.table = some t →
      keyPairs? owner target (foreignKey.zip principalKey) = some pairs →
        (referencedRows row pairs t).length ≤ 1) :
    Element.referenced m db owner row n.target foreignKey principalKey =
      some ((Shape.entity { entity := n.target, label := j.source.label }).element m env g) := by
  obtain ⟨_, _, _, target, t, pairs, f, joined, rest, kind', known, stored, found, new, split, rows⟩ :=
    joined_of_ownJoin distinct split own visible entity all member
  obtain ⟨rfl, rfl, rfl⟩ := NavigationKind.reference.inj (kind.symm.trans kind')
  obtain rfl : row = r.row m env g := view
  have single := single target t pairs known stored found
  have shown := element_joined m env n.target (b := ⟨j.source.label, t.columnNames, joined⟩) new rest
  simp only [Element.referenced, known, stored, found, Option.bind_eq_bind, Option.bind_some]
  -- the row joined is the one that matches, or NULLs where none does
  rcases rows with here | ⟨-, none, rfl⟩
  · obtain ⟨only, one⟩ : ∃ only, referencedRows (r.row m env g) pairs t = [only] :=
      List.length_eq_one_iff.1 (by have := List.length_pos_of_mem here; omega)
    rw [one] at here ⊢
    obtain rfl := List.mem_singleton.1 here
    rw [split]
    exact congrArg some shown.symm
  · rw [none, split]
    exact congrArg some shown.symm

end Planning

end Setwise
