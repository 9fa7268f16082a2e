import Setwise.Proofs.AppliedOperators
import Setwise.Proofs.Fallbacks
import Setwise.Proofs.PlannedMutations
import Setwise.Proofs.VisibleQueries

/-!
Grouped selects read their keys.

Behind grouping, a lambda sees the key of a group and nothing else, and what it makes of the key is made of the
expressions that the select groups by (`carries_keys`). So groups are filtered and ordered, and values projected from
them, by their keys alone, in every select of a planned query or mutation (`grouped_selects_read_keys`).
-/

set_option autoImplicit false

namespace Setwise

namespace Relational

/-! ## Selects that read their keys -/

/-- The expression is made from the given ones, constants and parameters. -/
inductive Scalar.MadeOf (keys : List Scalar) : Scalar → Prop
  | key {e : Scalar} (member : e ∈ keys) : MadeOf keys e
  | constant (v : Value) : MadeOf keys (.constant v)
  | parameter (name : String) : MadeOf keys (.parameter name)
  | binary {l r : Scalar} (op : Operator) (left : MadeOf keys l) (right : MadeOf keys r) : MadeOf keys (.binary l op r)
  | not {e : Scalar} (operand : MadeOf keys e) : MadeOf keys (.not e)
  | isNull {e : Scalar} (operand : MadeOf keys e) : MadeOf keys (.isNull e)
  | isNotNull {e : Scalar} (operand : MadeOf keys e) : MadeOf keys (.isNotNull e)
  | case {test a b : Scalar} (tested : MadeOf keys test) (left : MadeOf keys a) (right : MadeOf keys b) :
      MadeOf keys (.case test a b)

/-- The filter on groups, the ordering and the given values are made of what the select groups by. -/
structure Select.ReadsKeys (s : Select) (values : List Projection) : Prop where
  having : ∀ e ∈ s.having, e.MadeOf s.groupBy
  ordering : ∀ item ∈ s.orderBy, item.key.MadeOf s.groupBy
  values : ∀ p ∈ values, p.value.MadeOf s.groupBy

mutual

/-- A select reads its keys if it groups, and so do the selects below it. -/
inductive Select.KeysOnly : Select → Prop
  | intro {s : Select} (source : Source.KeysOnly s.source) (joins : ∀ j ∈ s.joins, Source.KeysOnly j.source)
      (union : ∀ u ∈ s.union, Select.KeysOnly u) (own : s.groupBy ≠ [] → s.ReadsKeys s.projection) :
      Select.KeysOnly s

/-- The selects below a source read their keys if they group. -/
inductive Source.KeysOnly : Source → Prop
  | table (t : StoredTable) : Source.KeysOnly (.table t)
  | literal (v : LiteralTable) : Source.KeysOnly (.literal v)
  | subquery {s : Select} (label : String) (inner : Select.KeysOnly s) : Source.KeysOnly (.subquery s label)

end

/-- The selects below some joins read their keys if they group. -/
def Join.KeysOnly (js : List (Join Select)) : Prop :=
  ∀ j ∈ js, Source.KeysOnly j.source

/-- The selects of a statement read their keys if they group; the values that an upsert inserts are read from its
source. -/
def Statement.KeysOnly : Statement → Prop
  | .delete _ _ joins | .update _ _ _ joins => Join.KeysOnly joins
  | .insertInto _ _ select => select.KeysOnly
  | .upsert _ source inserted .. => ∀ s ∈ source, s.KeysOnly ∧ (s.groupBy ≠ [] → s.ReadsKeys inserted)
  | .merge _ source .. => Source.KeysOnly source
  | .truncate _ | .noop => True

/-- The selects of a block read their keys if they group. -/
def Block.KeysOnly : Block → Prop
  | .select s => s.KeysOnly
  | .affected s => s.KeysOnly

section

variable {keys : List Scalar} {s t : Select} {values : List Projection}

theorem Select.ReadsKeys.of_clauses (reads : s.ReadsKeys values) (groupBy : t.groupBy = s.groupBy)
    (having : t.having = s.having) (orderBy : t.orderBy = s.orderBy) : t.ReadsKeys values := by
  constructor <;> rw [groupBy]
  · exact having ▸ reads.having
  · exact orderBy ▸ reads.ordering
  · exact reads.values

theorem Scalar.MadeOf.both {before : Option Scalar} {e : Scalar} (first : ∀ c ∈ before, c.MadeOf keys)
    (second : e.MadeOf keys) : (Scalar.both before e).MadeOf keys := by
  cases before with
  | none => exact second
  | some c => exact .binary .and (first c rfl) second

end

end Relational

namespace Planning

open Client Relational

/-! ## Shapes made of keys -/

/-- Whatever can be read of a shape is made of the given expressions. No entity can be read from them. -/
inductive Shape.MadeOf (keys : List Scalar) : Shape → Prop
  | scalar {e : Scalar} (made : e.MadeOf keys) : MadeOf keys (.scalar e)
  | record {fields : List (String × Shape)} (made : ∀ f ∈ fields, MadeOf keys f.2) : MadeOf keys (.record fields)
  | grouping {key : Shape} (made : MadeOf keys key) : MadeOf keys (.grouping key)

section

variable {m : Model} {keys : List Scalar} {subject : Subject}

theorem Shape.MadeOf.of_scalar {e : Scalar} (made : (Shape.scalar e).MadeOf keys) : e.MadeOf keys := by
  cases made with
  | scalar made => exact made

theorem Shape.MadeOf.fields {fields : List (String × Shape)} (made : (Shape.record fields).MadeOf keys) :
    ∀ f ∈ fields, f.2.MadeOf keys := by
  cases made with
  | record made => exact made

theorem Shape.MadeOf.of_key {key : Shape} (made : (Shape.grouping key).MadeOf keys) : key.MadeOf keys := by
  cases made with
  | grouping made => exact made

theorem Shape.madeOf_iff_scalars {s : Shape} {es : List Scalar} (h : s.scalars subject = .ok es) :
    s.MadeOf keys ↔ ∀ e ∈ es, e.MadeOf keys := by
  induction s using Shape.induction generalizing es with
  | scalar e =>
    obtain rfl := Except.ok.inj h
    exact ⟨fun made => List.forall_mem_singleton.2 made.of_scalar, fun made => .scalar (made e List.mem_cons_self)⟩
  | record fields ih =>
    have split : (∀ f ∈ fields, f.2.MadeOf keys) ↔ ∀ e ∈ es, e.MadeOf keys := by
      unfold Shape.scalars at h
      induction fields generalizing es with
      | nil =>
        obtain rfl := Except.ok.inj h
        simp
      | cons f rest later =>
        obtain ⟨name, s⟩ := f
        obtain ⟨first, others⟩ := List.forall_mem_cons.1 ih
        obtain ⟨here, hs, h⟩ := bind_eq_ok.1 h
        obtain ⟨behind, hr, h⟩ := bind_eq_ok.1 h
        obtain rfl := pure_eq_ok.1 h
        rw [List.forall_mem_cons, List.forall_mem_append, first hs, later others hr]
    exact ⟨fun made => split.1 made.fields, fun made => .record (split.2 made)⟩
  | grouping key ih => exact ⟨fun made => (ih h).1 made.of_key, fun made => .grouping ((ih h).2 made)⟩
  | entity r => exact absurd h (not_fail_eq_ok _ _)
  | excluded name columns => exact absurd h (not_fail_eq_ok _ _)

theorem ofOperands_madeOf (m : Model) (keys : List Scalar) :
    OfOperands m (Shape.MadeOf keys) (Shape.MadeOf keys) (Scalar.MadeOf keys) where
  binary := fun op left right => .binary op left.of_scalar right.of_scalar
  testLeft := fun h => ⟨.isNull h.of_scalar, .isNotNull h.of_scalar⟩
  testRight := fun h => ⟨.isNull h.of_scalar, .isNotNull h.of_scalar⟩
  columns := fun left => nomatch left
  leftFields := .fields
  rightFields := .fields
  both := .binary .and
  not := .not

theorem exposeFields_madeOf {label : String} {fs gs : List (String × Shape)} {out out' : List Projection}
    (fields : ∀ f ∈ fs, ∀ (hint : Option String) (t : Shape) (out out' : List Projection),
      (∀ p ∈ out, p.value.MadeOf keys) → f.2.expose m subject label hint out = .ok (t, out') →
        ∀ p ∈ out', p.value.MadeOf keys)
    (before : ∀ p ∈ out, p.value.MadeOf keys) (h : Shape.exposeFields m subject label fs out = .ok (gs, out')) :
    ∀ p ∈ out', p.value.MadeOf keys := by
  induction fs generalizing gs out with
  | nil =>
    obtain ⟨-, rfl⟩ := Prod.mk.inj (Except.ok.inj h)
    exact before
  | cons f rest ih =>
    obtain ⟨name, s⟩ := f
    obtain ⟨first, others⟩ := List.forall_mem_cons.1 fields
    obtain ⟨t, middle, gs, exposed, behind, rfl⟩ := Shape.exposeFields_cons h
    exact ih others (first _ _ _ _ before exposed) behind

/-- The columns that a shape lists are made of what it is made of. -/
theorem Shape.MadeOf.expose {label : String} {hint : Option String} {s t : Shape} {out out' : List Projection}
    (made : s.MadeOf keys) (before : ∀ p ∈ out, p.value.MadeOf keys)
    (h : s.expose m subject label hint out = .ok (t, out')) : ∀ p ∈ out', p.value.MadeOf keys := by
  induction made generalizing hint t out out' with
  | scalar made =>
    obtain ⟨-, rfl⟩ := Prod.mk.inj (Except.ok.inj h)
    exact List.forall_mem_append.2 ⟨before, List.forall_mem_singleton.2 made⟩
  | record _ ih =>
    obtain ⟨gs, all, -⟩ := Shape.expose_record.1 h
    exact exposeFields_madeOf (fun f member _ _ _ _ => ih f member) before all
  | grouping _ ih =>
    obtain ⟨k, exposed, -⟩ := Shape.expose_grouping h
    exact ih before exposed

end

/-! ## Lambdas behind grouping -/

def Workspace.JoinsTables (w w' : Workspace) : Prop :=
  ∃ more, w'.joins = w.joins ++ more ∧ Join.KeysOnly more

section

variable {m : Model} {u v w : Workspace} {keys : List Scalar}

theorem Workspace.JoinsTables.refl (w : Workspace) : w.JoinsTables w :=
  ⟨[], (List.append_nil _).symm, fun _ h => absurd h List.not_mem_nil⟩

theorem Workspace.JoinsTables.trans (first : u.JoinsTables v) (second : v.JoinsTables w) : u.JoinsTables w := by
  obtain ⟨more, joined, tables⟩ := first
  obtain ⟨more', joined', tables'⟩ := second
  exact ⟨more ++ more', by rw [joined', joined, List.append_assoc], List.forall_mem_append.2 ⟨tables, tables'⟩⟩

/-- What a lambda makes of shapes that are made of keys is made of keys, and only tables are joined on the way. Where
nothing is grouped the shapes may be any. -/
theorem carries_keys (m : Model) (keys : List Scalar) :
    Carries m (fun _ => True) (fun _ => True) Workspace.JoinsTables (fun _ s => keys ≠ [] → s.MadeOf keys) where
  refl := fun _ => .refl _
  trans := .trans
  stays := fun _ => trivial
  keeps := fun _ made => made
  constant := fun v _ => .scalar (.constant v)
  runtime := fun {_ name} _ _ => .scalar (.parameter name)
  member := fun {w w' s t name whole} _ made run => by
    obtain ⟨member, rfl⟩ | ⟨r, _, _, _, _, _, reference, followed⟩ := readMember_yields run
    · refine ⟨.refl _, fun grouped => ?_⟩
      cases Shape.StaticMember.of_found member with
      | property | part | proposed | proposedPart => cases made grouped
      | field found => exact (made grouped).fields _ (mem_of_lookup found)
      | key named => exact (made grouped).of_key
    · obtain rfl := reference.shape
      refine ⟨?_, fun grouped => nomatch made grouped⟩
      obtain ⟨label, -, ⟨-, rfl⟩ | ⟨-, target, on, -, -, rfl⟩⟩ := follow_yields followed
      · exact .refl _
      · exact ⟨_, rfl, List.forall_mem_singleton.2 (.table _)⟩
  operator := fun left right applied grouped => .scalar ((ofOperands_madeOf m keys).operator (left grouped) (right grouped) applied)
  not := fun made grouped => .scalar (.not (made grouped).of_scalar)
  case := fun tested left right grouped =>
    .scalar (.case (tested grouped).of_scalar (left grouped).of_scalar (right grouped).of_scalar)
  record := fun made grouped => .record fun f member => made f member grouped

end

/-! ## Queries -/

/-- The selects below a planned select read their keys, and so does the select itself if it groups, with whatever can be
read of the given shapes. -/
structure Keyed (s : Select) (shapes : List Shape) : Prop where
  source : Source.KeysOnly s.source
  joins : Join.KeysOnly s.joins
  clauses : s.groupBy ≠ [] → s.ReadsKeys []
  shapes : s.groupBy ≠ [] → ∀ t ∈ shapes, t.MadeOf s.groupBy
  projection : s.projection = []
  union : s.union = none

section

variable {m : Model} {v w : Workspace} {s t : Select} {shapes : List Shape}

theorem Keyed.subset (keyed : Keyed s shapes) {some : List Shape} (among : some ⊆ shapes) : Keyed s some :=
  { keyed with shapes := fun grouped t member => keyed.shapes grouped t (among member) }

theorem Keyed.ungrouped {source : Source} (below : Source.KeysOnly source) (shapes : List Shape) :
    Keyed { source } shapes where
  source := below
  joins := fun _ h => absurd h List.not_mem_nil
  clauses := fun grouped => absurd rfl grouped
  shapes := fun grouped => absurd rfl grouped
  projection := rfl
  union := rfl

theorem Keyed.united (keyed : Keyed s shapes) {columns : List Projection}
    (made : s.groupBy ≠ [] → ∀ p ∈ columns, p.value.MadeOf s.groupBy) {union : Option Select}
    (other : ∀ u ∈ union, u.KeysOnly) : Select.KeysOnly { s with projection := columns, union } :=
  .intro keyed.source keyed.joins other fun grouped =>
    ⟨(keyed.clauses grouped).having, (keyed.clauses grouped).ordering, made grouped⟩

theorem Keyed.select (keyed : Keyed s shapes) {columns : List Projection}
    (made : s.groupBy ≠ [] → ∀ p ∈ columns, p.value.MadeOf s.groupBy) :
    Select.KeysOnly { s with projection := columns } :=
  keyed.united made fun u found => by simp [keyed.union] at found

theorem Keyed.keysOnly (keyed : Keyed s shapes) : s.KeysOnly := by
  have none : s.groupBy ≠ [] → ∀ p ∈ s.projection, p.value.MadeOf s.groupBy := by simp [keyed.projection]
  have whole := keyed.select none
  cases s
  exact whole

theorem Keyed.exposed {shape shape' : Shape} (keyed : Keyed s [shape]) {subject : Subject} {label : String}
    {columns : List Projection} (exposed : shape.expose m subject label none [] = .ok (shape', columns)) :
    s.groupBy ≠ [] → ∀ p ∈ columns, p.value.MadeOf s.groupBy := fun grouped =>
  (keyed.shapes grouped shape (List.mem_singleton_self _)).expose (fun _ h => absurd h List.not_mem_nil) exposed

theorem Keyed.wrapIf {subject : Subject} {needed : Bool} {q p : Planned} (keyed : Keyed q.select [q.shape])
    (h : Step.Yields (wrapIf m subject needed q) v p w) : Keyed p.select [p.shape] := by
  rcases wrapIf_yields h with ⟨-, wrapped⟩ | ⟨-, rfl, -⟩
  · obtain ⟨label, shape, columns, -, -, exposed, rfl⟩ := wrap_yields wrapped
    exact .ungrouped (.subquery label (keyed.select (keyed.exposed exposed))) _
  · exact keyed

theorem Keyed.asSource {subject : Subject} {q : Planned} {source : Source} {shape : Shape}
    (keyed : Keyed q.select [q.shape]) (h : Step.Yields (asSource m subject q) v (source, shape) w) :
    Source.KeysOnly source := by
  obtain ⟨p, wrapped, bare, -⟩ := asSource_yields h
  have below := (keyed.wrapIf wrapped).source
  rwa [bare] at below

/-- Planning an expression keeps the keys of a select, and the shape of the expression is made of them. -/
theorem Keyed.against (keyed : Keyed s shapes) {scope : Scope} {e : Expr} (inside : ∀ p ∈ scope, p.2 ∈ shapes)
    {shape : Shape} (h : Step.Yields (against s (expr m scope e)) v (shape, t) w) : Keyed t (shape :: shapes) := by
  obtain ⟨run, rfl⟩ := against_yields.1 h
  obtain ⟨⟨more, joined, tables⟩, made⟩ := (carries_keys m s.groupBy).expr e (fun _ _ => trivial) trivial
    (fun p member grouped => keyed.shapes grouped p.2 (inside p member)) run
  refine { keyed with joins := ?_, clauses := ?_, shapes := ?_ }
  · rw [joined]
    exact List.forall_mem_append.2 ⟨keyed.joins, tables⟩
  · exact fun grouped => (keyed.clauses grouped).of_clauses rfl rfl rfl
  · exact fun grouped => List.forall_mem_cons.2 ⟨made grouped, keyed.shapes grouped⟩

theorem Keyed.scalar (keyed : Keyed s shapes) {scope : Scope} {e : Expr} (inside : ∀ p ∈ scope, p.2 ∈ shapes)
    {c : Scalar} (h : Step.Yields (Planning.against s (scalar m scope e)) v (c, t) w) :
    Keyed t (.scalar c :: shapes) := by
  obtain ⟨run, rfl⟩ := against_yields.1 h
  exact keyed.against inside (against_yields.2 ⟨scalar_yields.1 run, rfl⟩)

theorem Keyed.count (keyed : Keyed s shapes) {e : Expr} {c : Scalar}
    (h : Step.Yields (Planning.against s (Planning.scalar m [] e)) v (c, t) w) : Keyed t shapes :=
  (keyed.scalar (by simp) h).subset (List.subset_cons_self _ _)

theorem Keyed.joined (keyed : Keyed s shapes) (ungrouped : s.groupBy = []) {j : Join Select}
    (below : Source.KeysOnly j.source) (more : List Shape) : Keyed { s with joins := s.joins ++ [j] } more :=
  { keyed with
    joins := List.forall_mem_append.2 ⟨keyed.joins, List.forall_mem_singleton.2 below⟩
    clauses := fun grouped => absurd ungrouped grouped
    shapes := fun grouped => absurd ungrouped grouped }

theorem Keyed.addFilter {c : Scalar} (keyed : Keyed s (.scalar c :: shapes)) : Keyed (addFilter s c) shapes := by
  have before := keyed.subset (List.subset_cons_self _ _)
  unfold Planning.addFilter
  split
  next empty =>
    exact { before with
      clauses := fun grouped => absurd (List.isEmpty_iff.1 empty) grouped }
  next =>
    refine { before with clauses := fun grouped => ⟨fun e found => ?_, ?_, ?_⟩ }
    · obtain rfl := Option.some.inj found
      exact .both (before.clauses grouped).having (keyed.shapes grouped _ List.mem_cons_self).of_scalar
    · exact (before.clauses grouped).ordering
    · exact (before.clauses grouped).values

end

theorem query_keyed {m : Model} {q : Query} {w w' : Workspace} {p : Planned} (h : Step.Yields (query m q) w p w') :
    Keyed p.select [p.shape] := by
  induction q generalizing w w' p with
  | set name =>
    obtain ⟨e, t, -, -, -, rfl⟩ := set_yields h
    exact .ungrouped (.table t) _
  | rows collection =>
    obtain ⟨label, -, rfl⟩ := rows_yields h
    exact .ungrouped (.literal _) _
  | filter input predicate ih =>
    obtain ⟨s, v, t, v', condition, select, first, wrapped, run, rfl⟩ := filter_yields h
    exact (((ih first).wrapIf wrapped).scalar (zip_inside (by simp)) run).addFilter
  | map input selector ih =>
    obtain ⟨s, v, shape, select, first, run, rfl⟩ := map_yields h
    exact ((ih first).against (zip_inside (by simp)) run).subset (by simp)
  | join outer inner outerKey innerKey result iho ihi =>
    obtain ⟨s, v, t, x, i, y, source, shape, z, l, select, z', r, z'', on, element, select', first, wrapped,
      second, sourced, run, alone, equal, run', rfl⟩ := join_yields h
    have outer := ((iho first).wrapIf wrapped).against (zip_inside (by simp)) run
    -- an operand with groups has been wrapped
    have ungrouped : select.groupBy = [] := by
      rw [(against_yields.1 run).2]
      exact ungrouped_of_wrapIf wrapped
    have joined := outer.joined (j := ⟨.inner, source, some on⟩) ungrouped ((ihi second).asSource sourced)
      [t.shape, shape]
    exact (joined.against (zip_inside (by simp)) run').subset (by simp)
  | orderBy input key descending ih =>
    obtain ⟨s, v, t, v', k, select, keys, first, wrapped, run, found, rfl⟩ := orderBy_yields h
    have keyed := ((ih first).wrapIf wrapped).against (zip_inside (by simp)) run
    have before := keyed.subset (List.subset_cons_self _ _)
    refine { before with clauses := fun grouped => ⟨(before.clauses grouped).having, fun item member => ?_, ?_⟩ }
    · obtain ⟨key, inside, rfl⟩ := List.mem_map.1 member
      exact (Shape.madeOf_iff_scalars found).1 (keyed.shapes grouped k List.mem_cons_self) key inside
    · exact (before.clauses grouped).values
  | take input count ih =>
    obtain ⟨s, v, t, v', limit, select, first, wrapped, run, rfl⟩ := take_yields h
    have keyed := ((ih first).wrapIf wrapped).count run
    exact { keyed with clauses := fun grouped => (keyed.clauses grouped).of_clauses rfl rfl rfl }
  | skip input count ih =>
    obtain ⟨s, v, t, v', offset, select, first, wrapped, run, rfl⟩ := skip_yields h
    have keyed := ((ih first).wrapIf wrapped).count run
    exact { keyed with clauses := fun grouped => (keyed.clauses grouped).of_clauses rfl rfl rfl }
  | groupBy input key ih =>
    obtain ⟨s, v, t, v', k, select, keys, first, wrapped, run, found, rfl⟩ := groupBy_yields h
    have keyed := ((ih first).wrapIf wrapped).against (zip_inside (by simp)) run
    have none : select.having = none := by
      rw [(against_yields.1 run).2]
      exact ((query_regular first).wrapIf wrapped).ungrouped (ungrouped_of_wrapIf wrapped)
    -- no clause has read groups yet, and the new shape is made of the keys
    have made : k.MadeOf keys := (Shape.madeOf_iff_scalars found).2 fun e member => .key member
    refine { keyed with clauses := fun _ => ⟨?_, ?_, ?_⟩, shapes := fun _ => ?_ }
    · simp [none]
    · exact fun _ h => absurd h List.not_mem_nil
    · exact fun _ h => absurd h List.not_mem_nil
    · exact List.forall_mem_singleton.2 (.grouping made)
  | union left right ihl ihr =>
    obtain ⟨l, v, r, x, l', y, r', z, first, second, wrapped, wrapped', united⟩ := union_yields h
    obtain ⟨label, shape, columns, others, -, -, exposed, ⟨shape', exposed'⟩, -, rfl⟩ := unite_yields united
    have left := (ihl first).wrapIf wrapped
    have right := (ihr second).wrapIf wrapped'
    have other := right.select (right.exposed exposed')
    exact .ungrouped (.subquery label (left.united (left.exposed exposed) (by simpa using other))) _

/-! ## Mutations -/

section

variable {m : Model} {v w w' : Workspace} {s t : Select} {shapes : List Shape} {scope : Scope}

theorem Keyed.assignments {list : List Assignment} {fields : List Projection} (keyed : Keyed s shapes)
    (inside : ∀ p ∈ scope, p.2 ∈ shapes)
    (h : Step.Yields (Planning.against s (assignedFields m scope list)) v (fields, t) w) :
    Keyed t shapes ∧ (t.groupBy ≠ [] → ∀ p ∈ fields, p.value.MadeOf t.groupBy) := by
  induction list generalizing v s shapes fields with
  | nil =>
    obtain ⟨run, rfl⟩ := against_yields.1 h
    obtain ⟨rfl, rfl⟩ := Step.yields_pure.1 run
    cases s
    exact ⟨keyed, fun _ _ h => absurd h List.not_mem_nil⟩
  | cons a rest ih =>
    obtain ⟨run, rfl⟩ := against_yields.1 h
    simp only [assignedFields, Step.yields_bind, Step.yields_pure] at run
    obtain ⟨value, u, first, others, _, second, rfl, rfl⟩ := run
    have keyed' := keyed.scalar inside (against_yields.2 ⟨first, rfl⟩)
    have inside' : ∀ p ∈ scope, p.2 ∈ Shape.scalar value :: shapes := fun p member =>
      List.mem_cons_of_mem _ (inside p member)
    obtain ⟨keyed'', made⟩ := ih keyed' inside' (against_yields.2 ⟨second, rfl⟩)
    refine ⟨keyed''.subset (List.subset_cons_self _ _), fun grouped => List.forall_mem_cons.2 ⟨?_, made grouped⟩⟩
    exact (keyed''.shapes grouped _ List.mem_cons_self).of_scalar

theorem Keyed.ungrouped_of_rootTable {p : Planned} (keyed : Keyed p.select [p.shape]) {mutation : Mutation}
    {table : StoredTable} {e : Entity} (root : rootTable m mutation p = .ok (table, e)) : p.select.groupBy = [] := by
  obtain ⟨-, whole, -, -⟩ := rootTable_eq_ok root
  by_contra grouped
  cases whole ▸ keyed.shapes grouped p.shape (List.mem_singleton_self _)

variable {capabilities : Capabilities} {plan : Plan}

theorem updateJoin_keysOnly {mutation : Mutation} {outer inner : Query} {outerKey innerKey set : Lambda}
    {condition : Option Lambda}
    (h : Step.Yields (updateJoin m mutation outer inner outerKey innerKey set condition) w plan w') :
    plan.root.KeysOnly := by
  obtain ⟨s, v, table, e, i, u, source, shape, x, l, select, y, r, z, on, list, fields, select', z', first, root,
    second, sourced, run, alone, equal, assigns, run', last⟩ := updateJoin_yields h
  have outer := query_keyed first
  have ungrouped : select.groupBy = [] := by
    rw [(against_yields.1 run).2]
    exact outer.ungrouped_of_rootTable root
  have joined := (outer.against (zip_inside (by simp)) run).joined (j := ⟨.inner, source, some on⟩) ungrouped
    ((query_keyed second).asSource sourced) [s.shape, shape]
  obtain ⟨keyed, -⟩ := joined.assignments (zip_inside (List.Subset.refl _)) run'
  rcases last with ⟨-, -, rfl⟩ | ⟨c, p, select'', rfl, run'', rfl⟩
  · exact keyed.joins
  · exact (keyed.scalar (zip_inside (List.Subset.refl _)) run'').joins

theorem upsert_keysOnly {mutation : Mutation} {name : String} {source : Option Query} {insert : Lambda}
    {update : Option Lambda} (h : Step.Yields (upsert m mutation name source insert update) w plan w') :
    plan.root.KeysOnly := by
  obtain ⟨e, table, v, list, key, select, fields, x, updated, columns, -, -, -, -, inserted, -, -, rfl⟩ :=
    upsert_yields h
  intro s found
  rcases upsertSource_yields inserted with ⟨q, p, u, t, rfl, rfl, first, run⟩ | ⟨rfl, rfl, -⟩
  · obtain rfl := Option.some.inj found
    obtain ⟨keyed, made⟩ := (query_keyed first).assignments (zip_inside (List.Subset.refl _)) run
    exact ⟨keyed.keysOnly, fun grouped =>
      ⟨(keyed.clauses grouped).having, (keyed.clauses grouped).ordering, made grouped⟩⟩
  · cases found

theorem mutation_keysOnly {mutation : Mutation} (h : Step.Yields (mutationPlan m capabilities mutation) w plan w') :
    plan.root.KeysOnly := by
  cases mutation with
  | delete q =>
    obtain ⟨s, table, e, first, -, rfl⟩ := delete_yields h
    exact (query_keyed first).joins
  | update q set =>
    obtain ⟨s, v, table, e, list, fields, select, first, -, -, run, rfl⟩ := update_yields h
    exact ((query_keyed first).assignments (zip_inside (List.Subset.refl _)) run).1.joins
  | updateJoin => exact updateJoin_keysOnly h
  | insertInto q target =>
    obtain ⟨input, selector, e, list, s, v, fields, select, rfl, -, -, first, run, rfl⟩ := insertInto_yields h
    obtain ⟨keyed, made⟩ := (query_keyed first).assignments (zip_inside (List.Subset.refl _)) run
    exact keyed.select made
  | upsert => exact upsert_keysOnly h
  | merge =>
    obtain ⟨e, table, v, s, u, rows, shape, x, l, y, r, z, on, matched, z', inserted, -, -, first, sourced, -, -, -,
      -, -, rfl⟩ := merge_yields h
    exact (query_keyed first).asSource sourced

end

/-- In every planned query and mutation, the selects that group filter and order their groups by keys, and project
values that are made of keys. The elements of a grouped query are made of its keys as well. -/
theorem grouped_selects_read_keys (m : Model) :
    (∀ (q : Query) (w w' : Workspace) (p : Planned), Step.Yields (query m q) w p w' →
      p.select.KeysOnly ∧ (p.select.groupBy ≠ [] → p.shape.MadeOf p.select.groupBy)) ∧
    ∀ (capabilities : Capabilities) (mutation : Mutation) (made : Plan),
      plan m capabilities mutation = .ok made → made.root.KeysOnly := by
  refine ⟨fun q w w' p h => ?_, fun capabilities mutation made h => ?_⟩
  · have keyed := query_keyed h
    exact ⟨keyed.keysOnly, fun grouped => keyed.shapes grouped p.shape (List.mem_singleton_self _)⟩
  · have planned : Step.Yields (mutationPlan m capabilities mutation) {} made _ := Prod.ext h rfl
    exact mutation_keysOnly planned

def positiveValues : Query :=
  .filter (.groupBy (.set "Item") ⟨["i"], .member (.param "i") "Value"⟩)
    ⟨["g"], .binary (.member (.param "g") "Key") .greater (.constant (.int 0))⟩

def orderedValues : Query :=
  .orderBy positiveValues ⟨["g"], .member (.param "g") "Key"⟩ false

def insertValues : Mutation :=
  .insertInto (.map positiveValues ⟨["g"], .new (some "Item") [] [.assign "Id" (.member (.param "g") "Key")]⟩) "Item"

/-- The values are read from the column that the items are grouped by, in the query and in the insert. -/
theorem positiveValues_read_keys :
    (∃ w p, Step.Yields (query Execution.itemModel orderedValues) {} p w ∧
      p.select.groupBy = [.column "i" "Value"] ∧ p.select.KeysOnly ∧ p.shape.MadeOf [.column "i" "Value"]) ∧
    ∃ made, plan Execution.itemModel .inMemory insertValues = .ok made ∧ made.root.KeysOnly := by
  obtain ⟨w, p, planned, groups⟩ : ∃ w p, Step.Yields (query Execution.itemModel orderedValues) {} p w ∧
      p.select.groupBy = [.column "i" "Value"] := ⟨_, _, rfl, rfl⟩
  obtain ⟨made, planned'⟩ : ∃ made, plan Execution.itemModel .inMemory insertValues = .ok made := ⟨_, rfl⟩
  obtain ⟨queries, mutations⟩ := grouped_selects_read_keys Execution.itemModel
  obtain ⟨keysOnly, elements⟩ := queries _ _ _ _ planned
  rw [groups] at elements
  have shape := elements (List.cons_ne_nil _ _)
  exact ⟨⟨w, p, planned, groups, keysOnly, shape⟩, made, planned', mutations _ _ _ planned'⟩

end Planning

end Setwise
