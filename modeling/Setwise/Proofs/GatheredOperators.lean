import Setwise.Proofs.GatheredFrames
import Setwise.Proofs.Lists

/-!
The operators of planned queries gather what `Query.Gathers` says.

A lambda may find a reference joined that is not its own (`ReusesOwn`). Where it does not (`Lambda.ReadsOwn`), the frames
that the select of an operator keeps once it is bound stand for what the operator gathers, given that those of its operand
do (`Gathering`).
-/

set_option autoImplicit false

namespace Setwise

open Client Relational Execution Planning Sorting

namespace Client

section

variable (m : Model)

/-- Planned against a select, the lambda reads every reference on a join of its own foreign key. -/
def Lambda.ReadsOwn (l : Lambda) (args : List Shape) (select : Select) (w : Workspace) : Prop :=
  ReadsAs m (plannedAsNull (l.params.zip args)) (l.params.zip args) l.body { w with joins := select.joins }

end

end Client

namespace Planning

section

variable {m : Model} {db : Database} {env : Environment} {u v w : Workspace} {s t : Planned} {b : Select}
  {all all' frames frames' later : List Frame} {c : Gathered}

/-! ## Lambdas -/

theorem plannedAsNull_zip (names : List String) (args : List Shape) :
    plannedAsNull (names.zip args) = fun e => e.nullAt (names.zip (args.map Shape.isNullAt)) [] := by
  funext e
  rw [plannedAsNull, Scope.nulls, List.zip_map_right]
  rfl

theorem isNullAt_gives {l : Lambda} {args : List Shape} {shape : Shape} {select : Select}
    (run : Step.Yields (against b (expr m (l.params.zip args) l.body)) v (shape, select) w) :
    shape.isNullAt = l.nulls (args.map Shape.isNullAt) := by
  obtain ⟨planned, -⟩ := against_yields.1 run
  funext path
  rw [expr_isNullAt l.body planned path, Scope.nulls, Lambda.nulls, List.zip_map_right]
  rfl

theorem lambda_gives (on : LeadsOn m db) {l : Lambda} {args : List Shape} {select : Select} {shape : Shape}
    (inScope : Scoped v b) (visible : ∀ a ∈ args, ∀ k ∈ a.labels, k ∈ b.labels) (own : l.ReadsOwn m args b v)
    (run : Step.Yields (against b (expr m (l.params.zip args) l.body)) v (shape, select) w)
    (given : ∀ f ∈ all, ∀ a ∈ args, (a.element m env f).Within (Met m db))
    (joined : joinedFrames db env b = .ok all) (joined' : joinedFrames db env select = .ok all') :
    (Returns all all' (shape.element m env) fun f =>
      l.gives m db env.parameters (args.map Shape.isNullAt) (args.map (Shape.element m env f))) ∧
      ∀ g ∈ all', (shape.element m env g).Within (Met m db) := by
  have leads := on.leads w
  have returns := lambda_grows leads inScope visible own run given joined joined'
  rw [plannedAsNull_zip] at returns
  refine ⟨returns, fun g member => ?_⟩
  obtain ⟨f, inside, -, becomes⟩ := Grow.origin returns g member
  refine Expr.result_within leads.closed (fun p here => ?_) becomes.symm
  obtain ⟨a, argument, same⟩ := List.mem_map.1 (List.of_mem_zip here).2
  exact same ▸ given f inside a argument

/-! ## Operands -/

theorem isNullAt_of_nullFree {shape : Shape} (free : shape.NullFree) : shape.isNullAt = Nulls.none := by
  funext path
  induction shape using Shape.induction generalizing path with
  | scalar e => exact isNullAt_scalar (Bool.eq_false_iff.2 fun null => free (isNull_iff.1 null)) path
  | entity => cases path <;> rfl
  | record fields ih =>
    cases path with
    | nil => rfl
    | cons name path =>
      simp only [Shape.isNullAt]
      split
      next found => exact ih _ (mem_of_lookup found) (Shape.FieldsNullFree.lookup free found) path
      next => rfl
  | grouping key ih =>
    cases path with
    | nil => rfl
    | cons name path => simp [Shape.isNullAt, ih free path, Nulls.none]
  | excluded => cases path <;> rfl

theorem Represents.bare {source : Source} {shape : Shape} {operators : List String} {rs : RowSet} {xs : List Element}
    (free : shape.NullFree) (rows : sourceRows db env source = .ok rs)
    (elements : (rs.rows.map fun r => shape.element m env [rs.visible r]) = xs)
    (met : ∀ x ∈ xs, x.Within (Met m db)) (keeps : Keeps db env { source } all frames) :
    Represents m db env ⟨{ source }, shape, operators⟩ all frames (.of xs) := by
  obtain ⟨rs', rows', rfl⟩ := joinedFrames_single.1 keeps.joined
  obtain rfl := Except.ok.inj (rows.symm.trans rows')
  obtain rfl := keeps.ungrouped rfl rfl
  refine ⟨?_, rfl, rfl, rfl, (isNullAt_of_nullFree free).symm, rfl, fun f member => ?_⟩
  · simp only [Gathered.of, ← elements, filter_passes_none, List.map_map]
    rfl
  · obtain ⟨r, inside, rfl⟩ := List.mem_map.1 member
    exact met _ (elements ▸ List.mem_map_of_mem inside)

variable (m db env) in
/-- The frames of the query, bound to the parameters and with pruned subqueries, stand for what it gathers. -/
def Gathering (q : Query) (s : Planned) : Prop :=
  ∀ a all frames, s.select.Resolves env.parameters a → Keeps db env a all frames →
    ∃ c, q.Gathers m db env.parameters c ∧ Represents m db env { s with select := a } all frames c

theorem Gathering.delivered {q : Query} (gathering : Gathering m db env q s) (bound : s.select.Compiles env.parameters b)
    (delivered : deliveredFrames db env b = .ok frames) :
    ∃ all base c, Keeps db env b all base ∧ q.Gathers m db env.parameters c ∧
      Represents m db env { s with select := b } all base c ∧
      c.delivered? = some (frames.map (s.shape.element m env)) := by
  obtain ⟨base, selected, ordering⟩ := bind_eq_ok.1 delivered
  obtain ⟨sorted, ordered, paged⟩ := bind_eq_ok.1 ordering
  obtain ⟨all, keeps⟩ := keeps_of_selectFrames selected
  obtain ⟨resolved⟩ := bound
  obtain ⟨c, gathers, represents⟩ := gathering _ all base resolved keeps.of_sift
  exact ⟨all, base, c, keeps, gathers, represents.sift, represents.sift.delivered ordered paged⟩

theorem Represents.alike {a : Select}
    (clauses : a.groupBy = s.select.groupBy ∧ a.orderBy = s.select.orderBy ∧ a.limit = s.select.limit ∧
      a.offset = s.select.offset)
    {c : Gathered} (h : Represents m db env { s with select := a } all frames c) :
    c.isPaged = s.select.isPaged ∧ c.limit.isSome = s.select.limit.isSome ∧ (c.grouped = !s.select.groupBy.isEmpty) := by
  obtain ⟨groupBy, -, limit, offset⟩ := clauses
  refine ⟨?_, ?_, groupBy ▸ h.grouped⟩
  · rw [h.isPaged, Select.isPaged, Select.isPaged, limit, offset]
  · rw [h.limit, limit, Option.isSome_map]

/-- What a query delivers is shown by the subquery that the planner has made of it. -/
theorem Gathering.wrapped {q : Query} (gathering : Gathering m db env q s) (single : s.select.union = none)
    {subject : Subject} (h : Step.Yields (wrap m subject s) v t w) (bound : t.select.Resolves env.parameters b)
    (keeps : Keeps db env b all frames) :
    ∃ c xs, q.Gathers m db env.parameters c ∧ c.delivered? = some xs ∧
      Represents m db env { t with select := b } all frames (.of xs) ∧ c.isPaged = s.select.isPaged ∧
      c.limit.isSome = s.select.limit.isSome ∧ (c.grouped = !s.select.groupBy.isEmpty) := by
  obtain ⟨a, compiled, wrapped⟩ := wrap_bound h bound
  obtain ⟨rs, columns, rows, -⟩ := joinedFrames_eq_ok.1 keeps.joined
  obtain ⟨delivered, found, elements⟩ := carried_into_subquery wrapped (compiled.union single) rows
  obtain ⟨all', base, c, keeps', gathers, represents, xs⟩ := gathering.delivered compiled found
  obtain ⟨label, shape, columns, -, -, exposed, same⟩ := wrap_yields wrapped
  obtain ⟨select, shape', operators⟩ := t
  obtain ⟨rfl, rfl, rfl⟩ := Planned.mk.inj same
  refine ⟨c, _, gathers, xs, ?_, represents.alike compiled.clauses⟩
  refine .bare (exposed_type exposed).2 rows elements (fun x member => ?_) keeps
  obtain ⟨f, inside, rfl⟩ := List.mem_map.1 member
  obtain ⟨every, joined, among⟩ := deliveredFrames_eq_ok found
  obtain rfl := Except.ok.inj (joined.symm.trans keeps'.joined)
  exact represents.met f (among f inside)

/-- The operand of an operator, of which the planner has made a subquery where that is needed. -/
theorem Gathering.operand {q : Query} (gathering : Gathering m db env q s) (single : s.select.union = none)
    {subject : Subject} {needed : Bool} (wrapped : Step.Yields (wrapIf m subject needed s) v t w)
    (bound : t.select.Resolves env.parameters b) (keeps : Keeps db env b all frames) :
    ∃ c c', q.Gathers m db env.parameters c ∧ c.opened? needed = some c' ∧
      Represents m db env { t with select := b } all frames c' ∧ c.isPaged = s.select.isPaged ∧
      c.limit.isSome = s.select.limit.isSome ∧ (c.grouped = !s.select.groupBy.isEmpty) := by
  rcases wrapIf_yields wrapped with ⟨rfl, wrap⟩ | ⟨rfl, rfl, -⟩
  · obtain ⟨c, xs, gathers, delivered, represents, alike⟩ := gathering.wrapped single wrap bound keeps
    exact ⟨c, .of xs, gathers, by rw [Gathered.opened?, if_pos rfl, delivered]; rfl, represents, alike⟩
  · obtain ⟨c, gathers, represents⟩ := gathering b all frames bound keeps
    exact ⟨c, c, gathers, by rw [Gathered.opened?, if_neg Bool.false_ne_true], represents, represents.alike bound.clauses⟩

theorem Gathering.operand_delivered {q : Query} (gathering : Gathering m db env q s) (single : s.select.union = none)
    {subject : Subject} {needed : Bool} (wrapped : Step.Yields (wrapIf m subject needed s) v t w)
    (bound : t.select.Compiles env.parameters b) (delivered : deliveredFrames db env b = .ok frames) :
    ∃ c, q.Gathers m db env.parameters c ∧ c.delivered? = some (frames.map (t.shape.element m env)) ∧
      (t.shape.isNullAt = c.nulls ∨ t.shape.isNullAt = Nulls.none) ∧
      ∀ f ∈ frames, (t.shape.element m env f).Within (Met m db) := by
  obtain ⟨base, selected, ordering⟩ := bind_eq_ok.1 delivered
  obtain ⟨sorted, ordered, paged⟩ := bind_eq_ok.1 ordering
  obtain ⟨all, keeps⟩ := keeps_of_selectFrames selected
  obtain ⟨every, joined, among⟩ := deliveredFrames_eq_ok delivered
  obtain rfl := Except.ok.inj (joined.symm.trans keeps.joined)
  obtain ⟨resolved⟩ := bound
  obtain ⟨c, c', gathers, opened, represents, -⟩ := gathering.operand single wrapped resolved keeps.of_sift
  exact ⟨c, gathers, (Gathered.delivered_of_opened opened).symm.trans (represents.sift.delivered ordered paged),
    represents.nulls ▸ Gathered.nulls_of_opened opened, fun f member => represents.met f (among f member)⟩

/-! ## Tables and collections -/

theorem set_gathered {name : String} {e : Entity} {ref : StoredTable} (known : m.entity? name = some e)
    (added : Step.Yields (newTable e) v ref w) {operators : List String} :
    Gathering m db env (.set name) ⟨{ source := .table ref }, .entity { entity := e.name, label := ref.label }, operators⟩ := by
  intro b all frames bound keeps
  have clauses := bound.single
  rw [bound.source.of_table] at clauses
  subst clauses
  obtain ⟨-, table, -⟩ := newTable_yields added
  obtain rfl := name_of_entity? known
  obtain ⟨rs, rows, -⟩ := joinedFrames_single.1 keeps.joined
  obtain ⟨stored, found, rfl⟩ := sourceRows_table rows
  rw [table] at found
  refine ⟨_, .set known found, .bare trivial rows ?_ (fun x member => ?_) keeps⟩
  · exact List.map_congr_left fun r _ => element_joined m env e.name (f := []) List.not_mem_nil []
  · obtain ⟨r, inside, rfl⟩ := List.mem_map.1 member
    exact .entity (.stored known found inside)

theorem cells_resolved {rows : LocalRows} {label : String} {source : Source} {rs : RowSet}
    (bound : Source.Resolves env.parameters (.literal ⟨label, rows.fields, cells rows⟩) source)
    (found : sourceRows db env source = .ok rs) :
    ∃ values, rows.rows? env.parameters = some values ∧ rs = ⟨label, rows.fields, values⟩ := by
  cases bound with
  | literal related =>
    cases rows with
    | records fields elements =>
      cases related with
      | counted pending => cases pending
      | kept =>
        have values : cells (.records fields elements) =
            .immediate ((elements.map fun r => r.fields.map Prod.snd).map fun r => r.map .constant) := by
          simp [cells, Function.comp_def]
        simp only [sourceRows, literalRows, values, immediateRows_constants] at found
        exact ⟨_, rfl, (pure_eq_ok.1 found).symm⟩
    | parameter name fields =>
      cases related with
      | kept settled => exact absurd rfl (settled name)
      | @counted _ values pending held =>
        obtain rfl := LiteralRows.pending.inj pending
        have given := Parameters.rows_eq_ok.2 held
        rw [sourceRows, literalRows_resolved given] at found
        exact ⟨values, by rw [LocalRows.rows?, given]; rfl, (Except.ok.inj found).symm⟩

theorem rows_gathered {rows : LocalRows} {label : String} {operators : List String} :
    Gathering m db env (.rows rows)
      ⟨{ source := .literal ⟨label, rows.fields, cells rows⟩ },
        .record (rows.fields.map fun c => (c, .scalar (.column label c))), operators⟩ := by
  intro b all frames bound keeps
  rw [bound.single] at keeps ⊢
  obtain ⟨rs, found, -⟩ := joinedFrames_single.1 keeps.joined
  obtain ⟨values, given, rfl⟩ := cells_resolved bound.source found
  refine ⟨_, .rows given, .bare (columns_type label rows.fields).2 found ?_ (fun x member => ?_) keeps⟩
  · exact List.map_congr_left fun r _ => columns_element label rows.fields r
  · obtain ⟨r, -, rfl⟩ := List.mem_map.1 member
    refine .record fun p inside => ?_
    obtain ⟨c, -, rfl⟩ := List.mem_map.1 inside
    exact .scalar _

/-! ## Operators with one lambda -/

/-- In the frames that are left once a lambda has been planned, the gathered elements stand beside what it gives for them. -/
structure Applied (m : Model) (db : Database) (env : Environment) (l : Lambda) (orderBy : List OrderItem)
    (shape result : Shape) (all frames : List Frame) (c : Gathered) : Prop where
  collect : ∀ {γ : Type} (make : Row → Element → Element → Option γ),
    (frames.filterMap fun g => make (keyRow env orderBy g) (shape.element m env g) (result.element m env g)) =
      c.entries.filterMap fun x => (l.gives m db env.parameters [c.nulls] [x.2]).bind (make x.1 x.2)
  met : ∀ g ∈ all, (result.element m env g).Within (Met m db)
  stays : ∀ g ∈ all, (shape.element m env g).Within (Met m db)
  nulls : result.isNullAt = l.nulls [c.nulls]

theorem applied_against (on : LeadsOn m db) (planned : FreshlyPlanned u v t) (regular : t.Regular) {l : Lambda}
    {select : Select} {shape : Shape} (own : l.ReadsOwn m [t.shape] t.select v)
    (run : Step.Yields (against t.select (expr m (l.params.zip [t.shape]) l.body)) v (shape, select) w)
    (keeps : Keeps db env select all' frames') :
    ∃ all frames, Keeps db env t.select all frames ∧ ∀ c, Represents m db env t all frames c →
      Applied m db env l t.select.orderBy t.shape shape all' frames' c := by
  obtain ⟨all, frames, before, grows⟩ := Keeps.before planned regular run keeps
  refine ⟨all, frames, before, fun c represents => ?_⟩
  obtain ⟨returns, met⟩ := lambda_gives on planned.inScope (by simpa using planned.shape) own run
    (by simpa using represents.met) before.joined keeps.joined
  refine ⟨fun make => ?_, met, fun g member => ?_, by rw [isNullAt_gives run, represents.nulls]; rfl⟩
  · rw [represents.entries, List.filterMap_map, represents.nulls]
    refine Returns.filterMap (b := fun g => (keyRow env t.select.orderBy g, t.shape.element m env g)) (grows _ returns)
      (fun f member g more => ?_) fun x y => make x.1 x.2 y
    have inside := before.subset member
    exact Prod.ext (keyRow_front planned before.joined inside more) (shape_front planned before.joined inside more)
  · obtain ⟨f, inside, more, -⟩ := Grow.origin returns g member
    rw [shape_front planned before.joined inside more]
    exact represents.met f inside

theorem lambda_applied (on : LeadsOn m db) (planned : FreshlyPlanned u v t) (regular : t.Regular) {l : Lambda}
    {select : Select} {shape : Shape} (own : l.ReadsOwn m [t.shape] t.select v)
    (run : Step.Yields (against t.select (expr m (l.params.zip [t.shape]) l.body)) v (shape, select) w)
    (bound : select.Resolves env.parameters b) (keeps : Keeps db env b all' frames') :
    ∃ a all frames, t.select.Resolves env.parameters a ∧ b = { a with joins := b.joins } ∧ Keeps db env a all frames ∧
      ∀ c, Represents m db env { t with select := a } all frames c →
        Applied m db env l a.orderBy t.shape shape all' frames' c := by
  obtain ⟨a, resolved, again⟩ := against_bound run bound
  obtain ⟨all, frames, before, applied⟩ := applied_against (t := { t with select := a }) on (planned.bound resolved)
    (regular.bound resolved) (own.behind resolved.joins.stands) again keeps
  exact ⟨a, all, frames, resolved, (against_yields.1 again).2, before, applied⟩

theorem Represents.with_entries {p p' : Planned} (h : Represents m db env p all frames c)
    {entries : List (Row × Element)} {nulls : Nulls}
    (same : p'.select.orderBy = p.select.orderBy ∧ p'.select.limit = p.select.limit ∧
      p'.select.offset = p.select.offset ∧ p'.select.groupBy = p.select.groupBy)
    (shown : entries = frames'.map fun f => (keyRow env p.select.orderBy f, p'.shape.element m env f))
    (null : nulls = p'.shape.isNullAt) (met : ∀ f ∈ all', (p'.shape.element m env f).Within (Met m db)) :
    Represents m db env p' all' frames' { c with entries, nulls } := by
  obtain ⟨orderBy, limit, offset, groupBy⟩ := same
  exact ⟨by rw [orderBy]; exact shown, by rw [orderBy]; exact h.sorted, by rw [limit]; exact h.limit,
    by rw [offset]; exact h.offset, null, by rw [groupBy]; exact h.grouped, met⟩

theorem filter_represents (on : LeadsOn m db) (planned : FreshlyPlanned u v t) (regular : t.Regular) {l : Lambda}
    {condition : Scalar} {select : Select} {found : List Frame} (own : l.ReadsOwn m [t.shape] t.select v)
    (run : Step.Yields (against t.select (expr m (l.params.zip [t.shape]) l.body)) v (.scalar condition, select) w)
    (keeps : Keeps db env (addFilter select condition) all' found) :
    ∃ all frames, Keeps db env t.select all frames ∧ ∀ c, Represents m db env t all frames c →
      Represents m db env { t with select := addFilter select condition } all' found
        (c.replace fun k x =>
          (l.gives m db env.parameters [c.nulls] [x]).bind fun y => if y.holds then some (k, x) else none) := by
  obtain ⟨-, same⟩ := against_yields.1 run
  obtain ⟨frames', unfiltered, rfl⟩ := keeps.of_addFilter (by rw [same]; exact regular.ungrouped)
  obtain ⟨all, frames, before, applied⟩ := applied_against on planned regular own run unfiltered
  refine ⟨all, frames, before, fun c represents => ?_⟩
  have applied := applied c represents
  have shown := applied.collect fun k x y => if y.holds then some (k, x) else none
  refine represents.with_entries ?_ ?_ represents.nulls applied.stays
  · rw [same]
    unfold addFilter
    split <;> exact ⟨rfl, rfl, rfl, rfl⟩
  · refine shown.symm.trans ?_
    rw [← List.filterMap_eq_map', List.filterMap_filter]
    refine List.filterMap_congr fun g _ => ?_
    rw [passes_some]
    rfl

theorem map_represents (on : LeadsOn m db) (planned : FreshlyPlanned u v t) (regular : t.Regular) {l : Lambda}
    {shape : Shape} {select : Select} (own : l.ReadsOwn m [t.shape] t.select v)
    (run : Step.Yields (against t.select (expr m (l.params.zip [t.shape]) l.body)) v (shape, select) w)
    (keeps : Keeps db env select all' frames') :
    ∃ all frames, Keeps db env t.select all frames ∧ ∀ c, Represents m db env t all frames c →
      Represents m db env { t with select, shape } all' frames'
        { c.replace fun k x => (l.gives m db env.parameters [c.nulls] [x]).map fun y => (k, y) with
          nulls := l.nulls [c.nulls] } := by
  obtain ⟨-, same⟩ := against_yields.1 run
  obtain ⟨all, frames, before, applied⟩ := applied_against on planned regular own run keeps
  refine ⟨all, frames, before, fun c represents => ?_⟩
  have applied := applied c represents
  have shown := applied.collect fun k _ y => some (k, y)
  refine represents.with_entries ?_ ?_ applied.nulls.symm applied.met
  · rw [same]
    exact ⟨rfl, rfl, rfl, rfl⟩
  · rw [List.filterMap_eq_map'] at shown
    simp only [Gathered.replace, Option.map_eq_bind]
    exact shown.symm

theorem addFilter_bound {r : Select} {e : Scalar} (bound : (addFilter r e).Resolves env.parameters b) :
    ∃ a, r.Resolves env.parameters a ∧ b = addFilter a e := by
  have same := bound.same
  have clauses : (addFilter r e).source = r.source ∧ (addFilter r e).joins = r.joins ∧ (addFilter r e).union = r.union := by
    unfold addFilter
    split <;> exact ⟨rfl, rfl, rfl⟩
  refine ⟨_, bound.of_clauses clauses.1 clauses.2.1 clauses.2.2, ?_⟩
  unfold addFilter at same ⊢
  split at same
  next empty => rw [if_pos empty]; exact same
  next some => rw [if_neg some]; exact same

/-- What is counted reads nothing, so it is planned wherever it stands. -/
theorem count_gives (on : LeadsOn m db) {count : Expr} {r select : Select} {c : Scalar}
    (run : Step.Yields (against r (scalar m [] count)) v (c, select) w) :
    select = r ∧ ∀ env : Environment, count.result? m db env.parameters (fun e => e.nullAt [] []) [] =
      some ((Shape.scalar c).element m env []) := by
  obtain ⟨planned, rfl⟩ := against_yields.1 (against_scalar run)
  have nothing {P : String × Shape → Prop} : ∀ p ∈ ([] : Scope), P p := fun p member => absurd member List.not_mem_nil
  obtain ⟨rfl, -⟩ := (carries_still m).expr count (fun _ _ => trivial) trivial nothing planned
  obtain ⟨-, -, value⟩ := expr_standalone (L := []) count on (fun _ _ => List.not_mem_nil) nothing planned rfl
  refine ⟨?_, fun env => value env []⟩
  cases r
  rfl

theorem isClosed_of_isPaged (single : s.select.union = none) : isClosed s.select = s.select.isPaged := by
  rw [isClosed, single, Option.isSome_none, Bool.or_false]

section

variable {q : Query} {p : Planned} (on : LeadsOn m db) (sound : u.Sound) (gathering : Gathering m db env q s)
  (first : Step.Yields (query m q) u s v)

include on sound gathering first

theorem filter_gathered {l : Lambda} {subject : Subject} {condition : Scalar} {select : Select} {v' : Workspace}
    (wrapped : Step.Yields (wrapIf m subject (isClosed s.select) s) v t v') (own : l.ReadsOwn m [t.shape] t.select v')
    (run : Step.Yields (against t.select (scalar m (l.params.zip [t.shape]) l.body)) v' (condition, select) w) :
    Gathering m db env (.filter q l) { t with select := addFilter select condition } := by
  intro b all' found bound keeps
  have planned := (query_planned sound first).wrapIf wrapped
  have regular := (query_regular first).wrapIf wrapped
  obtain ⟨r, bound', rfl⟩ := addFilter_bound bound
  obtain ⟨a, resolved, again⟩ := against_bound (against_scalar run) bound'
  obtain ⟨all, frames, before, represents⟩ := filter_represents (t := { t with select := a }) on (planned.bound resolved)
    (regular.bound resolved) (own.behind resolved.joins.stands) again keeps
  obtain ⟨c, c', gathers, opened, operand, paged, -⟩ := gathering.operand (query_union first) wrapped resolved before
  rw [isClosed_of_isPaged (query_union first), ← paged] at opened
  exact ⟨_, .filter gathers opened, represents c' operand⟩

variable (env) in
theorem map_gathered {l : Lambda} {shape : Shape} {select : Select} (own : l.ReadsOwn m [s.shape] s.select v)
    (run : Step.Yields (against s.select (expr m (l.params.zip [s.shape]) l.body)) v (shape, select) w) :
    Gathering m db env (.map q l) { s with select, shape } := by
  intro b all' frames' bound keeps
  obtain ⟨a, resolved, again⟩ := against_bound run bound
  obtain ⟨all, frames, before, represents⟩ := map_represents (t := { s with select := a }) on
    ((query_planned sound first).bound resolved) ((query_regular first).bound resolved)
    (own.behind resolved.joins.stands) again keeps
  obtain ⟨c, gathers, operand⟩ := gathering a all frames resolved before
  exact ⟨_, .map gathers, represents c operand⟩

theorem orderBy_gathered {l : Lambda} {descending : Bool} {subject subject' : Subject} {k : Shape} {keys : List Scalar}
    {select : Select} {v' : Workspace} {operators : List String}
    (wrapped : Step.Yields (wrapIf m subject (isClosed s.select) s) v t v') (own : l.ReadsOwn m [t.shape] t.select v')
    (run : Step.Yields (against t.select (expr m (l.params.zip [t.shape]) l.body)) v' (k, select) w)
    (found : k.scalars subject' = .ok keys) :
    Gathering m db env (.orderBy q l descending)
      ⟨{ select with orderBy := keys.map fun key => { key, descending } }, t.shape, operators⟩ := by
  intro b all' frames' bound keeps
  have planned := (query_planned sound first).wrapIf wrapped
  have regular := (query_regular first).wrapIf wrapped
  have resolves := bound.of_clauses (s := select) rfl rfl rfl
  have clauses := bound.same
  have whole : Keeps db env { select with source := b.source, joins := b.joins, union := b.union } all' frames' := by
    rw [clauses] at keeps
    exact ⟨keeps.joined, keeps.kept⟩
  obtain ⟨a, all, frames, resolved, same, before, applied⟩ := lambda_applied on planned regular own run resolves whole
  obtain ⟨c, c', gathers, opened, represents, paged, -⟩ := gathering.operand (query_union first) wrapped resolved before
  rw [isClosed_of_isPaged (query_union first), ← paged] at opened
  have applied := applied c' represents
  have shown := applied.collect fun _ x y => some (y.keyRow, x)
  have limit : b.limit = a.limit ∧ b.offset = a.offset ∧ b.groupBy = a.groupBy := by
    have limit := congrArg Select.limit same
    have offset := congrArg Select.offset same
    have groupBy := congrArg Select.groupBy same
    rw [clauses]
    exact ⟨limit, offset, groupBy⟩
  have orderBy : b.orderBy = keys.map fun key => { key, descending } := by rw [clauses]
  -- all items sort in one direction, by the leaves of the key in turn
  have itemKeys : b.orderBy.map OrderItem.key = keys := by
    rw [orderBy, List.map_map]
    exact List.map_id _
  refine ⟨_, .orderBy descending gathers opened, ⟨?_, ?_, ?_, ?_, represents.nulls, ?_, applied.stays⟩⟩
  · rw [List.filterMap_eq_map'] at shown
    simp only [Gathered.replace, Option.map_eq_bind]
    refine shown.symm.trans (List.map_congr_left fun g _ => ?_)
    simp only [keyRow, itemKeys, scalars_row found g (m := m)]
    rfl
  · rw [itemKeys]
    exact orderBy
  · exact represents.limit.trans (by rw [limit.1])
  · exact represents.offset.trans (by rw [limit.2.1])
  · exact represents.grouped.trans (by rw [limit.2.2])

theorem groupBy_gathered {l : Lambda} {subject subject' : Subject} {k : Shape} {keys : List Scalar} {select : Select}
    {v' : Workspace} {operators : List String}
    (wrapped : Step.Yields (wrapIf m subject (isClosed s.select || !s.select.groupBy.isEmpty) s) v t v')
    (own : l.ReadsOwn m [t.shape] t.select v')
    (run : Step.Yields (against t.select (expr m (l.params.zip [t.shape]) l.body)) v' (k, select) w)
    (scalars : k.scalars subject' = .ok keys) :
    Gathering m db env (.groupBy q l) ⟨{ select with groupBy := keys, orderBy := [] }, .grouping k, operators⟩ := by
  intro b all' found bound keeps
  have planned := (query_planned sound first).wrapIf wrapped
  have regular := (query_regular first).wrapIf wrapped
  have ungrouped := ungrouped_of_wrapIf wrapped
  obtain ⟨limit, offset⟩ := unpaged_of_wrapIf (fun opened => by
    rw [← isClosed_of_isPaged (query_union first)]
    exact (Bool.or_eq_false_iff.1 opened).1) wrapped
  have resolves := bound.of_clauses (s := select) rfl rfl rfl
  have clauses := bound.same
  have plan := (against_yields.1 run).2
  have plain : select.groupBy = [] ∧ select.having = none := by
    rw [plan]
    exact ⟨ungrouped, regular.ungrouped ungrouped⟩
  have subset : found ⊆ all' := keeps.subset
  rw [clauses] at keeps
  obtain ⟨whole, grouping⟩ := keeps.before_grouping
    (s := { select with source := b.source, joins := b.joins, union := b.union }) plain
  obtain ⟨a, all, frames, resolved, same, before, applied⟩ := lambda_applied on planned regular own run resolves whole
  obtain ⟨c, c', gathers, opened, represents, paged, -, grouped⟩ :=
    gathering.operand (query_union first) wrapped resolved before
  rw [isClosed_of_isPaged (query_union first), ← paged, ← grouped] at opened
  have applied := applied c' represents
  have shown := applied.collect fun _ _ y => some y
  rw [List.filterMap_eq_map'] at shown
  simp only [Option.bind_fun_some] at shown
  have unpaged : select.limit = none ∧ select.offset = none := by
    rw [plan]
    exact ⟨limit, offset⟩
  have nulls : Nulls.underKey (l.nulls [c'.nulls]) = (Shape.grouping k).isNullAt := by
    rw [← applied.nulls]
    funext path
    cases path <;> rfl
  have groups (kept : List Element) (same : kept = found.map (k.element m env)) :
      Represents m db env ⟨b, .grouping k, operators⟩ all' found
        { Gathered.of (kept.map .group) with
          nulls := Nulls.underKey (l.nulls [c'.nulls])
          grouped := !keys.isEmpty } := by
    rw [clauses]
    refine ⟨?_, rfl, by simp [Gathered.of, unpaged.1], by simp [Gathered.of, unpaged.2], nulls, rfl,
      fun f member => .group (applied.met f member)⟩
    simp only [Gathered.of, same, List.map_map]
    rfl
  by_cases empty : keys = []
  · obtain rfl := empty
    obtain rfl := Except.ok.inj grouping
    refine ⟨_, .groupByNothing gathers opened rfl fun x member => ?_, groups _ shown.symm⟩
    rw [← shown] at member
    obtain ⟨f, -, rfl⟩ := List.mem_map.1 member
    exact scalars_leaves scalars f
  · rw [groupFrames, if_neg (by simpa using empty)] at grouping
    have first := firstOfGroups_keys (m := m) scalars (show List.map Element.row? [] = List.map some [] from rfl) grouping
    rw [shown] at first
    have some : (!keys.isEmpty) = true := by simpa using empty
    have represents := groups _ first.symm
    rw [some] at represents
    refine ⟨_, .groupBy gathers opened rfl fun x member => ?_, represents⟩
    rw [← shown] at member
    obtain ⟨f, -, rfl⟩ := List.mem_map.1 member
    rw [scalars_leaves scalars f]
    simpa using empty

omit sound in
theorem take_gathered {count : Expr} {subject : Subject} {limit : Scalar} {select : Select} {v' : Workspace}
    {operators : List String}
    (wrapped : Step.Yields (wrapIf m subject (s.select.limit.isSome || s.select.union.isSome) s) v t v')
    (run : Step.Yields (against t.select (scalar m [] count)) v' (limit, select) w) :
    Gathering m db env (.take q count) ⟨{ select with limit := some limit }, t.shape, operators⟩ := by
  intro b all frames bound keeps
  obtain ⟨rfl, number⟩ := count_gives on run
  have clauses := bound.same
  rw [clauses] at keeps ⊢
  have resolves := bound.of_clauses (s := t.select) rfl rfl rfl
  obtain ⟨c, c', gathers, opened, represents, -, limited, -⟩ :=
    gathering.operand (query_union first) wrapped resolves ⟨keeps.joined, keeps.kept⟩
  rw [query_union first, Option.isSome_none, Bool.or_false, ← limited] at opened
  exact ⟨_, .take gathers opened (number env), represents.entries, represents.sorted, rfl, represents.offset,
    represents.nulls, represents.grouped, represents.met⟩

omit sound in
theorem skip_gathered {count : Expr} {subject : Subject} {offset : Scalar} {select : Select} {v' : Workspace}
    {operators : List String} (wrapped : Step.Yields (wrapIf m subject (isClosed s.select) s) v t v')
    (run : Step.Yields (against t.select (scalar m [] count)) v' (offset, select) w) :
    Gathering m db env (.skip q count) ⟨{ select with offset := some offset }, t.shape, operators⟩ := by
  intro b all frames bound keeps
  obtain ⟨rfl, number⟩ := count_gives on run
  have clauses := bound.same
  rw [clauses] at keeps ⊢
  have resolves := bound.of_clauses (s := t.select) rfl rfl rfl
  obtain ⟨c, c', gathers, opened, represents, paged, -⟩ :=
    gathering.operand (query_union first) wrapped resolves ⟨keeps.joined, keeps.kept⟩
  rw [isClosed_of_isPaged (query_union first), ← paged] at opened
  exact ⟨_, .skip gathers opened (number env), represents.entries, represents.sorted, represents.limit, rfl,
    represents.nulls, represents.grouped, represents.met⟩

end

/-! ## Unions -/

theorem union_gathered {left right : Query} {l r l' r' p : Planned} {u' v' w' x y : Workspace} {subject : Subject}
    (gathering : Gathering m db env left l) (gathering' : Gathering m db env right r) (single : l.select.union = none)
    (single' : r.select.union = none)
    (wrapped : Step.Yields (wrapIf m subject (l.select.isPaged || !l.select.orderBy.isEmpty) l) u' l' v')
    (wrapped' : Step.Yields (wrapIf m subject (r.select.isPaged || !r.select.orderBy.isEmpty) r) v' r' w')
    (alike : ∀ label s ps t qs, l'.shape.expose m subject label none [] = .ok (s, ps) →
      r'.shape.expose m subject label none [] = .ok (t, qs) → s = t)
    (united : Step.Yields (unite m subject l' r') x p y) : Gathering m db env (.union left right) p := by
  intro b all frames bound keeps
  obtain ⟨a, a', resolved, resolved', united⟩ := unite_bound united bound (wrapIf_union single wrapped)
  obtain ⟨label, _, columns, others, -, -, exposed, ⟨_, exposed'⟩, same, shown⟩ := unite_yields united
  obtain ⟨select, shape, operators⟩ := p
  obtain ⟨rfl, rfl, rfl⟩ := Planned.mk.inj shown
  obtain rfl := alike _ _ _ _ _ exposed exposed'
  -- a side that is sorted or paged has become a subquery
  obtain ⟨orderBy, limit, offset⟩ : a.orderBy = [] ∧ a.limit = none ∧ a.offset = none := by
    obtain ⟨-, orderBy, limit, offset⟩ := resolved.clauses
    rw [orderBy, limit, offset]
    exact ⟨unordered_of_wrapIf (fun opened => by simpa using (Bool.or_eq_false_iff.1 opened).2) wrapped,
      unpaged_of_wrapIf (fun opened => (Bool.or_eq_false_iff.1 opened).1) wrapped⟩
  obtain ⟨rs, rows, -⟩ := joinedFrames_single.1 keeps.joined
  obtain ⟨lefts, rights, _, _, first, more, _, found, delivered, delivered', here, here', distinct, rfl⟩ :=
    union_rows orderBy limit offset (resolved'.union (wrapIf_union single' wrapped')) rows
  obtain ⟨c, gathers, xs, -, met⟩ := gathering.operand_delivered single wrapped resolved delivered
  obtain ⟨d, gathers', ys, -, met'⟩ := gathering'.operand_delivered single' wrapped' resolved' delivered'
  have among (z : Element)
      (member : z ∈ found.map fun row => shape.element m env [⟨label, first.columns, row⟩]) :
      z ∈ lefts.map (l'.shape.element m env) ++ rights.map (r'.shape.element m env) := by
    obtain ⟨row, inside, rfl⟩ := List.mem_map.1 member
    exact carried_into_union exposed exposed' same here here' (mem_of_unitedRows distinct inside)
  have seen (z : Element) (member : z ∈ found.map fun row => shape.element m env [⟨label, first.columns, row⟩]) :
      z.Within (Met m db) := by
    rcases List.mem_append.1 (among z member) with side | side
    · obtain ⟨f, inside, rfl⟩ := List.mem_map.1 side
      exact met f inside
    · obtain ⟨f, inside, rfl⟩ := List.mem_map.1 side
      exact met' f inside
  obtain ⟨_, rfl, leaves⟩ := exposed_leaves exposed
  obtain ⟨_, rfl, leaves'⟩ := exposed_leaves exposed'
  have free := (exposed_type exposed).2
  have width (z : Element) (member : z ∈ lefts.map (l'.shape.element m env) ++ rights.map (r'.shape.element m env)) :
      z.leaves.length = columns.length := by
    rcases List.mem_append.1 member with side | side
    · obtain ⟨f, -, rfl⟩ := List.mem_map.1 side
      rw [leaves, List.length_map]
    · obtain ⟨f, -, rfl⟩ := List.mem_map.1 side
      have names := congrArg List.length same
      rw [List.length_map, List.length_map] at names
      rw [leaves', List.length_map, names]
  by_cases empty : columns = []
  · refine ⟨_, .unionOfNothing gathers gathers' xs ys among fun z member => ?_, .bare free rows rfl seen keeps⟩
    exact List.length_eq_zero_iff.1 (by rw [width z member, empty, List.length_nil])
  · obtain ⟨keyed, keys, elements⟩ := united_elements exposed exposed' empty same here here' distinct
    rw [← elements] at seen
    refine ⟨_, .union gathers gathers' xs ys keys (fun z member leafless => empty ?_),
      .bare free rows elements.symm seen keeps⟩
    exact List.length_eq_zero_iff.1 (by rw [← width z member, leafless, List.length_nil])

end

end Planning

end Setwise
