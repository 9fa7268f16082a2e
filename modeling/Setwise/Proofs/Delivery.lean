import Setwise.Proofs.Arrangement
import Setwise.Proofs.Columns

/-!
The list that a planned query delivers.

Each operator keeps up that the frames of the planned select stand, in the order in which it delivers them,
for the elements of the list (`Delivers`), whether its clause goes to the select of its input or around it.
-/

set_option autoImplicit false

namespace Setwise.Planning

open Client Relational Execution Sorting

/-- The frames of a planned query stand for the elements of a list, which are of a type. -/
structure Delivers (m : Model) (db : Database) (env : Environment) (t : ElementType) (p : Planned)
    (xs : List Element) : Prop where
  groupBy : p.select.groupBy = []
  having : p.select.having = none
  type : p.shape.type? = some t
  nullFree : p.shape.NullFree
  frames : ∀ all, joinedFrames db env p.select = .ok all →
    Preordered (frameLe env p.select.orderBy) (all.filter (passes env p.select.predicate)) ∧
      ∀ found, page env p.select.limit p.select.offset
          (arranged env p.select.orderBy (all.filter (passes env p.select.predicate))) = .ok found →
        found.map (p.shape.element m env) = xs

variable {m : Model} {db : Database} {env : Environment} {t : ElementType} {xs ys : List Element}

theorem Delivers.delivered {p : Planned} (h : Delivers m db env t p xs) {frames : List Frame}
    (delivered : deliveredFrames db env p.select = .ok frames) : frames.map (p.shape.element m env) = xs := by
  obtain ⟨all, joined, paged⟩ := deliveredFrames_arranged h.groupBy h.having delivered
  exact (h.frames all joined).2 frames paged

theorem Delivers.unpaged {p : Planned} (h : Delivers m db env t p xs) (limit : p.select.limit = none)
    (offset : p.select.offset = none) {all : List Frame} (joined : joinedFrames db env p.select = .ok all) :
    (arranged env p.select.orderBy (all.filter (passes env p.select.predicate))).map
      (p.shape.element m env) = xs := by
  refine (h.frames all joined).2 _ ?_
  rw [limit, offset]
  exact page_unpaged.2 rfl

/-! ## Single sources -/

theorem joinedFrames_single {source : Source} {all : List Frame} :
    joinedFrames db env { source } = .ok all ↔
      ∃ rs, sourceRows db env source = .ok rs ∧ all = rs.rows.map fun r => [rs.visible r] := by
  rw [joinedFrames_eq_ok]
  constructor
  · rintro ⟨rs, columns, rows, joined⟩
    exact ⟨rs, rows, (joinAll_nil_eq_ok.1 joined).1⟩
  · rintro ⟨rs, rows, rfl⟩
    exact ⟨rs, [], rows, joinAll_nil_eq_ok.2 ⟨rfl, rfl⟩⟩

theorem Delivers.single {source : Source} {shape : Shape} {operators : List String}
    (type : shape.type? = some t) (nullFree : shape.NullFree)
    (rows : ∀ rs, sourceRows db env source = .ok rs →
      (rs.rows.map fun r => shape.element m env [rs.visible r]) = xs) :
    Delivers m db env t ⟨{ source }, shape, operators⟩ xs where
  groupBy := rfl
  having := rfl
  type := type
  nullFree := nullFree
  frames := by
    intro all joined
    obtain ⟨rs, found, rfl⟩ := joinedFrames_single.1 joined
    refine ⟨preordered_nil _, fun frames paged => ?_⟩
    rw [page_unpaged.1 paged]
    simp only [filter_passes_none, arranged_nil, List.map_map]
    exact rows rs found

theorem Delivers.rows {source : Source} {shape : Shape} {operators : List String}
    (h : Delivers m db env t ⟨{ source }, shape, operators⟩ xs) {rs : RowSet}
    (rows : sourceRows db env source = .ok rs) :
    (rs.rows.map fun r => shape.element m env [rs.visible r]) = xs := by
  have all := h.unpaged rfl rfl (joinedFrames_single.2 ⟨rs, rows, rfl⟩)
  rwa [filter_passes_none, arranged_nil, List.map_map] at all

/-! ## Subqueries -/

theorem Delivers.wrapIf {subject : Subject} {needed : Bool} {w w' : Workspace} {s p : Planned}
    (h : Delivers m db env t s xs) (union : s.select.union = none)
    (wrapped : Step.Yields (wrapIf m subject needed s) w p w') : Delivers m db env t p xs := by
  rcases wrapIf_yields wrapped with ⟨-, wrapped⟩ | ⟨-, rfl, -⟩
  · have carried (rs : RowSet) (rows : sourceRows db env p.select.source = .ok rs) :=
      carried_into_subquery wrapped union rows
    obtain ⟨label, shape, columns, -, -, exposed, rfl⟩ := wrap_yields wrapped
    obtain ⟨type, free⟩ := exposed_type exposed
    refine .single (type.trans h.type) free fun rs rows => ?_
    obtain ⟨frames, delivered, same⟩ := carried rs rows
    rw [same, h.delivered delivered]
  · exact h

theorem Delivers.asSource {subject : Subject} {w w' : Workspace} {s : Planned} {source : Source} {shape : Shape}
    (h : Delivers m db env t s xs) (union : s.select.union = none)
    (sourced : Step.Yields (asSource m subject s) w (source, shape) w') :
    Delivers m db env t ⟨{ source }, shape, s.operators⟩ xs := by
  obtain ⟨⟨select, _, operators⟩, wrapped, rfl, rfl⟩ := asSource_yields sourced
  obtain ⟨groupBy, having, type, nullFree, frames⟩ := h.wrapIf union wrapped
  exact ⟨groupBy, having, type, nullFree, frames⟩

theorem unpaged_of_wrapIf {subject : Subject} {needed : Bool} {w w' : Workspace} {s p : Planned}
    (unpaged : needed = false → s.select.isPaged = false) (h : Step.Yields (wrapIf m subject needed s) w p w') :
    p.select.limit = none ∧ p.select.offset = none :=
  of_wrapIf (P := fun t => t.limit = none ∧ t.offset = none) (fun _ => ⟨rfl, rfl⟩)
    (fun unneeded => by simpa [Select.isPaged] using unpaged unneeded) h

theorem unordered_of_wrapIf {subject : Subject} {needed : Bool} {w w' : Workspace} {s p : Planned}
    (unordered : needed = false → s.select.orderBy = [])
    (h : Step.Yields (wrapIf m subject needed s) w p w') : p.select.orderBy = [] :=
  of_wrapIf (P := fun t => t.orderBy = []) (fun _ => rfl) unordered h

/-! ## Lambdas -/

structure Applies (m : Model) (l : Lambda) (args : List Shape) (t : ElementType) (s : Shape) : Prop where
  type : s.type? = some t
  nullFree : s.NullFree
  element : ∀ (db : Database) (env : Environment) (f : Frame),
    s.element m env f = l.apply m db env.parameters (args.map (Shape.element m env f))

theorem fieldElements_zip (f : Frame) (names : List String) (args : List Shape) :
    Shape.fieldElements m env f (names.zip args) = names.zip (args.map (Shape.element m env f)) := by
  rw [Shape.fieldElements_eq_map, List.zip_map_right]
  rfl

theorem against_meaning {e : Expr} {scope : Scope} {types : List (String × ElementType)} {select select' : Select}
    {s : Shape} {v w : Workspace} (known : ScopeTyped scope types) (typed : e.type? m types = some t)
    (plain : e.plain = true) (run : Step.Yields (against select (expr m scope e)) v (s, select') w) :
    select' = select ∧ w = { v with joins := select.joins } ∧ Interprets m scope e t s ∧ s.NullFree := by
  obtain ⟨planned, rfl⟩ := against_yields.1 run
  obtain ⟨rfl, interprets⟩ := expr_meaning e known typed (by simp [plain]) planned
  cases select
  exact ⟨rfl, rfl, interprets, interprets.nullFree plain⟩

theorem Interprets.applies {l : Lambda} {args : List Shape} {s : Shape}
    (h : Interprets m (l.params.zip args) l.body t s) (free : s.NullFree) : Applies m l args t s where
  type := h.type
  nullFree := free
  element := fun db env f => by
    rw [h.element db env f, fieldElements_zip]
    rfl

theorem lambda_applies {l : Lambda} {args : List Shape} {types : List ElementType} {select select' : Select}
    {s : Shape} {v w : Workspace} (length : args.length = types.length)
    (each : ∀ p ∈ args.zip types, p.1.type? = some p.2 ∧ p.1.NullFree) (typed : l.type? m types = some t)
    (plain : l.body.plain = true)
    (run : Step.Yields (against select (expr m (l.params.zip args) l.body)) v (s, select') w) :
    select' = select ∧ Applies m l args t s := by
  obtain ⟨same, -, interprets, free⟩ := against_meaning (scopeTyped_zip length each _) typed plain run
  exact ⟨same, interprets.applies free⟩

theorem Delivers.typed {p : Planned} (h : Delivers m db env t p xs) :
    ∀ q ∈ [p.shape].zip [t], q.1.type? = some q.2 ∧ q.1.NullFree := by
  intro q member
  obtain rfl := List.mem_singleton.1 member
  exact ⟨h.type, h.nullFree⟩

theorem Delivers.applies {u : ElementType} {p : Planned} (h : Delivers m db env t p xs) {l : Lambda}
    {select : Select} {s : Shape} {v w : Workspace} (typed : l.type? m [t] = some u)
    (plain : l.body.plain = true)
    (run : Step.Yields (against p.select (expr m (l.params.zip [p.shape]) l.body)) v (s, select) w) :
    select = p.select ∧ Applies m l [p.shape] u s :=
  lambda_applies rfl h.typed typed plain run

theorem Delivers.standalone {u : ElementType} {p : Planned} (h : Delivers m db env t p xs) {l : Lambda}
    {subject : Subject} {s : Shape} {v w : Workspace} (typed : l.type? m [t] = some u)
    (plain : l.body.plain = true) (run : Step.Yields (standalone m (l.params.zip [p.shape]) subject l.body) v s w) :
    Applies m l [p.shape] u s := by
  obtain ⟨planned, -⟩ := standalone_yields run
  obtain ⟨-, interprets⟩ := expr_meaning l.body (scopeTyped_zip rfl h.typed _) typed (by simp [plain]) planned
  exact interprets.applies (interprets.nullFree plain)

theorem Delivers.appliesBoth {u a : ElementType} {p q : Planned} (h : Delivers m db env t p xs)
    (h' : Delivers m db env u q ys) {l : Lambda} {select select' : Select} {s : Shape} {v w : Workspace}
    (typed : l.type? m [t, u] = some a) (plain : l.body.plain = true)
    (run : Step.Yields (against select (expr m (l.params.zip [p.shape, q.shape]) l.body)) v (s, select') w) :
    select' = select ∧ Applies m l [p.shape, q.shape] a s := by
  refine lambda_applies rfl (fun r member => ?_) typed plain run
  simp only [List.zip_cons_cons, List.zip_nil_right, List.mem_cons, List.not_mem_nil, or_false] at member
  rcases member with rfl | rfl
  · exact ⟨h.type, h.nullFree⟩
  · exact ⟨h'.type, h'.nullFree⟩

theorem against_scalar {e : Expr} {scope : Scope} {select select' : Select} {c : Scalar} {v w : Workspace}
    (run : Step.Yields (against select (scalar m scope e)) v (c, select') w) :
    Step.Yields (against select (expr m scope e)) v (.scalar c, select') w := by
  obtain ⟨planned, rfl⟩ := against_yields.1 run
  exact against_yields.2 ⟨scalar_yields.1 planned, rfl⟩

theorem element_value? {c : Scalar} (f : Frame) :
    ((Shape.scalar c).element m env f).value? = valueOf env f c :=
  rfl

/-! ## Filter and map -/

theorem Delivers.filter {p : Planned} (h : Delivers m db env t p xs) (limit : p.select.limit = none)
    (offset : p.select.offset = none) {predicate : Lambda} {u : ElementType} {condition : Scalar}
    (applies : Applies m predicate [p.shape] u (.scalar condition))
    (kept : keepWhere (fun x => (predicate.apply m db env.parameters [x]).value?.map Value.isTrue) xs = some ys) :
    Delivers m db env t { p with select := addFilter p.select condition } ys := by
  have groupBy := h.groupBy
  unfold addFilter
  rw [groupBy, List.isEmpty_nil, if_pos rfl]
  refine ⟨rfl, h.having, h.type, h.nullFree, fun all joined => ?_⟩
  obtain ⟨preordered, -⟩ := h.frames all joined
  have before := h.unpaged limit offset joined
  have conditions (f : Frame) : passes env (some (Scalar.both p.select.predicate condition)) f =
      (passes env (some condition) f && passes env p.select.predicate f) := by
    rw [passes_both, Bool.and_comm]
  -- the two conditions of one filter are two filters
  have both : all.filter (passes env (some (Scalar.both p.select.predicate condition))) =
      (all.filter (passes env p.select.predicate)).filter (passes env (some condition)) := by
    rw [List.filter_filter]
    exact List.filter_congr fun f _ => conditions f
  refine ⟨both ▸ preordered.subset List.filter_sublist.subset, fun found paged => ?_⟩
  simp only [limit, offset, page_unpaged] at paged
  rw [paged, both]
  unfold arranged at before ⊢
  -- a stable sort commutes with the filter
  rw [← filter_sorted preordered]
  refine (keepWhere_map (fun f _ keep decided => ?_) (before ▸ kept)).symm
  rw [passes_some, ← element_value? (m := m), applies.element db env f]
  simp only [List.map_cons, List.map_nil, decided, Option.getD_some]

theorem Delivers.map {p : Planned} (h : Delivers m db env t p xs) {selector : Lambda} {u : ElementType}
    {shape : Shape} (applies : Applies m selector [p.shape] u shape) :
    Delivers m db env u { p with shape }
      (xs.map fun x => selector.apply m db env.parameters [x]) := by
  refine ⟨h.groupBy, h.having, applies.type, applies.nullFree, fun all joined => ?_⟩
  obtain ⟨preordered, page⟩ := h.frames all joined
  refine ⟨preordered, fun found paged => ?_⟩
  rw [← page found paged, List.map_map]
  exact List.map_congr_left fun f _ => applies.element db env f

/-! ## Ordering -/

theorem scalars_leaves {subject : Subject} {s : Shape} {es : List Scalar} (h : Shape.scalars subject s = .ok es)
    (f : Frame) : (s.element m env f).leaves = es.map (valueOf env f) := by
  induction s using Shape.induction generalizing es with
  | scalar e =>
    obtain rfl := Except.ok.inj h
    rfl
  | record fields ih =>
    unfold Shape.scalars at h
    unfold Shape.element Element.leaves
    induction fields generalizing es with
    | nil =>
      obtain rfl := Except.ok.inj h
      rfl
    | cons p rest later =>
      obtain ⟨name, s⟩ := p
      obtain ⟨first, others⟩ := List.forall_mem_cons.1 ih
      obtain ⟨here, hs, h⟩ := bind_eq_ok.1 h
      obtain ⟨behind, hr, h⟩ := bind_eq_ok.1 h
      obtain rfl := pure_eq_ok.1 h
      unfold Shape.fieldElements Shape.fieldElement Element.fieldsLeaves Element.fieldLeaves
      rw [first hs, later others hr, List.map_append]
  | grouping key ih => exact ih h
  | entity r => exact absurd h (not_fail_eq_ok _ _)
  | excluded name columns => exact absurd h (not_fail_eq_ok _ _)

theorem scalars_row {subject : Subject} {s : Shape} {es : List Scalar} (h : Shape.scalars subject s = .ok es)
    (f : Frame) : (evalAll env f es).toOption = (s.element m env f).row? := by
  rw [evalAll_toOption, Element.row?, scalars_leaves h, List.mapM_map]
  rfl

theorem Delivers.orderBy {p : Planned} (h : Delivers m db env t p xs) (limit : p.select.limit = none)
    (offset : p.select.offset = none) (unordered : p.select.orderBy = []) {key : Lambda} {descending : Bool}
    {subject : Subject} {u : ElementType} {k : Shape} {keys : List Scalar} (applies : Applies m key [p.shape] u k)
    (found : Shape.scalars subject k = .ok keys) {keyed : List (Row × Element)}
    (rows : withRows (fun x => key.apply m db env.parameters [x]) xs = some keyed)
    (sorted : sorted? descending keyed = some ys) {operators : List String} :
    Delivers m db env t
      ⟨{ p.select with orderBy := keys.map fun key => { key, descending } }, p.shape, operators⟩ ys := by
  refine ⟨h.groupBy, h.having, h.type, h.nullFree, fun all joined => ?_⟩
  have before := h.unpaged limit offset joined
  rw [unordered, arranged_nil] at before
  have keyRows (f : Frame) : (evalAll env f keys).toOption =
      (key.apply m db env.parameters [p.shape.element m env f]).row? := by
    rw [scalars_row (m := m) found, applies.element db env f]
    rfl
  obtain ⟨preordered, order⟩ := arranged_sorted (fun f _ => keyRows f) (before ▸ rows) sorted
  refine ⟨preordered, fun frames paged => ?_⟩
  simp only [limit, offset, page_unpaged] at paged
  rw [paged]
  exact order

/-! ## Paging -/

theorem pageCount_eq_ok {e : Scalar} {found : Option Nat} {n : Nat} {x : Element}
    (element : (Shape.scalar e).element m env [] = x) (count : x.count? = some n)
    (h : pageCount env (some e) = .ok found) : found = some n := by
  obtain ⟨v, value, h⟩ := bind_eq_ok.1 h
  have computed : x = .scalar (some v) := by
    rw [← element]
    unfold Shape.element
    rw [value]
    rfl
  subst computed
  cases v with
  | int i =>
    simp only [Element.count?] at count
    split at count
    next bound =>
      obtain rfl := Option.some.inj count
      simp only [bound, if_true] at h
      exact (pure_eq_ok.1 h).symm
    next => cases count
  | null | bool _ | text _ | blob _ | real _ => cases h

theorem Interprets.count {e : Expr} {c : Scalar} (h : Interprets m [] e t (.scalar c)) :
    (Shape.scalar c).element m env [] = e.meaning m db env.parameters [] :=
  h.element db env []

theorem Delivers.take {p : Planned} (h : Delivers m db env t p xs) (limit : p.select.limit = none)
    {count : Expr} {u : ElementType} {c : Scalar} (interprets : Interprets m [] count u (.scalar c)) {n : Nat}
    (number : (count.meaning m db env.parameters []).count? = some n) {operators : List String} :
    Delivers m db env t ⟨{ p.select with limit := some c }, p.shape, operators⟩ (xs.take n) := by
  refine ⟨h.groupBy, h.having, h.type, h.nullFree, fun all joined => ?_⟩
  obtain ⟨preordered, page⟩ := h.frames all joined
  refine ⟨preordered, fun found paged => ?_⟩
  obtain ⟨skip, skipped, paged⟩ := bind_eq_ok.1 paged
  obtain ⟨take, taken, paged⟩ := bind_eq_ok.1 paged
  obtain rfl := pure_eq_ok.1 paged
  obtain rfl := pageCount_eq_ok interprets.count number taken
  have before := page _ (bind_eq_ok.2 ⟨skip, skipped, by rw [limit]; rfl⟩)
  rw [List.map_take, before]

theorem Delivers.skip {p : Planned} (h : Delivers m db env t p xs) (limit : p.select.limit = none)
    (offset : p.select.offset = none) {count : Expr} {u : ElementType} {c : Scalar}
    (interprets : Interprets m [] count u (.scalar c)) {n : Nat}
    (number : (count.meaning m db env.parameters []).count? = some n) {operators : List String} :
    Delivers m db env t ⟨{ p.select with offset := some c }, p.shape, operators⟩ (xs.drop n) := by
  refine ⟨h.groupBy, h.having, h.type, h.nullFree, fun all joined => ?_⟩
  obtain ⟨preordered, -⟩ := h.frames all joined
  have before := h.unpaged limit offset joined
  refine ⟨preordered, fun found paged => ?_⟩
  obtain ⟨skip, skipped, paged⟩ := bind_eq_ok.1 paged
  obtain ⟨take, taken, paged⟩ := bind_eq_ok.1 paged
  obtain rfl := pageCount_eq_ok interprets.count number skipped
  simp only [limit] at taken
  obtain rfl := Except.ok.inj taken
  obtain rfl := pure_eq_ok.1 paged
  rw [Option.getD_some, List.map_drop, before]

end Setwise.Planning
