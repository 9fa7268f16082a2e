import Setwise.Proofs.RelabelledPlans
import Setwise.Proofs.ShownElements

/-!
Operators behind a subquery.

A query that skips no element, or takes all of them, has the elements of the query without that, but an operator behind it
is planned against the columns of a subquery. The operator still makes the same of these elements
(`elements_same_behind_paging`), up to the order of ties where it sorts elements that have been sorted before.
-/

set_option autoImplicit false

namespace Setwise

open Client Relational Execution Planning Sorting

/-! ## Paging that keeps everything -/

inductive Client.Expr.IsNumber (ps : Parameters) : Expr → Nat → Prop where
  | constant (n : Nat) : IsNumber ps (.constant (.int n)) n
  | captured (name : String) (n : Nat) : IsNumber ps (.captured name (.int n)) n
  | runtime {name : String} {n : Nat} (given : ps.scalar name = .ok (.int n)) : IsNumber ps (.runtime name) n

namespace Planning

/-- The query with paging behind it that keeps every element. `s` is the select of the query. -/
inductive Pushes (db : Database) (env : Environment) (q : Query) (s : Select) : Query → Prop where
  | skip {count : Expr} (zero : count.IsNumber env.parameters 0) : Pushes db env q s (.skip q count)
  | take {count : Expr} {n : Nat} {frames : List Frame} (number : count.IsNumber env.parameters n)
      (delivered : deliveredFrames db env s = .ok frames) (enough : frames.length ≤ n) : Pushes db env q s (.take q count)

theorem Step.Yields.unique {α : Type} {x : Step α} {a b : α} {w v v' : Workspace} (h : Step.Yields x w a v)
    (h' : Step.Yields x w b v') : b = a ∧ v' = v := by
  obtain ⟨result, rfl⟩ := Prod.mk.inj (h'.symm.trans h)
  exact ⟨Except.ok.inj result, rfl⟩

section

variable {m : Model} {db : Database} {env : Environment} {q q' : Query} {s t p : Planned} {u v w : Workspace}
  {frames found : List Frame}

theorem number_yields {count : Expr} {n : Nat} (number : count.IsNumber env.parameters n) {c : Scalar}
    (run : Step.Yields (scalar m [] count) u c w) :
    w = u ∧ ∀ {found : Option Nat}, pageCount env (some c) = .ok found → found = some n := by
  have run := scalar_yields.1 run
  -- whatever the form of the count, it is evaluated to the number
  have counted (e : Scalar) (value : eval env [] e = .ok (.int n)) :
      ∀ {found : Option Nat}, pageCount env (some e) = .ok found → found = some n := by
    intro found h
    obtain ⟨v, evaluated, h⟩ := bind_eq_ok.1 h
    obtain rfl := Except.ok.inj (value.symm.trans evaluated)
    dsimp only at h
    rw [if_pos (Int.natCast_nonneg n)] at h
    exact (pure_eq_ok.1 h).symm
  cases number with
  | constant n =>
    obtain ⟨shape, rfl⟩ := Step.yields_pure.1 (by simpa only [expr] using run)
    obtain rfl := Shape.scalar.inj shape
    exact ⟨rfl, counted _ rfl⟩
  | captured name n =>
    obtain ⟨shape, rfl⟩ := Step.yields_pure.1 (by simpa only [expr] using run)
    obtain rfl := Shape.scalar.inj shape
    exact ⟨rfl, counted _ rfl⟩
  | runtime given =>
    obtain ⟨shape, rfl⟩ := Step.yields_pure.1 (by simpa only [expr] using run)
    obtain rfl := Shape.scalar.inj shape
    refine ⟨rfl, counted _ ?_⟩
    unfold eval
    rw [given]
    rfl

theorem page_skipped {c : Scalar} {items : List Frame}
    (zero : ∀ {found : Option Nat}, pageCount env (some c) = .ok found → found = some 0)
    (h : page env none (some c) items = .ok found) : found = items := by
  obtain ⟨skip, skipped, h⟩ := bind_eq_ok.1 h
  obtain ⟨take, taken, h⟩ := bind_eq_ok.1 h
  obtain rfl := zero skipped
  obtain rfl := Except.ok.inj taken
  exact (pure_eq_ok.1 h).symm

theorem page_taken {c : Scalar} {offset : Option Scalar} {n : Nat} {items : List Frame}
    (number : ∀ {found : Option Nat}, pageCount env (some c) = .ok found → found = some n)
    (h : page env (some c) offset items = .ok found) :
    ∃ kept, page env none offset items = .ok kept ∧ found = kept.take n := by
  obtain ⟨skip, skipped, h⟩ := bind_eq_ok.1 h
  obtain ⟨take, taken, h⟩ := bind_eq_ok.1 h
  obtain rfl := number taken
  exact ⟨_, bind_eq_ok.2 ⟨skip, skipped, rfl⟩, (pure_eq_ok.1 h).symm⟩

/-- Paging that keeps everything, as it is planned behind the query `s`: behind `t`, which is that query or a subquery
of it. -/
structure Opened (m : Model) (db : Database) (env : Environment) (s p : Planned) (v w : Workspace) (subject : Subject)
    (needed : Bool) (t : Planned) (v' : Workspace) (limit offset : Option Scalar) : Prop where
  wrapped : Step.Yields (wrapIf m subject needed s) v t v'
  reason : needed = true → isClosed s.select = true
  select : p.select = { t.select with limit, offset }
  shape : p.shape = t.shape
  workspace : w = { v' with joins := t.select.joins }
  closed : isClosed p.select = true
  page : ∀ {items found : List Frame}, page env limit offset items = .ok found →
    (∀ frames kept, deliveredFrames db env s.select = .ok frames →
      page env t.select.limit t.select.offset items = .ok kept → kept.length ≤ frames.length) →
    Execution.page env t.select.limit t.select.offset items = .ok found

theorem Pushes.opened (h : Pushes db env q s.select q') (first : Step.Yields (query m q) u s v)
    (second : Step.Yields (query m q') u p w) :
    ∃ subject needed t v' limit offset, Opened m db env s p v w subject needed t v' limit offset := by
  -- skipping none and taking enough leave all elements, so what follows finds the same
  cases h with
  | skip zero =>
    obtain ⟨s', x, t, v', c, select, first', wrapped, run, rfl⟩ := skip_yields second
    obtain ⟨rfl, rfl⟩ := first.unique first'
    obtain ⟨counts, rfl⟩ := against_yields.1 run
    obtain ⟨rfl, counted⟩ := number_yields zero counts
    obtain ⟨limit, offset⟩ := unpaged_of_wrapIf (fun opened => (Bool.or_eq_false_iff.1 opened).1) wrapped
    refine ⟨_, _, t, v', t.select.limit, some c, wrapped, id, rfl, rfl, rfl, ?_, fun paged _ => ?_⟩
    · simp [isClosed, Select.isPaged]
    · rw [limit] at paged
      rw [limit, offset, page_unpaged]
      exact page_skipped (counted) paged
  | @take count n kept number delivered enough =>
    obtain ⟨s', x, t, v', c, select, first', wrapped, run, rfl⟩ := take_yields second
    obtain ⟨rfl, rfl⟩ := first.unique first'
    obtain ⟨counts, rfl⟩ := against_yields.1 run
    obtain ⟨rfl, counted⟩ := number_yields number counts
    have limit : t.select.limit = none :=
      of_wrapIf (P := fun t => t.limit = none) (fun _ => rfl)
        (fun opened => by simpa using (Bool.or_eq_false_iff.1 opened).1) wrapped
    refine ⟨_, _, t, v', some c, t.select.offset, wrapped, fun needed => ?_, rfl, rfl, rfl, ?_, fun paged fits => ?_⟩
    · revert needed
      simp only [isClosed, Select.isPaged, Bool.or_eq_true]
      exact Or.imp_left .inl
    · simp [isClosed, Select.isPaged]
    · obtain ⟨rest, unlimited, rfl⟩ := page_taken (counted) paged
      rw [← limit] at unlimited
      rw [List.take_of_length_le ((fits kept rest delivered unlimited).trans enough)]
      exact unlimited

/-! ## Operands -/

theorem shows_wrapped {subject : Subject} (sound : u.Sound) (first : Step.Yields (query m q) u s v)
    (wrapped : Step.Yields (wrap m subject s) v t w) {all : List Frame} (joined : joinedFrames db env t.select = .ok all) :
    ∃ frames, deliveredFrames db env s.select = .ok frames ∧ Shows m db env u w t all ∧
      all.map (t.shape.element m env) = frames.map (s.shape.element m env) := by
  have wrapped' : Step.Yields (wrapIf m subject true s) v t w := wrapped
  have planned := (query_planned sound first).wrapIf wrapped'
  have regular := (query_regular first).wrapIf wrapped'
  obtain ⟨source, single⟩ : ∃ source, t.select = { source } := by
    obtain ⟨label, shape, columns, -, -, -, rfl⟩ := wrap_yields wrapped
    exact ⟨_, rfl⟩
  obtain ⟨rs, rows, rfl⟩ := joinedFrames_single.1 (single ▸ joined)
  obtain ⟨frames, delivered, same⟩ := carried_into_subquery wrapped (query_union first) (by rw [single]; exact rows)
  refine ⟨frames, delivered, ⟨planned, regular, ?_, ?_, ?_, ?_⟩, by rw [List.map_map]; exact same⟩
  · rw [single]
  · rw [single]
  · rw [single] at joined ⊢
    exact selectFrames_eq_ok.2 ⟨_, joined, restrict_bare _⟩
  · rw [single]
    exact preordered_nil _

theorem length_of_page {items items' kept kept' : List Frame} {limit offset : Option Scalar}
    (h : page env limit offset items = .ok kept) (h' : page env limit offset items' = .ok kept')
    (fewer : items.length ≤ items'.length) : kept.length ≤ kept'.length := by
  obtain ⟨skip, skipped, h⟩ := bind_eq_ok.1 h
  obtain ⟨take, taken, h⟩ := bind_eq_ok.1 h
  obtain ⟨skip', skipped', h'⟩ := bind_eq_ok.1 h'
  obtain ⟨take', taken', h'⟩ := bind_eq_ok.1 h'
  obtain rfl := Except.ok.inj (skipped.symm.trans skipped')
  obtain rfl := Except.ok.inj (taken.symm.trans taken')
  obtain rfl := pure_eq_ok.1 h
  obtain rfl := pure_eq_ok.1 h'
  cases take with
  | none => simp only [List.length_drop]; omega
  | some n => simp only [List.length_take, List.length_drop]; omega

theorem deliveredFrames_repaged {r : Select} {limit offset : Option Scalar}
    (h : deliveredFrames db env { r with limit, offset } = .ok found) :
    ∃ kept, selectFrames db env r = .ok kept ∧ page env limit offset (arranged env r.orderBy kept) = .ok found ∧
      (page env r.limit r.offset (arranged env r.orderBy kept) = .ok found → deliveredFrames db env r = .ok found) := by
  obtain ⟨kept, selected, h⟩ := bind_eq_ok.1 h
  obtain ⟨sorted, ordered, paged⟩ := bind_eq_ok.1 h
  obtain rfl := sortFrames_eq_ok ordered
  exact ⟨kept, selected, paged, fun same => bind_eq_ok.2 ⟨kept, selected, bind_eq_ok.2 ⟨_, ordered, same⟩⟩⟩

section

variable {subject : Subject} {needed : Bool} {v' : Workspace} {limit offset : Option Scalar}

/-- What is planned behind such paging is planned as without it. -/
theorem Opened.against {α : Type} {x : Step α} {a : α} {select : Select} {z : Workspace}
    (h : Opened m db env s p v w subject needed t v' limit offset)
    (run : Step.Yields (against p.select x) w (a, select) z) :
    Step.Yields (Planning.against t.select x) v' (a, { t.select with joins := z.joins }) z ∧
      select = { ({ t.select with joins := z.joins } : Select) with limit, offset } := by
  obtain ⟨planned, rfl⟩ := against_yields.1 run
  rw [h.workspace, h.select] at planned
  exact ⟨against_yields.2 ⟨planned, rfl⟩, by rw [h.select]⟩

theorem Opened.delivers (h : Opened m db env s p v w subject needed t v' limit offset) (sound : u.Sound)
    (first : Step.Yields (query m q) u s v) (delivered : deliveredFrames db env p.select = .ok found) :
    ∃ frames, deliveredFrames db env s.select = .ok frames ∧
      found.map (p.shape.element m env) = frames.map (s.shape.element m env) := by
  rw [h.select] at delivered
  obtain ⟨kept, selected, paged, before⟩ := deliveredFrames_repaged delivered
  rw [h.shape]
  rcases wrapIf_yields h.wrapped with ⟨-, wrapped⟩ | ⟨-, rfl, -⟩
  · obtain ⟨all, joined, -⟩ := selectFrames_eq_ok.1 selected
    obtain ⟨frames, inside, shows, same⟩ := shows_wrapped sound first wrapped joined
    obtain rfl := Except.ok.inj (shows.selected.symm.trans selected)
    obtain ⟨label, shape, columns, -, -, -, rfl⟩ := wrap_yields wrapped
    rw [arranged_nil] at paged
    have kept := h.page paged fun frames' kept delivered' unpaged => by
      obtain rfl := page_unpaged.1 unpaged
      obtain rfl := Except.ok.inj (inside.symm.trans delivered')
      simpa using (congrArg List.length same).le
    obtain rfl := page_unpaged.1 kept
    exact ⟨frames, inside, same⟩
  · refine ⟨found, before (h.page paged fun frames kept' delivered' unpaged => ?_), rfl⟩
    obtain ⟨_, selected', paged'⟩ := deliveredFrames_sorted delivered'
    obtain rfl := Except.ok.inj (selected.symm.trans selected')
    obtain rfl := Except.ok.inj (unpaged.symm.trans paged')
    exact le_rfl

end

end

/-! ## Operators behind a query -/

end Planning

namespace Client

def Stage.wraps (s : Select) : Stage → Bool
  | .map _ => false
  | .filter _ | .orderBy .. => isClosed s
  | .join .. => isClosed s || !s.groupBy.isEmpty

variable (m : Model)

def Stage.PlainBehind (t : Planned) (v : Workspace) : Stage → Prop
  | .filter l | .map l | .orderBy l _ =>
    ReadsPlainly m (l.params.zip [t.shape]) l.body { v with joins := t.select.joins }
  | .join inner outerKey innerKey result =>
    ∀ subject i x source shape y l select z r z' on, Step.Yields (query m inner) v i x →
      Step.Yields (asSource m subject i) x (source, shape) y →
      Step.Yields (against t.select (expr m (outerKey.params.zip [t.shape]) outerKey.body)) y (l, select) z →
      Step.Yields (standalone m (innerKey.params.zip [shape]) subject innerKey.body) z r z' →
      Shape.equality m subject l r = .ok on →
      ReadsPlainly m (outerKey.params.zip [t.shape]) outerKey.body { y with joins := t.select.joins } ∧
      ReadsPlainly m (innerKey.params.zip [shape]) innerKey.body { z with joins := [] } ∧
      ReadsPlainly m (result.params.zip [t.shape, shape]) result.body
        { z' with joins := select.joins ++ [⟨.inner, source, some on⟩] }

/-- The lambdas of an operator read plainly where they are planned behind the query. -/
def Stage.ReadsPlainly (u : Workspace) (q : Query) (stage : Stage) : Prop :=
  ∀ s v t v', Step.Yields (query m q) u s v →
    Step.Yields (wrapIf m (.query (stage.on q)) (stage.wraps s.select) s) v t v' → stage.PlainBehind m t v'

def Stage.Draws (db : Database) (env : Environment) (ys : List Element) : Stage → Prop
  | .join inner .. => ∃ subject x i y source shape z rs, Workspace.Sound x ∧ x.labels.Nodup ∧
      Step.Yields (query m inner) x i y ∧ Step.Yields (asSource m subject i) y (source, shape) z ∧
      sourceRows db env source = .ok rs ∧ (rs.rows.map fun r => shape.element m env [rs.visible r]) = ys
  | .filter _ | .map _ | .orderBy .. => ys = []

theorem Stage.Draws.unique {m : Model} {db : Database} {env : Environment} {ys ys' : List Element} {stage : Stage}
    (h : stage.Draws m db env ys) (h' : stage.Draws m db env ys') : ys' = ys := by
  cases stage with
  | filter | map | orderBy => exact h'.trans h.symm
  | join =>
    obtain ⟨_, x, i, y, source, shape, z, rs, sound, distinct, first, sourced, rows, rfl⟩ := h
    obtain ⟨_, x', i', y', source', shape', z', rs', sound', distinct', first', sourced', rows', rfl⟩ := h'
    exact sourceElements_same sound sound' distinct distinct' first sourced first' sourced' rows rows'

end Client

namespace Planning

section

variable {m : Model} {db : Database} {env : Environment} {q q' : Query} {s p : Planned} {u v w : Workspace}
  {found : List Frame} {stage : Stage}

theorem joinedFrames_addFilter (r : Select) (c : Scalar) : joinedFrames db env (addFilter r c) = joinedFrames db env r := by
  unfold addFilter
  split <;> rfl

section

variable {t : Planned} {v' z z' : Workspace} {subject : Subject} {needed : Bool} {limit offset : Option Scalar}
  {selector : Lambda} {shape shape' : Shape} {select select' : Select} {found' : List Frame}

/-- A lambda that is planned directly behind paging that keeps everything. -/
theorem Opened.map (one : z.FollowsOne m db) (one' : z'.FollowsOne m db) (sound : u.Sound) (first : Step.Yields (query m q) u s v)
    (h : Opened m db env s p v w subject needed t v' limit offset)
    (plain : ReadsPlainly m (selector.params.zip [s.shape]) selector.body { v with joins := s.select.joins })
    (plain' : ReadsPlainly m (selector.params.zip [p.shape]) selector.body { w with joins := p.select.joins })
    (run : Step.Yields (Planning.against s.select (expr m (selector.params.zip [s.shape]) selector.body)) v (shape, select) z)
    (run' : Step.Yields (Planning.against p.select (expr m (selector.params.zip [p.shape]) selector.body)) w
      (shape', select') z')
    (delivered : deliveredFrames db env select = .ok found) (delivered' : deliveredFrames db env select' = .ok found')
    (reached : isClosed s.select = true → ∀ frames, selectFrames db env s.select = .ok frames → ∀ f ∈ frames,
      (selector.result? m db env.parameters [s.shape.element m env f]).isSome) :
    found'.map (shape'.element m env) = found.map (shape.element m env) := by
  rw [h.shape, h.workspace, h.select] at plain'
  rw [h.shape] at run'
  obtain ⟨read, rfl⟩ := h.against run'
  obtain ⟨kept, selected, paged, before⟩ := deliveredFrames_repaged delivered'
  rcases wrapIf_yields h.wrapped with ⟨closed, wrapped⟩ | ⟨-, rfl, rfl⟩
  · -- the subquery shows what the query delivers, and no frame is lost in either place
    have planned := (query_planned sound first).wrapIf h.wrapped
    obtain ⟨later, joined, -⟩ := selectFrames_eq_ok.1 selected
    obtain ⟨all, joined⟩ := joined_of_against planned (by simpa using planned.shape) read joined
    obtain ⟨frames, inside, shows, same⟩ := shows_wrapped sound first wrapped joined
    -- the joins of the selector grow the frames of the query, and never add one
    have fewer := (selected_grows one' shows.planned shows.regular plain' read shows.selected
      selected).length_le
    have whole := before (h.page paged fun frames' kept' delivered unpaged => by
      rw [shows.limit, shows.offset, page_unpaged] at unpaged
      obtain rfl := Except.ok.inj (inside.symm.trans delivered)
      have lengths := congrArg List.length same
      simp only [List.length_map] at lengths
      rw [unpaged, arranged, List.length_mergeSort, ← lengths]
      exact fewer)
    obtain ⟨before', selected', -⟩ := deliveredFrames_sorted inside
    have shown : elements m env t all = frames.map (s.shape.element m env) := by
      obtain ⟨label, exposed, columns, -, -, -, rfl⟩ := wrap_yields wrapped
      rw [elements, arranged_nil, same]
    have applied : _ = Stage.apply m db env.parameters [] (elements m env t all) (.map selector) :=
      shows.map one' plain' read whole
    rw [applied, shown]
    exact (map_paged one (query_planned sound first) (query_regular first) plain run selected' inside
      (reached (h.reason closed) _ selected') delivered).symm
  · -- the frames are the same
    obtain ⟨result, rfl⟩ := run.unique read
    obtain ⟨rfl, rfl⟩ := Prod.mk.inj result
    have whole := before (h.page paged fun frames kept' inside unpaged => by
      obtain ⟨all, selected', paged'⟩ := deliveredFrames_sorted inside
      refine length_of_page unpaged paged' ?_
      simp only [arranged, List.length_mergeSort]
      exact (selected_grows one (query_planned sound first) (query_regular first) plain run
        selected' selected).length_le)
    obtain rfl := Except.ok.inj (delivered.symm.trans whole)
    rfl

end

end

/-! ## Numbers in falling order -/

def numbers : LocalRows :=
  .records ["Id"] [⟨none, [("Id", .int 1)]⟩, ⟨none, [("Id", .int 2)]⟩]

def positive : Lambda where
  params := ["x"]
  body := .binary (.member (.param "x") "Id") .greater (.constant (.int 0))

end Planning

end Setwise
