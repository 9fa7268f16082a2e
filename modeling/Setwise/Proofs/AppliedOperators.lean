import Setwise.Proofs.Combining
import Setwise.Proofs.ReadElements
import Setwise.Proofs.ReferenceJoins

/-!
What the operators of a query make of its elements.

`Stage.apply` says what a list of elements becomes behind an operator whose lambdas follow references. Where the lambdas
read plainly, this is what the select of the operator delivers (`filter_applied`, `map_applied`, `orderBy_applied`,
`join_applied`): elements whose references are lost are lost, and the others keep their order.
-/

set_option autoImplicit false

namespace Setwise

open Client Relational Execution Planning Sorting

/-! ## Operators -/

namespace Client

inductive Stage where
  | filter (predicate : Lambda)
  | map (selector : Lambda)
  | orderBy (key : Lambda) (descending : Bool)
  | join (inner : Query) (outerKey innerKey result : Lambda)

def Stage.on (q : Query) : Stage → Query
  | filter predicate => .filter q predicate
  | map selector => .map q selector
  | orderBy key descending => .orderBy q key descending
  | join inner outerKey innerKey result => .join q inner outerKey innerKey result

end Client

def Element.holds (x : Element) : Bool :=
  (x.value?.map Value.isTrue).getD false

def Element.keyRow (x : Element) : Row :=
  x.row?.getD []

/-- The elements that have an equal key. -/
def partnersOf (m : Model) (keyOf : Element → Option Element) (ys : List Element) (key : Element) : List Element :=
  ys.filter fun y => (((keyOf y).bind (Element.equality m key)).map Value.isTrue).getD false

section

variable (m : Model) (db : Database) (ps : Parameters)

def matchResults (innerKey result : Lambda) (ys : List Element) (x key : Element) : List Element :=
  (ys.filter fun y => (((innerKey.result? m db ps [y]).bind (Element.equality m key)).map Value.isTrue).getD false).filterMap
    fun y => result.result? m db ps [x, y]

/-- What the elements `xs` become behind an operator. `ys` are the elements of the inner query of a join. -/
def Client.Stage.apply (ys xs : List Element) : Stage → List Element
  | .filter predicate =>
    xs.filterMap fun x => (predicate.result? m db ps [x]).bind fun y => if y.holds then some x else none
  | .map selector => xs.filterMap fun x => selector.result? m db ps [x]
  | .orderBy key descending =>
    let keyed := xs.filterMap fun x => (key.result? m db ps [x]).map fun k => (k.keyRow, x)
    (keyed.mergeSort (rowLe descending)).map Prod.snd
  | .join _ outerKey innerKey result =>
    xs.flatMap fun x => (outerKey.result? m db ps [x]).toList.flatMap (matchResults m db ps innerKey result ys x)

/-- By this key, the first of two elements is not behind the second one. -/
def Client.Lambda.orders (key : Lambda) (descending : Bool) (x y : Element) : Bool :=
  (key.result? m db ps [x]).all fun k => (key.result? m db ps [y]).all fun l => rowLe descending (k.keyRow, x) (l.keyRow, y)

end

namespace Planning

/-! ## Frames that have grown -/

section

variable {α β γ : Type} {frames later : List Frame} {P : Frame → Option Frame → Prop} {a : Frame → α} {b : Frame → β}
  {X : Frame → Option α}

/-- Frames that pass a condition on their first rows can be selected before they grow. -/
theorem Grow.filter (h : Grow frames later P) {p : Frame → Bool} (same : ∀ f ∈ frames, ∀ g, f <+: g → p g = p f) :
    Grow (frames.filter p) (later.filter p) P := by
  obtain ⟨grown, rfl, all⟩ := h
  refine ⟨grown, ?_, fun f member => all f (List.mem_filter.1 member).1⟩
  rw [List.filter_filterMap, List.filterMap_filter]
  refine List.filterMap_congr fun f member => ?_
  cases found : grown f with
  | none => simp
  | some g =>
    have here := same f member g ((all f member).1 g found)
    cases kept : p f <;> simp [Option.filter, here, kept]

theorem Grow.length_le (h : Grow frames later P) : later.length ≤ frames.length := by
  obtain ⟨grown, rfl, -⟩ := h
  exact List.length_filterMap_le grown frames

theorem Grow.arranged {env : Environment} {items : List OrderItem} (h : Grow frames later P)
    (preordered : Preordered (frameLe env items) frames)
    (same : ∀ f ∈ frames, ∀ g, f <+: g → keyRow env items g = keyRow env items f) :
    Preordered (frameLe env items) later ∧
      Grow (Execution.arranged env items frames) (Execution.arranged env items later) P := by
  obtain ⟨grown, rfl, all⟩ := h
  have flat (l : List Frame) : l.filterMap grown = l.flatMap fun f => (grown f).toList := List.filterMap_eq_flatMap_toList ..
  -- the keys are read in the front part of a frame, which growing leaves alone
  have keys : ∀ f ∈ frames, ∀ g ∈ frames, ∀ f' ∈ (grown f).toList, ∀ g' ∈ (grown g).toList,
      frameLe env items f' g' = frameLe env items f g := by
    intro f hf g hg f' inside g' inside'
    unfold frameLe
    rw [same f hf f' ((all f hf).1 f' (Option.mem_toList.1 inside)),
      same g hg g' ((all g hg).1 g' (Option.mem_toList.1 inside'))]
  refine ⟨flat frames ▸ preordered.flatMap keys, grown, ?_, fun f member => all f (List.mem_mergeSort.1 member)⟩
  unfold Execution.arranged
  rw [flat, flat, flatMap_sorted preordered keys]

theorem Returns.flatMap (h : Returns frames later a X) (keeps : ∀ f ∈ frames, ∀ g, f <+: g → b g = b f)
    (make : β → α → List γ) :
    (later.flatMap fun g => make (b g) (a g)) = frames.flatMap fun f => (X f).toList.flatMap (make (b f)) := by
  obtain ⟨grown, rfl, all⟩ := h
  rw [List.filterMap_eq_flatMap_toList, List.flatMap_assoc, List.flatMap_def, List.flatMap_def]
  refine congrArg List.flatten (List.map_congr_left fun f member => ?_)
  obtain ⟨more, shows⟩ := all f member
  rw [← shows]
  cases found : grown f with
  | none => rfl
  | some g => simp [keeps f member g (more g found)]

theorem Returns.filterMap (h : Returns frames later a X) (keeps : ∀ f ∈ frames, ∀ g, f <+: g → b g = b f)
    (make : β → α → Option γ) :
    (later.filterMap fun g => make (b g) (a g)) = frames.filterMap fun f => (X f).bind (make (b f)) := by
  have made := h.flatMap keeps fun x y => (make x y).toList
  rw [List.filterMap_eq_flatMap_toList, List.filterMap_eq_flatMap_toList, made]
  congr 1
  funext f
  cases X f <;> simp

theorem Returns.total (h : Returns frames later a X) (known : ∀ f ∈ frames, (X f).isSome) :
    ∃ grown : Frame → Frame, later = frames.map grown ∧ ∀ f ∈ frames, f <+: grown f ∧ X f = some (a (grown f)) := by
  obtain ⟨grown, rfl, all⟩ := h
  have grows : ∀ f ∈ frames, grown f = some ((grown f).getD f) := fun f member => by
    have shows := known f member
    rw [← (all f member).2, Option.isSome_map] at shows
    obtain ⟨g, found⟩ := Option.isSome_iff_exists.1 shows
    rw [found]
    rfl
  refine ⟨fun f => (grown f).getD f, ?_, fun f member => ⟨(all f member).1 _ (Option.mem_def.2 (grows f member)), ?_⟩⟩
  · rw [List.filterMap_congr grows, List.filterMap_eq_map']
  · exact (all f member).2.symm.trans (congrArg (Option.map a) (grows f member))

end

/-! ## Grouped selects -/

/-- Only groups are filtered behind grouping, and the elements there show no entity. -/
structure Planned.Regular (p : Planned) : Prop where
  ungrouped : p.select.groupBy = [] → p.select.having = none
  grouped : p.select.groupBy ≠ [] → p.shape.views = []

section

variable {m : Model} {w w' : Workspace} {s p : Planned}

theorem carries_still (m : Model) :
    Carries m (fun _ => True) (fun _ => True) (fun w w' => w' = w) (fun _ s => s.views = []) where
  refl := fun _ => rfl
  trans := fun first second => second.trans first
  stays := fun _ => trivial
  keeps := fun _ none => none
  constant := fun _ => rfl
  runtime := fun _ => rfl
  member := fun {w w' s t name whole} _ none h => by
    obtain ⟨member, rfl⟩ | ⟨r, _, _, _, _, _, reference, -⟩ := readMember_yields h
    · refine ⟨rfl, List.eq_nil_iff_forall_not_mem.2 fun r inside => ?_⟩
      rcases Shape.views_of_static member inside with seen | ⟨r', seen, -⟩
      · exact List.not_mem_nil (none ▸ seen)
      · exact List.not_mem_nil (none ▸ seen)
    · obtain rfl := reference.shape
      cases none
  operator := fun _ _ _ => rfl
  not := fun _ => rfl
  case := fun _ _ _ => rfl
  record := fun fields => List.eq_nil_iff_forall_not_mem.2 fun r inside => by
    obtain ⟨f, member, here⟩ := Shape.mem_fieldsViews.1 inside
    exact List.not_mem_nil (fields f member ▸ here)

theorem against_still {l : Lambda} {t : Shape} {select : Select} (none : s.shape.views = [])
    (h : Step.Yields (against s.select (expr m (l.params.zip [s.shape]) l.body)) w (t, select) w') :
    select = s.select ∧ t.views = [] := by
  obtain ⟨run, rfl⟩ := against_yields.1 h
  have given : ∀ p ∈ l.params.zip [s.shape], p.2.views = [] := fun p member => by
    rw [List.mem_singleton.1 (List.of_mem_zip member).2]
    exact none
  obtain ⟨rfl, shows⟩ := (carries_still m).expr l.body (fun _ _ => trivial) trivial given run
  cases s.select
  exact ⟨rfl, shows⟩

theorem scalars_views {subject : Subject} {s : Shape} {es : List Scalar} (h : s.scalars subject = .ok es) :
    s.views = [] := by
  induction s using Shape.induction generalizing es with
  | scalar e => rfl
  | entity r => exact absurd h (not_fail_eq_ok _ _)
  | record fields ih =>
    unfold Shape.scalars at h
    unfold Shape.views
    induction fields generalizing es with
    | nil => rfl
    | cons f rest later =>
      obtain ⟨name, s⟩ := f
      obtain ⟨first, others⟩ := List.forall_mem_cons.1 ih
      obtain ⟨here, hs, h⟩ := bind_eq_ok.1 h
      obtain ⟨behind, hr, -⟩ := bind_eq_ok.1 h
      unfold Shape.fieldsViews Shape.fieldViews
      rw [first hs, later others hr]
      rfl
  | grouping key ih => exact ih h
  | excluded type columns => exact absurd h (not_fail_eq_ok _ _)

theorem Planned.Regular.wrapIf (regular : s.Regular) {subject : Subject} {needed : Bool}
    (h : Step.Yields (wrapIf m subject needed s) w p w') : p.Regular := by
  rcases wrapIf_yields h with ⟨-, wrapped⟩ | ⟨-, rfl, -⟩
  · obtain ⟨label, shape, columns, -, -, -, rfl⟩ := wrap_yields wrapped
    exact ⟨fun _ => rfl, fun grouped => absurd rfl grouped⟩
  · exact regular

theorem ungrouped_of_wrapIf {subject : Subject} {closed : Bool}
    (h : Step.Yields (wrapIf m subject (closed || !s.select.groupBy.isEmpty) s) w p w') : p.select.groupBy = [] :=
  of_wrapIf (P := fun t => t.groupBy = []) (fun _ => rfl)
    (fun opened => by simpa using (Bool.or_eq_false_iff.1 opened).2) h

theorem query_regular {q : Query} (h : Step.Yields (query m q) w p w') : p.Regular := by
  induction q generalizing w w' p with
  | set name =>
    obtain ⟨e, t, -, -, -, rfl⟩ := set_yields h
    exact ⟨fun _ => rfl, fun grouped => absurd rfl grouped⟩
  | rows rows =>
    obtain ⟨label, -, rfl⟩ := rows_yields h
    exact ⟨fun _ => rfl, fun grouped => absurd rfl grouped⟩
  | filter input predicate ih =>
    obtain ⟨s, v, t, v', c, select, first, wrapped, run, rfl⟩ := filter_yields h
    obtain ⟨ungrouped, grouped⟩ := (ih first).wrapIf wrapped
    obtain ⟨-, rfl⟩ := against_yields.1 run
    -- a condition goes to WHERE, or to HAVING once the select is grouped
    unfold addFilter
    split
    next => exact ⟨ungrouped, grouped⟩
    next some => exact ⟨fun none => absurd (List.isEmpty_iff.2 none) some, grouped⟩
  | map input selector ih =>
    obtain ⟨s, v, shape, select, first, run, rfl⟩ := map_yields h
    obtain ⟨ungrouped, grouped⟩ := ih first
    obtain ⟨-, same⟩ := against_yields.1 run
    refine ⟨fun none => ?_, fun some => ?_⟩
    · rw [same] at none ⊢
      exact ungrouped none
    · rw [same] at some
      exact (against_still (grouped some) run).2
  | join outer inner outerKey innerKey result iho =>
    obtain ⟨s, v, t, x, i, y, source, shape, z, l, select, z', r, z'', on, element, select', first, wrapped, -, -, run,
      -, -, run', rfl⟩ := join_yields h
    obtain ⟨ungrouped, -⟩ := (iho first).wrapIf wrapped
    -- a grouped query is wrapped before it is joined
    have none := ungrouped_of_wrapIf wrapped
    obtain ⟨-, rfl⟩ := against_yields.1 run
    obtain ⟨-, rfl⟩ := against_yields.1 run'
    exact ⟨ungrouped, fun grouped => absurd none grouped⟩
  | orderBy input key descending ih =>
    obtain ⟨s, v, t, v', k, select, keys, first, wrapped, run, -, rfl⟩ := orderBy_yields h
    obtain ⟨ungrouped, grouped⟩ := (ih first).wrapIf wrapped
    obtain ⟨-, rfl⟩ := against_yields.1 run
    exact ⟨ungrouped, grouped⟩
  | take input count ih =>
    obtain ⟨s, v, t, v', c, select, first, wrapped, run, rfl⟩ := take_yields h
    obtain ⟨ungrouped, grouped⟩ := (ih first).wrapIf wrapped
    obtain ⟨-, rfl⟩ := against_yields.1 run
    exact ⟨ungrouped, grouped⟩
  | skip input count ih =>
    obtain ⟨s, v, t, v', c, select, first, wrapped, run, rfl⟩ := skip_yields h
    obtain ⟨ungrouped, grouped⟩ := (ih first).wrapIf wrapped
    obtain ⟨-, rfl⟩ := against_yields.1 run
    exact ⟨ungrouped, grouped⟩
  | groupBy input key ih =>
    obtain ⟨s, v, t, v', k, select, keys, first, wrapped, run, found, rfl⟩ := groupBy_yields h
    obtain ⟨ungrouped, -⟩ := (ih first).wrapIf wrapped
    have none := ungrouped_of_wrapIf wrapped
    obtain ⟨-, rfl⟩ := against_yields.1 run
    -- the keys become the only values that the select shows
    exact ⟨fun _ => ungrouped none, fun _ => scalars_views found⟩
  | union left right =>
    obtain ⟨l, x, r, y, t, z, u, a, -, -, -, -, united⟩ := union_yields h
    obtain ⟨label, shape, columns, others, -, -, -, -, -, rfl⟩ := unite_yields united
    exact ⟨fun _ => rfl, fun grouped => absurd rfl grouped⟩

end

/-! ## Lambdas -/

section

variable {m : Model} {db : Database} {env : Environment} {u v w : Workspace} {t : Planned} {frames later : List Frame}

theorem lambda_grows {K : Element → Prop} (leads : w.Leads m db K) {nulls : Expr → Bool} {l : Lambda}
    {args : List Shape} {select select' : Select} {s : Shape} (inScope : Scoped v select)
    (visible : ∀ a ∈ args, ∀ k ∈ a.labels, k ∈ select.labels)
    (plain : ReadsAs m nulls (l.params.zip args) l.body { v with joins := select.joins })
    (run : Step.Yields (against select (expr m (l.params.zip args) l.body)) v (s, select') w)
    (given : ∀ f ∈ frames, ∀ a ∈ args, (a.element m env f).Within K)
    (all : joinedFrames db env select = .ok frames) (all' : joinedFrames db env select' = .ok later) :
    Returns frames later (s.element m env) fun f =>
      l.body.result? m db env.parameters nulls (l.params.zip (args.map (Shape.element m env f))) := by
  obtain ⟨planned, rfl⟩ := against_yields.1 run
  let start : Workspace := { v with joins := select.joins }
  have within : Scoped start (start.select select.source) :=
    (inScope.of_labels rfl rfl : Scoped start select).of_sources rfl rfl
  have given' : ∀ f ∈ frames, ∀ p ∈ Shape.fieldElements m env f (l.params.zip args), p.2.Within K := by
    intro f inside p member
    rw [fieldElements_zip] at member
    obtain ⟨a, here, same⟩ := List.mem_map.1 (List.of_mem_zip member).2
    exact same ▸ given f inside a here
  refine (expr_grows leads within (reads_zip visible) plain planned given' all all').congr fun f _ => ?_
  rw [fieldElements_zip]

theorem passes_prefix {p : Planned} (planned : FreshlyPlanned u v p) {all : List Frame}
    (joined : joinedFrames db env p.select = .ok all) {condition : Option Scalar}
    (clause : ∀ e ∈ condition, e ∈ clauses p.select) {f g : Frame} (member : f ∈ all) (more : f <+: g) :
    passes env condition g = passes env condition f := by
  obtain ⟨rest, rfl⟩ := more
  refine passes_append (fun e found l inside => ?_) rest
  exact labels_of_joinedFrames joined member ▸ planned.clauses e (clause e found) l inside

theorem keyRow_front {p : Planned} (planned : FreshlyPlanned u v p) {all : List Frame}
    (joined : joinedFrames db env p.select = .ok all) {f g : Frame} (member : f ∈ all) (more : f <+: g) :
    keyRow env p.select.orderBy g = keyRow env p.select.orderBy f := by
  obtain ⟨rest, rfl⟩ := more
  refine keyRow_append (fun item inside l seen => ?_) rest
  exact labels_of_joinedFrames joined member ▸
    planned.clauses item.key (mem_clauses.2 (.inr (.inr (.inr ⟨item, inside, rfl⟩)))) l seen

theorem shape_front {p : Planned} (planned : FreshlyPlanned u v p) {all : List Frame}
    (joined : joinedFrames db env p.select = .ok all) {f g : Frame} (member : f ∈ all) (more : f <+: g) :
    p.shape.element m env g = p.shape.element m env f := by
  obtain ⟨rest, rfl⟩ := more
  exact Shape.element_append (fun l inside => labels_of_joinedFrames joined member ▸ planned.shape l inside) rest

theorem selected_grows (one : w.FollowsOne m db) (planned : FreshlyPlanned u v t) (regular : t.Regular) {l : Lambda}
    {select : Select} {s : Shape} (plain : ReadsPlainly m (l.params.zip [t.shape]) l.body { v with joins := t.select.joins })
    (run : Step.Yields (against t.select (expr m (l.params.zip [t.shape]) l.body)) v (s, select) w)
    (before : selectFrames db env t.select = .ok frames) (after : selectFrames db env select = .ok later) :
    Returns frames later (s.element m env) fun f =>
      l.result? m db env.parameters [t.shape.element m env f] := by
  obtain ⟨all, joined, restricted⟩ := selectFrames_eq_ok.1 before
  obtain ⟨all', joined', restricted'⟩ := selectFrames_eq_ok.1 after
  have visible : ∀ a ∈ [t.shape], ∀ k ∈ a.labels, k ∈ t.select.labels := by
    simpa using planned.shape
  have grows := lambda_grows one.leads planned.inScope visible plain run (fun _ _ _ _ => Element.within_trivial _)
    joined joined'
  -- only the frames of a select without grouping can grow: behind a grouping a lambda reads the keys alone
  by_cases none : t.select.groupBy = []
  · obtain ⟨-, same⟩ := against_yields.1 run
    have having := regular.ungrouped none
    rw [none, having] at restricted
    rw [same] at restricted'
    dsimp only at restricted'
    rw [none, having] at restricted'
    obtain rfl := restrict_ungrouped restricted
    obtain rfl := restrict_ungrouped restricted'
    exact grows.filter fun f member g more =>
      passes_prefix planned joined (fun e found => mem_clauses.2 (.inl found)) member more
  · obtain ⟨rfl, -⟩ := against_still (regular.grouped none) run
    obtain rfl := Except.ok.inj (joined.symm.trans joined')
    obtain rfl := Except.ok.inj (before.symm.trans after)
    exact .refl fun f member => (grows.same f (mem_of_restrict restricted member)).symm

theorem deliveredFrames_sorted {s : Select} {found : List Frame} (h : deliveredFrames db env s = .ok found) :
    ∃ frames, selectFrames db env s = .ok frames ∧ page env s.limit s.offset (arranged env s.orderBy frames) = .ok found := by
  obtain ⟨frames, selected, h⟩ := bind_eq_ok.1 h
  obtain ⟨sorted, ordered, h⟩ := bind_eq_ok.1 h
  obtain rfl := sortFrames_eq_ok ordered
  exact ⟨frames, selected, h⟩

theorem restrict_bare (frames : List Frame) : restrict env none [] none frames = .ok frames :=
  bind_eq_ok.2 ⟨frames, filterFrames_none frames, bind_eq_ok.2 ⟨frames, rfl, filterFrames_none frames⟩⟩

theorem filterFrames_both {c : Option Scalar} {e : Scalar} {kept : List Frame}
    (h : filterFrames env (some (Scalar.both c e)) frames = .ok kept) :
    filterFrames env c frames = .ok (frames.filter (passes env c)) ∧
      kept = (frames.filter (passes env c)).filter (passes env (some e)) := by
  obtain ⟨rfl, evaluated⟩ := filterFrames_eq_ok h
  refine ⟨filterFrames_of_holds fun f member => ?_, ?_⟩
  · obtain ⟨keep, _, here, -, -⟩ := holds_both (evaluated f member)
    exact ⟨keep, here⟩
  · rw [List.filter_filter]
    refine List.filter_congr fun f _ => ?_
    rw [passes_both, Bool.and_comm]

theorem selectFrames_addFilter {s : Select} {c : Scalar} {kept : List Frame} (plain : s.groupBy = [] → s.having = none)
    (h : selectFrames db env (addFilter s c) = .ok kept) :
    ∃ frames, selectFrames db env s = .ok frames ∧ kept = frames.filter (passes env (some c)) := by
  obtain ⟨all, joined, restricted⟩ := selectFrames_eq_ok.1 h
  unfold addFilter at joined restricted
  split at joined
  next empty =>
    have ungrouped := List.isEmpty_iff.1 empty
    rw [if_pos empty] at restricted
    dsimp only at restricted
    rw [ungrouped, plain ungrouped] at restricted
    obtain ⟨filtered, first, grouping⟩ := bind_eq_ok.1 restricted
    obtain ⟨alone, rfl⟩ := filterFrames_both first
    obtain ⟨groups, grouped, last⟩ := bind_eq_ok.1 grouping
    obtain rfl := Except.ok.inj grouped
    obtain rfl := Except.ok.inj ((filterFrames_none _).symm.trans last)
    refine ⟨_, selectFrames_eq_ok.2 ⟨all, joined, ?_⟩, rfl⟩
    rw [ungrouped, plain ungrouped]
    exact bind_eq_ok.2 ⟨_, alone, bind_eq_ok.2 ⟨_, rfl, filterFrames_none _⟩⟩
  next some =>
    rw [if_neg some] at restricted
    obtain ⟨filtered, first, grouping⟩ := bind_eq_ok.1 restricted
    obtain ⟨groups, grouped, last⟩ := bind_eq_ok.1 grouping
    obtain ⟨alone, rfl⟩ := filterFrames_both last
    exact ⟨_, selectFrames_eq_ok.2 ⟨all, joined, bind_eq_ok.2 ⟨_, first, bind_eq_ok.2 ⟨_, grouped, alone⟩⟩⟩, rfl⟩

end

end Planning

end Setwise
