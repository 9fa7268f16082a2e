import Setwise.Proofs.BoundSelects
import Setwise.Proofs.StandaloneResults

/-!
The frames of a select and what a query gathers.

The frames that a select keeps stand for gathered elements when they have the same elements beside the same keys, and the
select has the same paging to come (`Represents`). Then the frames that it delivers show the elements that are delivered
(`Represents.delivered`). What a lambda gives for the elements is what the frames show once its references have joined
(`Keeps.before`, `lambda_gives`).
-/

set_option autoImplicit false

namespace Setwise

open Client Relational Execution Planning Sorting

section

variable {m : Model} {db : Database}

theorem Met.is_entity {x : Element} (h : Met m db x) : ∃ type row, x = .entity type row := by
  cases h <;> exact ⟨_, _, rfl⟩

theorem member_of_entity {type name : String} {row : List (String × Option Value)} {y : Element}
    (h : (Element.entity type row).member m db name = some y) :
    (∃ v, y = .scalar v) ∨ ∃ type row, y = .entity type row := by
  obtain ⟨e, -, h⟩ := Option.bind_eq_some_iff.1 h
  split at h
  next => exact .inl ⟨_, (Option.some.inj h).symm⟩
  next =>
    obtain ⟨n, -, h⟩ := Option.bind_eq_some_iff.1 h
    split at h
    · obtain ⟨columns, -, h⟩ := Option.bind_eq_some_iff.1 h
      exact .inr ⟨_, _, (Option.some.inj h).symm⟩
    · obtain ⟨e', -, h⟩ := Option.bind_eq_some_iff.1 h
      obtain ⟨t, -, h⟩ := Option.bind_eq_some_iff.1 h
      obtain ⟨pairs, -, h⟩ := Option.bind_eq_some_iff.1 h
      split at h
      · exact .inr ⟨_, _, (Option.some.inj h).symm⟩
      · exact .inr ⟨_, _, (Option.some.inj h).symm⟩
      · cases h

theorem LeadsOn.leads (on : LeadsOn m db) (w : Workspace) : w.Leads m db (Met m db) where
  owned := on.owned
  references := fun entry _ x met => on.single x entry.1.2 met
  closed := by
    intro x name y met read
    obtain ⟨type, row, rfl⟩ := met.is_entity
    obtain ⟨v, rfl⟩ | ⟨type', row', rfl⟩ := member_of_entity read
    · exact .scalar v
    · exact .entity (.member met read)

end

namespace Gathered

theorem mergeSort_of_unkeyed (descending : Bool) (xs : List Element) :
    (((of xs).entries).mergeSort (rowLe descending)).map Prod.snd = xs := by
  rw [List.mergeSort_of_pairwise]
  · simp [of]
  · exact List.pairwise_map.2 (List.pairwise_of_forall fun _ _ => rfl)

theorem delivered_of (xs : List Element) (nulls : Nulls) (grouped : Bool) :
    ({ of xs with nulls, grouped } : Gathered).delivered? = some xs := by
  have same := mergeSort_of_unkeyed false xs
  simp only [delivered?, of, number?] at same ⊢
  simp [same]

theorem delivered_of_opened {c c' : Gathered} {needed : Bool} (h : c.opened? needed = some c') :
    c'.delivered? = c.delivered? := by
  unfold opened? at h
  split at h
  · obtain ⟨xs, found, rfl⟩ := Option.map_eq_some_iff.1 h
    rw [found]
    exact delivered_of xs _ _
  · rw [Option.some.inj h]

theorem nulls_of_opened {c c' : Gathered} {needed : Bool} (h : c.opened? needed = some c') :
    c'.nulls = c.nulls ∨ c'.nulls = Nulls.none := by
  unfold opened? at h
  split at h
  · obtain ⟨xs, -, rfl⟩ := Option.map_eq_some_iff.1 h
    exact .inr rfl
  · exact .inl (by rw [Option.some.inj h])

end Gathered

namespace Planning

section

variable {m : Model} {db : Database} {env : Environment} {u v w : Workspace} {t : Planned} {s : Select}
  {all all' frames frames' later : List Frame} {c : Gathered}

/-! ## Frames that are kept -/

/-- The frames of a select that pass its clauses. Frames that a clause cannot be computed in do not pass it. -/
structure Keeps (db : Database) (env : Environment) (s : Select) (all frames : List Frame) : Prop where
  joined : joinedFrames db env s = .ok all
  kept : ∃ base, groupFrames env s.groupBy (all.filter (passes env s.predicate)) = .ok base ∧
    frames = base.filter (passes env s.having)

theorem keeps_of_selectFrames (h : selectFrames db env s = .ok frames) : ∃ all, Keeps db env s all frames := by
  obtain ⟨all, joined, restricted⟩ := selectFrames_eq_ok.1 h
  obtain ⟨kept, first, restricted⟩ := bind_eq_ok.1 restricted
  obtain ⟨base, grouped, last⟩ := bind_eq_ok.1 restricted
  obtain ⟨rfl, -⟩ := filterFrames_eq_ok first
  exact ⟨all, joined, base, grouped, (filterFrames_eq_ok last).1⟩

theorem Keeps.ungrouped (h : Keeps db env s all frames) (groupBy : s.groupBy = []) (having : s.having = none) :
    frames = all.filter (passes env s.predicate) := by
  obtain ⟨base, grouped, rfl⟩ := h.kept
  rw [groupBy] at grouped
  obtain rfl := Except.ok.inj grouped
  rw [having, filter_passes_none]

theorem keeps_ungrouped (joined : joinedFrames db env s = .ok all) (groupBy : s.groupBy = []) (having : s.having = none) :
    Keeps db env s all (all.filter (passes env s.predicate)) :=
  ⟨joined, _, by rw [groupBy]; rfl, by rw [having, filter_passes_none]⟩

/-- The frames before grouping are those of the select without its groups. -/
theorem Keeps.before_grouping {keys : List Scalar} {orderBy : List OrderItem} (plain : s.groupBy = [] ∧ s.having = none)
    (h : Keeps db env { s with groupBy := keys, orderBy } all frames) :
    Keeps db env s all (all.filter (passes env s.predicate)) ∧
      groupFrames env keys (all.filter (passes env s.predicate)) = .ok frames := by
  obtain ⟨base, grouping, kept⟩ := h.kept
  obtain rfl : frames = base := by
    rw [kept]
    dsimp only
    rw [plain.2, filter_passes_none]
  exact ⟨keeps_ungrouped h.joined plain.1 plain.2, grouping⟩

/-- Pruned filters keep the same frames. -/
theorem Keeps.of_sift (h : Keeps db env s.sift all frames) : Keeps db env s all frames := by
  obtain ⟨base, grouped, rfl⟩ := h.kept
  have kept (l : List Frame) (e : Option Scalar) : l.filter (passes env (e.bind Scalar.prune)) = l.filter (passes env e) :=
    List.filter_congr fun f _ => passes_pruned env f e
  refine ⟨h.joined, base, ?_, kept base s.having⟩
  rw [← kept all s.predicate]
  exact grouped

theorem Keeps.subset (h : Keeps db env s all frames) : frames ⊆ all := by
  obtain ⟨base, grouped, rfl⟩ := h.kept
  intro f member
  have inside := (List.mem_filter.1 member).1
  unfold groupFrames at grouped
  split at grouped
  · obtain rfl := Except.ok.inj grouped
    exact (List.mem_filter.1 inside).1
  · exact (List.mem_filter.1 (mem_of_firstOfGroups grouped inside)).1

theorem Keeps.of_addFilter {e : Scalar} (plain : s.groupBy = [] → s.having = none)
    (h : Keeps db env (addFilter s e) all frames) :
    ∃ before, Keeps db env s all before ∧ frames = before.filter (passes env (some e)) := by
  have joined : joinedFrames db env s = .ok all := joinedFrames_addFilter s e ▸ h.joined
  have both (c : Option Scalar) (l : List Frame) : l.filter (passes env (some (Scalar.both c e))) =
      (l.filter (passes env c)).filter (passes env (some e)) := by
    rw [List.filter_filter]
    exact List.filter_congr fun f _ => by rw [passes_both, Bool.and_comm]
  unfold addFilter at h
  split at h
  next empty =>
    have groupBy := List.isEmpty_iff.1 empty
    have having := plain groupBy
    exact ⟨_, keeps_ungrouped joined groupBy having, (h.ungrouped groupBy having).trans (both _ _)⟩
  next =>
    obtain ⟨base, grouped, rfl⟩ := h.kept
    exact ⟨_, ⟨joined, base, grouped, rfl⟩, both _ _⟩

/-- What the frames of a select become by planning against it, those that are kept become as well. -/
theorem Keeps.before (planned : FreshlyPlanned u v t) (regular : t.Regular) {l : Lambda} {shape : Shape} {select : Select}
    (run : Step.Yields (against t.select (expr m (l.params.zip [t.shape]) l.body)) v (shape, select) w)
    (h : Keeps db env select all' frames') :
    ∃ all frames, Keeps db env t.select all frames ∧ ∀ P, Grow all all' P → Grow frames frames' P := by
  by_cases grouped : t.select.groupBy = []
  · obtain ⟨all, joined⟩ := joined_of_against planned (by simpa using planned.shape) run h.joined
    have having := regular.ungrouped grouped
    obtain ⟨-, same⟩ := against_yields.1 run
    refine ⟨all, _, keeps_ungrouped joined grouped having, fun P grow => ?_⟩
    obtain rfl := h.ungrouped (by rw [same]; exact grouped) (by rw [same]; exact having)
    rw [same]
    exact grow.filter fun f member g more =>
      passes_prefix planned joined (fun _ found => mem_clauses.2 (.inl found)) member more
  · -- the elements of groups show no entity, so nothing has joined
    obtain ⟨rfl, -⟩ := against_still (regular.grouped grouped) run
    exact ⟨all', frames', h, fun P grow => .refl fun f member => grow.same f (h.subset member)⟩

/-! ## Frames and gathered elements -/

/-- The frames of a planned query stand for gathered elements, of which those in `all` have been met. -/
structure Represents (m : Model) (db : Database) (env : Environment) (p : Planned) (all frames : List Frame)
    (c : Gathered) : Prop where
  entries : c.entries = frames.map fun f => (keyRow env p.select.orderBy f, p.shape.element m env f)
  sorted : p.select.orderBy = (p.select.orderBy.map OrderItem.key).map fun key => { key, descending := c.descending }
  limit : c.limit = p.select.limit.map fun e => (Shape.scalar e).element m env []
  offset : c.offset = p.select.offset.map fun e => (Shape.scalar e).element m env []
  nulls : c.nulls = p.shape.isNullAt
  grouped : c.grouped = !p.select.groupBy.isEmpty
  met : ∀ f ∈ all, (p.shape.element m env f).Within (Met m db)

/-- What frames stand for does not depend on the filters that they have passed. -/
theorem Represents.sift {p : Planned} (h : Represents m db env p all frames c) :
    Represents m db env { p with select := p.select.sift } all frames c :=
  ⟨h.entries, h.sorted, h.limit, h.offset, h.nulls, h.grouped, h.met⟩

theorem number_of_pageCount {e : Option Scalar} {n : Option Nat} (h : pageCount env e = .ok n) :
    Gathered.number? (e.map fun e => (Shape.scalar e).element m env []) = some n := by
  cases e with
  | none =>
    obtain rfl := Except.ok.inj h
    rfl
  | some e =>
    obtain ⟨value, evaluated, h⟩ := bind_eq_ok.1 h
    simp only [Option.map_some, Gathered.number?, Shape.element, evaluated, Except.toOption, Element.count?]
    split at h
    · split at h
      next positive =>
        obtain rfl := pure_eq_ok.1 h
        simp [positive]
      next => cases h
    · cases h

theorem Represents.delivered {p : Planned} (h : Represents m db env p all frames c) {sorted found : List Frame}
    (ordered : sortFrames env p.select.orderBy frames = .ok sorted)
    (paged : page env p.select.limit p.select.offset sorted = .ok found) :
    c.delivered? = some (found.map (p.shape.element m env)) := by
  obtain ⟨skip, offset, paged⟩ := bind_eq_ok.1 paged
  obtain ⟨take, limit, paged⟩ := bind_eq_ok.1 paged
  have rows : (c.entries.mergeSort (rowLe c.descending)).map Prod.snd = sorted.map (p.shape.element m env) := by
    rw [h.entries, sortFrames_eq_ok ordered, arranged, ← List.map_mergeSort, List.map_map]
    · rfl
    · intro f member g _
      unfold frameLe rowLe
      rw [h.sorted, keyOrder_eq_rowOrder c.descending]
      rw [List.length_map, ← h.sorted]
      exact length_of_keyRow ordered member
  unfold Gathered.delivered?
  rw [h.offset, h.limit, number_of_pageCount offset, number_of_pageCount limit, rows]
  rw [← pure_eq_ok.1 paged]
  cases take <;> simp

theorem Represents.isPaged {p : Planned} (h : Represents m db env p all frames c) : c.isPaged = p.select.isPaged := by
  simp [Gathered.isPaged, Select.isPaged, h.limit, h.offset]

end

end Planning

end Setwise
