import Setwise.Proofs.Elements
import Setwise.Proofs.Members

/-!
Shapes behind a subquery.

A shape is carried through a subquery by listing the columns that it reads. Where every listed name reads
what its column had been, the shape of the subquery stands for the element that the shape itself stands for
(`Exposed.element`).
-/

set_option autoImplicit false

namespace Setwise.Planning

open Relational Execution

/-- What it takes for `t` to be the shape `s` behind a subquery with the given label, whose columns `out'`
are those in `out` and more. -/
structure Exposed (m : Model) (label : String) (s : Shape) (out : List Projection) (t : Shape)
    (out' : List Projection) : Prop where
  more : out <+: out'
  labels : ∀ l ∈ t.labels, l = label
  distinct : (out.map Projection.name).Nodup → (out'.map Projection.name).Nodup
  element : ∀ (env : Environment) (f g : Frame),
    (∀ p ∈ out', eval env g (.column label p.name) = eval env f p.value) →
      t.element m env g = s.element m env f

theorem distinct_append_fresh {out : List Projection} (h : (out.map Projection.name).Nodup)
    (base : String) (e : Scalar) :
    ((out ++ [Projection.mk (freshName (out.map Projection.name) base) e]).map Projection.name).Nodup := by
  rw [List.map_append, List.nodup_append]
  refine ⟨h, List.pairwise_singleton _ _, fun a ha b hb => ?_⟩
  obtain rfl := List.mem_singleton.1 hb
  rintro rfl
  exact freshName_not_mem _ _ ha

namespace Shape

section

variable {m : Model} {subject : Subject} {label : String} {hint : Option String} {s : Shape}
  {out ps : List Projection}

theorem expose_entity {r : EntityView} (h : (Shape.entity r).expose m subject label hint out = .ok (s, ps)) :
    ∃ e, m.entity r.entity = .ok e ∧
      s = .entity { entity := r.entity, label, renames := (exposeColumns r (m.columns e) out).1 } ∧
      ps = (exposeColumns r (m.columns e) out).2 := by
  unfold expose at h
  obtain ⟨e, found, h⟩ := bind_eq_ok.1 h
  obtain ⟨rfl, rfl⟩ := Prod.mk.inj (pure_eq_ok.1 h)
  exact ⟨e, lookUp_eq_ok.1 found, rfl, rfl⟩

theorem expose_record {fs : List (String × Shape)} :
    (Shape.record fs).expose m subject label hint out = .ok (s, ps) ↔
      ∃ gs, exposeFields m subject label fs out = .ok (gs, ps) ∧ s = .record gs := by
  unfold expose
  rw [bind_eq_ok]
  constructor
  · rintro ⟨⟨gs, _⟩, fields, h⟩
    obtain ⟨rfl, rfl⟩ := Prod.mk.inj (pure_eq_ok.1 h)
    exact ⟨gs, fields, rfl⟩
  · rintro ⟨gs, fields, rfl⟩
    exact ⟨_, fields, rfl⟩

theorem expose_grouping {key : Shape} (h : (Shape.grouping key).expose m subject label hint out = .ok (s, ps)) :
    ∃ k, key.expose m subject label (some "Key") out = .ok (k, ps) ∧ s = .grouping k := by
  unfold expose at h
  obtain ⟨⟨k, _⟩, exposed, h⟩ := bind_eq_ok.1 h
  obtain ⟨rfl, rfl⟩ := Prod.mk.inj (pure_eq_ok.1 h)
  exact ⟨k, exposed, rfl⟩

theorem exposeFields_cons {name : String} {fs gs : List (String × Shape)}
    (h : exposeFields m subject label ((name, s) :: fs) out = .ok (gs, ps)) :
    ∃ t middle others, s.expose m subject label (some name) out = .ok (t, middle) ∧
      exposeFields m subject label fs middle = .ok (others, ps) ∧ gs = (name, t) :: others := by
  unfold exposeFields at h
  obtain ⟨⟨_, middle⟩, here, h⟩ := bind_eq_ok.1 h
  obtain ⟨⟨others, _⟩, behind, h⟩ := bind_eq_ok.1 h
  obtain ⟨rfl, rfl⟩ := Prod.mk.inj (pure_eq_ok.1 h)
  obtain ⟨⟨t, _⟩, exposed, here⟩ := bind_eq_ok.1 here
  obtain ⟨rfl, rfl⟩ := Prod.mk.inj (pure_eq_ok.1 here)
  exact ⟨t, _, others, exposed, behind, rfl⟩

end

theorem exposeColumns_spec (r : EntityView) (ps : List Property) (out : List Projection) :
    out <+: (exposeColumns r ps out).2 ∧
      ((out.map Projection.name).Nodup → ((exposeColumns r ps out).2.map Projection.name).Nodup) ∧
      ∀ p ∈ ps, ∃ name, (exposeColumns r ps out).1.lookup p.column = some name ∧
        ⟨name, r.column p.column⟩ ∈ (exposeColumns r ps out).2 := by
  induction ps generalizing out with
  | nil => exact ⟨List.prefix_refl _, id, fun _ h => nomatch h⟩
  | cons p rest ih =>
    let here : Projection := ⟨freshName (out.map Projection.name) p.column, r.column p.column⟩
    obtain ⟨more, distinct, found⟩ := ih (out ++ [here])
    unfold exposeColumns
    refine ⟨(List.prefix_append _ _).trans more, fun h => distinct (distinct_append_fresh h _ _), ?_⟩
    intro q member
    by_cases same : q.column = p.column
    · refine ⟨here.name, by simp [same, here], ?_⟩
      rw [same]
      exact more.subset (List.mem_append_right _ (List.mem_singleton_self here))
    · rcases List.mem_cons.1 member with rfl | later
      · exact absurd rfl same
      · obtain ⟨name, looked, inside⟩ := found q later
        exact ⟨name, by simpa [List.lookup_cons, beq_false_of_ne same] using looked, inside⟩

end Shape

theorem Exposed.entity {m : Model} {r : EntityView} {e : Entity} (found : m.entity r.entity = .ok e)
    (label : String) (out : List Projection) :
    Exposed m label (.entity r) out
      (.entity { entity := r.entity, label, renames := (Shape.exposeColumns r (m.columns e) out).1 })
      (Shape.exposeColumns r (m.columns e) out).2 := by
  obtain ⟨more, distinct, looked⟩ := Shape.exposeColumns_spec r (m.columns e) out
  refine ⟨more, fun l member => List.mem_singleton.1 member, distinct, fun env f g reads => ?_⟩
  have columns := Model.columnsOf_eq (entity_eq_ok.1 found)
  simp only [Shape.element, Element.entity.injEq, columns, true_and, List.map_map]
  refine List.map_congr_left fun p member => ?_
  obtain ⟨name, renamed, inside⟩ := looked p member
  simp [EntityView.column, renamed, reads _ inside]

theorem Exposed.cons {m : Model} {label name : String} {s t : Shape} {fs gs : List (String × Shape)}
    {out middle out' : List Projection} (first : Exposed m label s out t middle)
    (rest : Exposed m label (.record fs) middle (.record gs) out') :
    Exposed m label (.record ((name, s) :: fs)) out (.record ((name, t) :: gs)) out' where
  more := first.more.trans rest.more
  labels := fun l member => (List.mem_append.1 member).elim (first.labels l) (rest.labels l)
  distinct := fun h => rest.distinct (first.distinct h)
  element := fun env f g reads => by
    have here := first.element env f g fun p member => reads p (rest.more.subset member)
    have there := rest.element env f g reads
    simp only [Shape.element, Element.record.injEq] at there
    simp only [Shape.element, Shape.fieldElements, Shape.fieldElement, here, there]

theorem exposed_of_exposeFields {m : Model} {subject : Subject} {label : String}
    {fs gs : List (String × Shape)} {out out' : List Projection}
    (fields : ∀ p ∈ fs, ∀ (hint : Option String) (t : Shape) (out out' : List Projection),
      p.2.expose m subject label hint out = .ok (t, out') → Exposed m label p.2 out t out')
    (h : Shape.exposeFields m subject label fs out = .ok (gs, out')) :
    Exposed m label (.record fs) out (.record gs) out' := by
  induction fs generalizing gs out with
  | nil =>
    obtain ⟨rfl, rfl⟩ := Prod.mk.inj (Except.ok.inj h)
    exact ⟨List.prefix_refl _, fun _ h => absurd h List.not_mem_nil, id, fun _ _ _ _ => rfl⟩
  | cons f rest ih =>
    obtain ⟨name, s⟩ := f
    obtain ⟨first, others⟩ := List.forall_mem_cons.1 fields
    obtain ⟨t, middle, gs, exposed, behind, rfl⟩ := Shape.exposeFields_cons h
    exact (first _ _ _ _ exposed).cons (ih others behind)

theorem exposed_of_expose {m : Model} {subject : Subject} {label : String} {hint : Option String}
    {s t : Shape} {out out' : List Projection} (h : s.expose m subject label hint out = .ok (t, out')) :
    Exposed m label s out t out' := by
  induction s using Shape.induction generalizing hint t out out' with
  | scalar e =>
    obtain ⟨rfl, rfl⟩ := Prod.mk.inj (Except.ok.inj h)
    refine ⟨List.prefix_append _ _, fun l member => List.mem_singleton.1 member,
      fun h => distinct_append_fresh h _ _, fun env f g reads => ?_⟩
    simp only [Shape.element, reads _ (List.mem_append_right _ (List.mem_singleton_self _))]
  | entity r =>
    obtain ⟨e, found, rfl, rfl⟩ := Shape.expose_entity h
    exact Exposed.entity found label out
  | record fields ih =>
    obtain ⟨gs, all, rfl⟩ := Shape.expose_record.1 h
    exact exposed_of_exposeFields (fun p member _ _ _ _ => ih p member) all
  | grouping key ih =>
    obtain ⟨k, exposed, rfl⟩ := Shape.expose_grouping h
    obtain ⟨more, labels, distinct, same⟩ := ih exposed
    exact ⟨more, labels, distinct, fun env f g reads => congrArg Element.group (same env f g reads)⟩
  | excluded name columns => exact absurd h (not_fail_eq_ok _ _)

/-! ## Rows of a subquery -/

theorem columnValue_cons (source column name : String) (columns : List String) (v : Value) (vs : Row) :
    columnValue source (column :: columns) (v :: vs) name =
      if column = name then .ok v else columnValue source columns vs name := by
  unfold columnValue
  rw [List.findIdx?_cons]
  by_cases same : column = name
  · simp [same]
  · simp only [beq_false_of_ne same, Bool.false_eq_true, if_false, if_neg same]
    cases columns.findIdx? fun c => c == name <;> rfl

theorem columnValue_of_project {env : Environment} {f : Frame} {ps : List Projection} {row : Row}
    (h : project env f ps = .ok row) (distinct : (ps.map Projection.name).Nodup) (source : String) :
    ∀ p ∈ ps, columnValue source (ps.map Projection.name) row p.name = eval env f p.value := by
  unfold project at h
  induction ps generalizing row with
  | nil => exact fun _ h => absurd h List.not_mem_nil
  | cons p rest ih =>
    obtain ⟨v, here, h⟩ := bind_eq_ok.1 h
    obtain ⟨vs, behind, h⟩ := bind_eq_ok.1 h
    obtain rfl := pure_eq_ok.1 h
    obtain ⟨apart, distinct⟩ := List.nodup_cons.1 distinct
    simp only [List.map_cons, columnValue_cons]
    refine List.forall_mem_cons.2 ⟨by simp [here], fun q member => ?_⟩
    have different : p.name ≠ q.name := fun same => apart (same ▸ List.mem_map_of_mem member)
    rw [if_neg different]
    exact ih behind distinct q member

theorem eval_column_single (env : Environment) (b : Visible) (name : String) :
    eval env [b] (.column b.label name) = columnValue b.label b.columns b.values name := by
  unfold eval
  simp

theorem Exposed.projected {m : Model} {label : String} {s t : Shape} {ps : List Projection}
    (exposed : Exposed m label s [] t ps) {env : Environment} {frames : List Frame} {rows : List Row}
    (h : projectAll env ps frames = .ok rows) :
    (rows.map fun r => t.element m env [⟨label, ps.map Projection.name, r⟩]) =
      frames.map (s.element m env) := by
  induction frames generalizing rows with
  | nil =>
    obtain rfl := Except.ok.inj h
    rfl
  | cons f rest ih =>
    obtain ⟨row, here, h⟩ := bind_eq_ok.1 h
    obtain ⟨others, behind, h⟩ := bind_eq_ok.1 h
    obtain rfl := pure_eq_ok.1 h
    rw [List.map_cons, List.map_cons, ih behind]
    congr 1
    refine exposed.element env f _ fun p member => ?_
    rw [eval_column_single env ⟨label, ps.map Projection.name, row⟩ p.name]
    exact columnValue_of_project here (exposed.distinct List.nodup_nil) label p member

/-- The rows of a subquery stand for the elements of its frames, in the same order. -/
theorem Exposed.rows {m : Model} {label : String} {s t : Shape} {ps : List Projection}
    (exposed : Exposed m label s [] t ps) {env : Environment} {columns : List String} {frames : List Frame}
    {output : Output} (h : outputOf env ps columns frames = .ok output) :
    (output.rows.map fun r => t.element m env [⟨label, output.columns, r⟩]) =
      frames.map (s.element m env) := by
  unfold outputOf at h
  split at h
  next empty =>
    -- without columns there is nothing to read
    obtain rfl := Except.ok.inj h
    rw [List.map_map]
    refine List.map_congr_left fun f _ => exposed.element env f _ fun p member => ?_
    rw [List.isEmpty_iff.1 empty] at member
    cases member
  next =>
    obtain ⟨rows, all, h⟩ := bind_eq_ok.1 h
    obtain rfl := pure_eq_ok.1 h
    exact exposed.projected all

end Setwise.Planning
