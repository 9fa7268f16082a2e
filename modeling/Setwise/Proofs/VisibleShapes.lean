import Setwise.Proofs.KeyEquality
import Setwise.Proofs.WellScoped

/-!
Visible shapes.

A shape is visible when everything that reading it can come to is visible: the columns of an entity, the fields of
a record, the key of a group. What is made of visible shapes is visible, be it a member, a comparison or the
condition of a join, and behind a subquery a shape is visible wherever the listed columns are
(`Shape.visible_of_expose`).
-/

set_option autoImplicit false

namespace Setwise.Planning

open Relational Execution

/-- Every entity type has a list of stored columns, because ownership is not circular. -/
def Finite (m : Model) : Prop :=
  ∀ name e, m.entity? name = some e → (m.columns? e).isSome

namespace Shape

mutual

def Visible (m : Model) (V : Outlook) (s : Shape) : Prop :=
  match s with
  | .scalar e => e.Visible V
  | .entity r => ∀ c ∈ m.columnsOf r.entity, (r.column c).Visible V
  | .record fields => fieldsVisible m V fields
  | .grouping key => Visible m V key
  | .excluded _ columns => columns ⊆ V.incoming

def fieldsVisible (m : Model) (V : Outlook) (fs : List (String × Shape)) : Prop :=
  match fs with
  | [] => True
  | f :: rest => fieldVisible m V f ∧ fieldsVisible m V rest

def fieldVisible (m : Model) (V : Outlook) (f : String × Shape) : Prop :=
  match f with
  | (_, s) => Visible m V s

end

variable {m : Model} {V W : Outlook}

theorem fieldsVisible_iff {fs : List (String × Shape)} : fieldsVisible m V fs ↔ ∀ p ∈ fs, p.2.Visible m V := by
  induction fs with
  | nil => simp [fieldsVisible]
  | cons f rest ih =>
    obtain ⟨name, s⟩ := f
    simp [fieldsVisible, fieldVisible, ih]

theorem visible_record {fs : List (String × Shape)} :
    (Shape.record fs).Visible m V ↔ ∀ p ∈ fs, p.2.Visible m V := by
  rw [Visible, fieldsVisible_iff]

theorem Visible.mono (within : V.Within W) {s : Shape} (h : s.Visible m V) : s.Visible m W := by
  induction s using Shape.induction with
  | scalar e => exact Scalar.Visible.mono within h
  | entity r => exact fun c member => Scalar.Visible.mono within (h c member)
  | record fields ih => exact visible_record.2 fun p member => ih p member (visible_record.1 h p member)
  | grouping key ih => exact ih h
  | excluded type columns => exact List.Subset.trans h within.incoming

/-! ## Members -/

theorem staticMember?_visible (finite : Finite m) {s t : Shape} {name : String} (visible : s.Visible m V)
    (h : s.staticMember? m name = some t) : t.Visible m V := by
  cases StaticMember.of_found h with
  | property entity property => exact visible _ (mem_columnsOf entity property)
  | part entity missing navigation owned =>
    have own := columnsOf_owned entity (List.mem_of_find?_eq_some navigation) owned (finite _ _ entity)
    exact fun c member => visible c (own member)
  | field found => exact visible_record.1 visible _ (mem_of_lookup found)
  | key named => exact visible
  | proposed entity property inserted => exact visible (List.contains_iff_mem.1 inserted)
  | proposedPart => exact visible

/-! ## Keys -/

theorem scalars_visible {subject : Subject} {s : Shape} {es : List Scalar} (visible : s.Visible m V)
    (h : scalars subject s = .ok es) : ∀ e ∈ es, e.Visible V := by
  induction s using Shape.induction generalizing es with
  | scalar a =>
    obtain rfl := Except.ok.inj h
    exact List.forall_mem_singleton.2 visible
  | record fields ih =>
    have visible := visible_record.1 visible
    unfold scalars at h
    induction fields generalizing es with
    | nil =>
      obtain rfl := Except.ok.inj h
      exact fun e member => absurd member List.not_mem_nil
    | cons f rest later =>
      obtain ⟨name, s⟩ := f
      obtain ⟨first, others⟩ := List.forall_mem_cons.1 ih
      obtain ⟨visible, visible'⟩ := List.forall_mem_cons.1 visible
      obtain ⟨here, hs, h⟩ := bind_eq_ok.1 h
      obtain ⟨behind, hr, h⟩ := bind_eq_ok.1 h
      obtain rfl := pure_eq_ok.1 h
      exact List.forall_mem_append.2 ⟨first visible hs, later others (visible_record.2 visible') visible' hr⟩
  | grouping key ih => exact ih visible h
  | entity r => exact absurd h (not_fail_eq_ok _ _)
  | excluded name columns => exact absurd h (not_fail_eq_ok _ _)

end Shape

/-! ## Operators -/

section

variable {m : Model} {V : Outlook}

theorem ofOperands_visible (m : Model) (V : Outlook) :
    OfOperands m (Shape.Visible m V) (Shape.Visible m V) (Scalar.Visible V) where
  binary := fun _ left right => ⟨left, right⟩
  testLeft := fun h => ⟨h, h⟩
  testRight := fun h => ⟨h, h⟩
  columns := fun left right same known property =>
    ⟨left _ (mem_columnsOf known property), right _ (mem_columnsOf (same ▸ known) property)⟩
  leftFields := Shape.visible_record.1
  rightFields := Shape.visible_record.1
  both := fun left right => ⟨left, right⟩
  not := id

theorem referenceCondition_visible {owner target : Entity} {type : String} {r : EntityView} {label : String}
    {keys : List (String × String)} {condition result : Option Scalar} (known : m.entity? r.entity = some owner)
    (left : (Shape.entity r).Visible m V) (other : m.entity? type = some target)
    (right : ∀ c ∈ m.columnsOf type, V.context.Shows label c) (before : ∀ c ∈ condition, c.Visible V)
    (h : referenceCondition owner target r label keys condition = .ok result) : ∀ c ∈ result, c.Visible V := by
  induction keys generalizing condition with
  | nil =>
    obtain rfl := Except.ok.inj h
    exact before
  | cons key rest ih =>
    obtain ⟨foreign, principal⟩ := key
    obtain ⟨f, has, h⟩ := bind_eq_ok.1 h
    obtain ⟨p, has', h⟩ := bind_eq_ok.1 h
    refine ih (fun c same => ?_) h
    obtain rfl := Option.some.inj same
    have mine := mem_columnsOf known (property_eq_ok.1 has)
    have theirs := mem_columnsOf other (property_eq_ok.1 has')
    exact Scalar.Visible.both before ⟨left _ mine, right _ theirs⟩

end

/-! ## Shapes behind a subquery -/

namespace Shape

variable {m : Model} {V : Outlook}

/-- What listing a visible shape leaves: visible columns, and a shape that is visible wherever they can be read
under the label. -/
structure ListedVisibly (m : Model) (V : Outlook) (label : String) (out : List Projection) (t : Shape)
    (out' : List Projection) : Prop where
  more : out <+: out'
  columns : (∀ p ∈ out, p.value.Visible V) → ∀ p ∈ out', p.value.Visible V
  shape : ∀ W : Outlook, (∀ p ∈ out', W.context.Shows label p.name) → t.Visible m W

theorem exposeColumns_visible {r : EntityView} {ps : List Property} {out : List Projection}
    (visible : ∀ p ∈ ps, (r.column p.column).Visible V) (before : ∀ p ∈ out, p.value.Visible V) :
    ∀ p ∈ (exposeColumns r ps out).2, p.value.Visible V := by
  induction ps generalizing out with
  | nil => exact before
  | cons p rest ih =>
    obtain ⟨first, others⟩ := List.forall_mem_cons.1 visible
    exact ih others (List.forall_mem_append.2 ⟨before, List.forall_mem_singleton.2 first⟩)

theorem exposeFields_visible {subject : Subject} {label : String} {fs gs : List (String × Shape)}
    {out out' : List Projection}
    (fields : ∀ p ∈ fs, ∀ (hint : Option String) (t : Shape) (out out' : List Projection),
      p.2.expose m subject label hint out = .ok (t, out') → ListedVisibly m V label out t out')
    (h : exposeFields m subject label fs out = .ok (gs, out')) :
    ListedVisibly m V label out (.record gs) out' := by
  induction fs generalizing gs out with
  | nil =>
    obtain ⟨rfl, rfl⟩ := Prod.mk.inj (Except.ok.inj h)
    exact ⟨List.prefix_refl _, id, fun _ _ => trivial⟩
  | cons f rest ih =>
    obtain ⟨name, s⟩ := f
    obtain ⟨first, others⟩ := List.forall_mem_cons.1 fields
    obtain ⟨t, middle, gs, exposed, behind, rfl⟩ := exposeFields_cons h
    have one := first _ _ _ _ exposed
    have rest := ih others behind
    refine ⟨one.more.trans rest.more, fun before => rest.columns (one.columns before), fun W reads => ?_⟩
    refine visible_record.2 (List.forall_mem_cons.2 ⟨?_, visible_record.1 (rest.shape W reads)⟩)
    exact one.shape W fun p member => reads p (rest.more.subset member)

/-- The columns that a visible shape lists are visible, and the shape behind the subquery is visible where these
columns can be read. -/
theorem visible_of_expose {subject : Subject} {label : String} {hint : Option String} {s t : Shape}
    {out out' : List Projection} (visible : s.Visible m V)
    (h : s.expose m subject label hint out = .ok (t, out')) : ListedVisibly m V label out t out' := by
  induction s using Shape.induction generalizing hint t out out' with
  | scalar e =>
    obtain ⟨rfl, rfl⟩ := Prod.mk.inj (Except.ok.inj h)
    refine ⟨List.prefix_append _ _, fun before => ?_, fun W reads => ?_⟩
    · exact List.forall_mem_append.2 ⟨before, List.forall_mem_singleton.2 visible⟩
    · exact reads _ (List.mem_append_right _ (List.mem_singleton_self _))
  | entity r =>
    obtain ⟨e, found, rfl, rfl⟩ := expose_entity h
    have columns := Model.columnsOf_eq (entity_eq_ok.1 found)
    obtain ⟨more, -, renamed⟩ := exposeColumns_spec r (m.columns e) out
    -- the names under which the columns are listed are those that the shape reads from then on
    refine ⟨more, exposeColumns_visible fun p member => ?_, fun W reads c member => ?_⟩
    · exact visible _ (columns ▸ List.mem_map_of_mem member)
    · obtain ⟨p, inside, rfl⟩ := List.mem_map.1 (columns ▸ member)
      obtain ⟨name, looked, listed⟩ := renamed p inside
      unfold EntityView.column
      rw [looked]
      exact reads _ listed
  | record fields ih =>
    obtain ⟨gs, all, rfl⟩ := expose_record.1 h
    exact exposeFields_visible (fun p member _ _ _ _ => ih p member (visible_record.1 visible p member)) all
  | grouping key ih =>
    obtain ⟨k, exposed, rfl⟩ := expose_grouping h
    obtain ⟨more, columns, shape⟩ := ih visible exposed
    exact ⟨more, columns, shape⟩
  | excluded name columns => exact absurd h (not_fail_eq_ok _ _)

end Shape

end Setwise.Planning
