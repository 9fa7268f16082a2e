import Setwise.Planning.Shape
import Setwise.Proofs.Frames

/-!
Elements: what a shape stands for in a frame.

A value that cannot be read is `none`, so that every shape has an element in every frame. The element of a
shape stays the same when the frame grows behind the labels of the shape (`Shape.element_append`).
-/

set_option autoImplicit false

namespace Setwise

def Model.columnsOf (m : Model) (entity : String) : List String :=
  match m.entity? entity with
  | some e => (m.columns e).map Property.column
  | none => []

theorem Model.columnsOf_eq {m : Model} {type : String} {e : Entity} (known : m.entity? type = some e) :
    m.columnsOf type = (m.columns e).map Property.column := by
  unfold columnsOf
  rw [known]

inductive Element where
  | scalar (value : Option Value)
  /-- The values in the columns of an entity. -/
  | entity (type : String) (row : List (String × Option Value))
  | record (fields : List (String × Element))
  /-- A group of elements, of which only the key can be read. -/
  | group (key : Element)

namespace Planning

open Relational Execution

namespace Shape

/-- A property of shapes holds of all of them when it passes from the fields of a record to the record, and
from the key of a group to the group. -/
theorem induction {P : Shape → Prop} (scalar : ∀ e, P (.scalar e)) (entity : ∀ r, P (.entity r))
    (record : ∀ fields : List (String × Shape), (∀ p ∈ fields, P p.2) → P (.record fields))
    (grouping : ∀ key, P key → P (.grouping key))
    (excluded : ∀ name columns, P (.excluded name columns)) (s : Shape) : P s :=
  @Shape.rec P (fun fields => ∀ p ∈ fields, P p.2) (fun p => P p.2)
    scalar entity record grouping excluded (fun _ h => nomatch h)
    (fun _ _ first rest => List.forall_mem_cons.2 ⟨first, rest⟩) (fun _ _ h => h) s

mutual

def labels (s : Shape) : List String :=
  match s with
  | .scalar e => e.sources
  | .entity r => [r.label]
  | .record fields => fieldsLabels fields
  | .grouping key => labels key
  | .excluded .. => []

def fieldsLabels (fs : List (String × Shape)) : List String :=
  match fs with
  | [] => []
  | f :: rest => fieldLabels f ++ fieldsLabels rest

def fieldLabels (f : String × Shape) : List String :=
  match f with
  | (_, s) => labels s

end

theorem mem_fieldsLabels {fs : List (String × Shape)} {l : String} :
    l ∈ fieldsLabels fs ↔ ∃ p ∈ fs, l ∈ p.2.labels := by
  induction fs with
  | nil => simp [fieldsLabels]
  | cons f rest ih =>
    obtain ⟨name, s⟩ := f
    simp [fieldsLabels, fieldLabels, ih]

section

variable (m : Model) (env : Environment) (frame : Frame)

mutual

def element (s : Shape) : Element :=
  match s with
  | .scalar e => .scalar (eval env frame e).toOption
  | .entity r =>
    .entity r.entity ((m.columnsOf r.entity).map fun c => (c, (eval env frame (r.column c)).toOption))
  | .record fields => .record (fieldElements fields)
  | .grouping key => .group (element key)
  | .excluded name columns =>
    .entity name ((m.columnsOf name).map fun c =>
      (c, if columns.contains c then (eval env frame (.excluded c)).toOption else none))

/-- The elements that the fields of a record stand for. -/
def fieldElements (fs : List (String × Shape)) : List (String × Element) :=
  match fs with
  | [] => []
  | f :: rest => fieldElement f :: fieldElements rest

def fieldElement (f : String × Shape) : String × Element :=
  match f with
  | (name, s) => (name, element s)

end

theorem fieldElements_eq_map (fs : List (String × Shape)) :
    fieldElements m env frame fs = fs.map fun p => (p.1, p.2.element m env frame) := by
  induction fs with
  | nil => rfl
  | cons f rest ih =>
    obtain ⟨name, s⟩ := f
    simp [fieldElements, fieldElement, ih]

end

theorem lookup_fieldElements {m : Model} {env : Environment} {frame : Frame} (fs : List (String × Shape))
    (name : String) :
    (fieldElements m env frame fs).lookup name = (fs.lookup name).map (element m env frame) := by
  induction fs with
  | nil => rfl
  | cons f rest ih =>
    obtain ⟨other, s⟩ := f
    simp only [fieldElements, fieldElement, List.lookup_cons, ih]
    cases name == other <;> rfl

/-- A shape stands for the same element when rows are added behind the labels that it reads. -/
theorem element_append {m : Model} {env : Environment} {f : Frame} {s : Shape}
    (h : ∀ l ∈ s.labels, l ∈ Frame.labels f) (g : Frame) :
    s.element m env (f ++ g) = s.element m env f := by
  induction s using Shape.induction with
  | scalar e =>
    unfold element
    rw [eval_append h]
  | entity r =>
    have same (c : String) : eval env (f ++ g) (r.column c) = eval env f (r.column c) :=
      eval_append (by simpa [EntityView.column, Scalar.sources, labels] using h) g
    simp only [element, same]
  | record fields ih =>
    simp only [element, fieldElements_eq_map, Element.record.injEq]
    refine List.map_congr_left fun p member => ?_
    rw [ih p member fun l hl => h l (mem_fieldsLabels.2 ⟨p, member, hl⟩)]
  | grouping key ih =>
    unfold element
    rw [ih h]
  | excluded name columns => rfl

end Shape

end Planning

end Setwise
