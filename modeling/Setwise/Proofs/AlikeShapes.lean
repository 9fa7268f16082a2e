import Setwise.Proofs.StaticNulls

/-!
Alike shapes.

Two shapes are alike when they show the same, the one in its frame and the other in its own, up to labels that
correspond. Alike shapes stand for the same element (`Shape.Alike.element`), have alike members, and alike operands
make an operator give the same value (`shapeOperator_alike`).
-/

set_option autoImplicit false

namespace Setwise

/-- A column can be read of an entity type: it is listed, or it can be read of a type that this one owns. Where ownership
is circular, the list is shorter. -/
inductive Model.Readable (m : Model) : String → String → Prop
  | listed {type c : String} (stored : c ∈ m.columnsOf type) : Readable m type c
  | owned {type c : String} {e : Entity} {n : Navigation} (known : m.entity? type = some e)
      (navigation : n ∈ e.navigations) (owned : n.isOwned = true) (inner : Readable m n.target c) : Readable m type c

namespace Planning

open Client Relational Execution

structure View where
  environment : Environment
  frame : Frame

def View.value (f : View) (e : Scalar) : Option Value :=
  valueOf f.environment f.frame e

namespace View

variable (f : View)

theorem value_not (e : Scalar) : f.value (.not e) = (f.value e).bind fun v => v.negation.toOption :=
  valueOf_not e

theorem value_case (test a b : Scalar) :
    f.value (.case test a b) = (f.value test).bind fun v => if v.isTrue then f.value a else f.value b :=
  valueOf_case test a b

theorem value_operator (m : Model) (a : Scalar) (op : Operator) (b : Scalar) :
    f.value (scalarOperator a op b) =
      Element.comparison m op (.scalar (f.value a)) (.scalar (f.value b)) (isNull a) (isNull b) :=
  scalarOperator_value a op b

theorem value_objects {m : Model} {whole : Expr} {s t : Shape} {op : Operator} {c : Scalar}
    (objects : ¬∃ a b, s = .scalar a ∧ t = .scalar b) (h : shapeOperator m s op t whole = .ok c) :
    f.value c = Element.operator m (s.element m f.environment f.frame) op (t.element m f.environment f.frame) :=
  (objects_operator f.environment f.frame objects h).2.2

end View

section

variable (m : Model) (f g : View) (C : String → String → Prop)

namespace Shape

mutual

def Alike (s t : Shape) : Prop :=
  match s, t with
  | .scalar a, .scalar b => f.value a = g.value b
  | .entity r, .entity r' =>
    r.entity = r'.entity ∧ C r.label r'.label ∧
      ∀ c, m.Readable r.entity c → f.value (r.column c) = g.value (r'.column c)
  | .record fs, .record gs => FieldsAlike fs gs
  | .grouping key, .grouping key' => Alike key key'
  | .excluded name columns, .excluded name' columns' =>
    name = name' ∧ columns = columns' ∧ ∀ c, f.value (.excluded c) = g.value (.excluded c)
  | _, _ => False

def FieldsAlike (fs gs : List (String × Shape)) : Prop :=
  match fs, gs with
  | [], [] => True
  | p :: fs, q :: gs => FieldAlike p q ∧ FieldsAlike fs gs
  | _, _ => False

def FieldAlike (p q : String × Shape) : Prop :=
  match p with
  | (name, s) => name = q.1 ∧ Alike s q.2

end

end Shape

end

section

variable {f g : View} {C : String → String → Prop} {m : Model}

namespace Shape

theorem lookup_fieldsAlike {fs gs : List (String × Shape)} (h : FieldsAlike m f g C fs gs) (name : String) :
    match fs.lookup name, gs.lookup name with
    | some s, some t => s.Alike m f g C t
    | none, none => True
    | _, _ => False := by
  induction fs generalizing gs with
  | nil =>
    cases gs with
    | nil => trivial
    | cons q gs => cases h
  | cons p fs ih =>
    cases gs with
    | nil => cases h
    | cons q gs =>
      obtain ⟨own, s⟩ := p
      obtain ⟨own', t⟩ := q
      obtain ⟨⟨rfl, first⟩, rest⟩ := h
      rw [List.lookup_cons, List.lookup_cons]
      cases name == own with
      | true => exact first
      | false => exact ih rest

/-- Alike shapes stand for the same element. -/
theorem Alike.element {s t : Shape} (h : s.Alike m f g C t) : s.element m f.environment f.frame = t.element m g.environment g.frame := by
  induction s using Shape.induction generalizing t with
  | scalar a =>
    cases t with
    | scalar b => exact congrArg Element.scalar h
    | _ => cases h
  | entity r =>
    cases t with
    | entity r' =>
      obtain ⟨type, -, columns⟩ := h
      unfold Shape.element
      rw [← type]
      exact congrArg _ (List.map_congr_left fun c stored => congrArg (Prod.mk c) (columns c (.listed stored)))
    | _ => cases h
  | record fields ih =>
    cases t with
    | record others =>
      unfold Shape.element
      refine congrArg Element.record ?_
      -- records are alike field by field
      induction fields generalizing others with
      | nil =>
        cases others with
        | nil => rfl
        | cons q others => cases h
      | cons p fields later =>
        cases others with
        | nil => cases h
        | cons q others =>
          obtain ⟨name, s⟩ := p
          obtain ⟨name', t⟩ := q
          obtain ⟨⟨rfl, first⟩, rest⟩ := h
          obtain ⟨here, behind⟩ := List.forall_mem_cons.1 ih
          simp only [fieldElements, fieldElement, here first, later behind others rest]
    | _ => cases h
  | grouping key ih =>
    cases t with
    | grouping key' => exact congrArg Element.group (ih h)
    | _ => cases h
  | excluded name columns =>
    cases t with
    | excluded name' columns' =>
      obtain ⟨rfl, rfl, values⟩ := h
      unfold Shape.element
      refine congrArg _ (List.map_congr_left fun c _ => ?_)
      split
      next => exact congrArg (Prod.mk c) (values c)
      next => rfl
    | _ => cases h

theorem staticMember?_alike {s s' t t' : Shape} {name : String} (h : s.Alike m f g C s')
    (member : s.staticMember? m name = some t) (member' : s'.staticMember? m name = some t') :
    t.Alike m f g C t' := by
  cases StaticMember.of_found member with
  | @property r e p entity property =>
    cases s' with
    | entity r' =>
      obtain ⟨type, -, columns⟩ := h
      -- both are rows of one type, so the member is found in the same way
      obtain rfl : .scalar (r'.column p.column) = t' := by
        simpa [staticMember?, ← type, entity, property] using member'
      exact columns p.column (.listed (mem_columnsOf entity property))
    | _ => cases h
  | @part r e n entity missing navigation owned =>
    cases s' with
    | entity r' =>
      obtain ⟨type, label, columns⟩ := h
      obtain rfl : .entity { r' with entity := n.target } = t' := by
        simpa [staticMember?, ← type, entity, missing, navigation, owned] using member'
      -- the columns of an owned part are columns of its owner
      exact ⟨rfl, label, fun c inner => columns c (.owned entity (List.mem_of_find?_eq_some navigation) owned inner)⟩
    | _ => cases h
  | field found =>
    cases s' with
    | record others =>
      have alike := lookup_fieldsAlike h name
      rwa [found, show others.lookup name = some t' from member'] at alike
    | _ => cases h
  | key named =>
    cases s' with
    | grouping key' =>
      obtain rfl : key' = t' := by simpa [staticMember?, named] using member'
      exact h
    | _ => cases h
  | proposed entity property inserted =>
    cases s' with
    | excluded type' columns' =>
      obtain ⟨rfl, rfl, values⟩ := h
      obtain rfl := Option.some.inj (member.symm.trans member')
      exact values _
    | _ => cases h
  | proposedPart entity missing navigation owned =>
    cases s' with
    | excluded type' columns' =>
      obtain ⟨rfl, rfl, values⟩ := h
      obtain rfl := Option.some.inj (member.symm.trans member')
      exact ⟨rfl, rfl, values⟩
    | _ => cases h

end Shape

/-- Alike operands of an operator, as far as the same ones are tests for NULL. -/
theorem shapeOperator_alike {s s' t t' : Shape} {op : Operator} {whole whole' : Expr} {c c' : Scalar}
    (left : s.Alike m f g C s') (right : t.Alike m f g C t') (h : shapeOperator m s op t whole = .ok c)
    (h' : shapeOperator m s' op t' whole' = .ok c')
    (nulls : op.isEquality = true → s.isNullAt [] = s'.isNullAt [] ∧ t.isNullAt [] = t'.isNullAt []) :
    f.value c = g.value c' := by
  by_cases scalars : ∃ a b, s = .scalar a ∧ t = .scalar b
  · obtain ⟨a, b, rfl, rfl⟩ := scalars
    cases s' with
    | scalar a' =>
      cases t' with
      | scalar b' =>
        obtain rfl := Except.ok.inj h
        obtain rfl := Except.ok.inj h'
        have sameLeft : f.value a = g.value a' := left
        have sameRight : f.value b = g.value b' := right
        rw [f.value_operator m, g.value_operator m, sameLeft, sameRight]
        cases equality : op.isEquality with
        | true =>
          obtain ⟨nullLeft, nullRight⟩ := nulls equality
          rw [show isNull a = isNull a' from nullLeft, show isNull b = isNull b' from nullRight]
        | false =>
          -- other operators do not look at NULL
          cases op <;> first | rfl | cases equality
      | _ => cases right
    | _ => cases left
  · have scalars' : ¬∃ a b, s' = .scalar a ∧ t' = .scalar b := by
      rintro ⟨a, b, rfl, rfl⟩
      cases s with
      | scalar a' =>
        cases t with
        | scalar b' => exact scalars ⟨a', b', rfl, rfl⟩
        | _ => cases right
      | _ => cases left
    rw [f.value_objects scalars h, g.value_objects scalars' h', left.element, right.element]

end

end Planning

end Setwise
