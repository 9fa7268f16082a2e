import Setwise.Proofs.Interpretation

/-!
The columns of a shape behind a subquery.

The columns that a shape lists are the leaves of its element (`exposed_leaves`), as many as its type is wide.
Two shapes of one type that list columns of the same names become the same shape (`exposed_alike`), so that the
rows of both sides of a union are read in the same way.
-/

set_option autoImplicit false

namespace Setwise.Planning

open Relational Execution

variable {m : Model} {subject : Subject} {label : String}

/-! ## Types -/

theorem exposeFields_type {fs gs : List (String × Shape)} {out out' : List Projection}
    (fields : ∀ p ∈ fs, ∀ (hint : Option String) (t : Shape) (out out' : List Projection),
      p.2.expose m subject label hint out = .ok (t, out') → t.type? = p.2.type? ∧ t.NullFree)
    (h : Shape.exposeFields m subject label fs out = .ok (gs, out')) :
    Shape.fieldTypes? gs = Shape.fieldTypes? fs ∧ Shape.FieldsNullFree gs := by
  induction fs generalizing gs out with
  | nil =>
    obtain ⟨rfl, rfl⟩ := Prod.mk.inj (Except.ok.inj h)
    exact ⟨rfl, trivial⟩
  | cons f rest ih =>
    obtain ⟨name, s⟩ := f
    obtain ⟨first, others⟩ := List.forall_mem_cons.1 fields
    obtain ⟨t, middle, gs, exposed, behind, rfl⟩ := Shape.exposeFields_cons h
    obtain ⟨type, free⟩ := first _ _ _ _ exposed
    obtain ⟨types, freeRest⟩ := ih others behind
    exact ⟨by simp only [Shape.fieldTypes?, Shape.fieldType?, type, types], free, freeRest⟩

theorem exposed_type {hint : Option String} {s t : Shape} {out out' : List Projection}
    (h : s.expose m subject label hint out = .ok (t, out')) : t.type? = s.type? ∧ t.NullFree := by
  induction s using Shape.induction generalizing hint t out out' with
  | scalar e =>
    obtain ⟨rfl, rfl⟩ := Prod.mk.inj (Except.ok.inj h)
    exact ⟨rfl, nofun⟩
  | entity r =>
    obtain ⟨e, found, rfl, rfl⟩ := Shape.expose_entity h
    exact ⟨rfl, trivial⟩
  | record fields ih =>
    obtain ⟨gs, all, rfl⟩ := Shape.expose_record.1 h
    obtain ⟨types, free⟩ := exposeFields_type (fun p member _ _ _ _ => ih p member) all
    exact ⟨by simp only [Shape.type?, types], free⟩
  | grouping key ih =>
    obtain ⟨k, exposed, rfl⟩ := Shape.expose_grouping h
    exact ⟨rfl, (ih exposed).2⟩
  | excluded name columns => exact absurd h (not_fail_eq_ok _ _)

/-! ## Leaves -/

theorem exposeColumns_leaves (r : EntityView) (ps : List Property) (out : List Projection) :
    ∃ more, (Shape.exposeColumns r ps out).2 = out ++ more ∧
      more.map Projection.value = ps.map fun p => r.column p.column := by
  induction ps generalizing out with
  | nil => exact ⟨[], by simp [Shape.exposeColumns], rfl⟩
  | cons p rest ih =>
    let here : Projection := ⟨freshName (out.map Projection.name) p.column, r.column p.column⟩
    obtain ⟨more, same, values⟩ := ih (out ++ [here])
    exact ⟨here :: more, by simp [Shape.exposeColumns, same, here], by simp [values, here]⟩

theorem exposeFields_leaves {fs gs : List (String × Shape)} {out out' : List Projection}
    (fields : ∀ p ∈ fs, ∀ (hint : Option String) (t : Shape) (out out' : List Projection),
      p.2.expose m subject label hint out = .ok (t, out') →
        ∃ more, out' = out ++ more ∧ ∀ (env : Environment) (f : Frame),
          (p.2.element m env f).leaves = more.map fun c => valueOf env f c.value)
    (h : Shape.exposeFields m subject label fs out = .ok (gs, out')) :
    ∃ more, out' = out ++ more ∧ ∀ (env : Environment) (f : Frame),
      Element.fieldsLeaves (Shape.fieldElements m env f fs) = more.map fun c => valueOf env f c.value := by
  induction fs generalizing gs out with
  | nil =>
    obtain ⟨rfl, rfl⟩ := Prod.mk.inj (Except.ok.inj h)
    exact ⟨[], by simp, fun _ _ => rfl⟩
  | cons f rest ih =>
    obtain ⟨name, s⟩ := f
    obtain ⟨first, others⟩ := List.forall_mem_cons.1 fields
    obtain ⟨t, middle, gs, exposed, behind, rfl⟩ := Shape.exposeFields_cons h
    obtain ⟨more, rfl, leaves⟩ := first _ _ _ _ exposed
    obtain ⟨more', rfl, leaves'⟩ := ih others behind
    refine ⟨more ++ more', List.append_assoc .., fun env f => ?_⟩
    simp only [Shape.fieldElements, Shape.fieldElement, Element.fieldsLeaves, Element.fieldLeaves,
      leaves env f, leaves' env f, List.map_append]

/-- The columns that a shape lists are the leaves of its element. -/
theorem exposed_leaves {hint : Option String} {s t : Shape} {out out' : List Projection}
    (h : s.expose m subject label hint out = .ok (t, out')) :
    ∃ more, out' = out ++ more ∧ ∀ (env : Environment) (f : Frame),
      (s.element m env f).leaves = more.map fun c => valueOf env f c.value := by
  induction s using Shape.induction generalizing hint t out out' with
  | scalar e =>
    obtain ⟨rfl, rfl⟩ := Prod.mk.inj (Except.ok.inj h)
    exact ⟨[_], rfl, fun _ _ => rfl⟩
  | entity r =>
    obtain ⟨e, found, rfl, rfl⟩ := Shape.expose_entity h
    obtain ⟨more, same, values⟩ := exposeColumns_leaves r (m.columns e) out
    refine ⟨more, same, fun env f => ?_⟩
    have columns := Model.columnsOf_eq (entity_eq_ok.1 found)
    have split : (more.map fun c => valueOf env f c.value) = (more.map Projection.value).map (valueOf env f) := by
      rw [List.map_map]
      rfl
    rw [split, values]
    simp [Shape.element, Element.leaves, columns, valueOf, Function.comp_def]
  | record fields ih =>
    obtain ⟨gs, all, rfl⟩ := Shape.expose_record.1 h
    exact exposeFields_leaves (fun p member _ _ _ _ => ih p member) all
  | grouping key ih =>
    obtain ⟨k, exposed, rfl⟩ := Shape.expose_grouping h
    exact ih exposed
  | excluded name columns => exact absurd h (not_fail_eq_ok _ _)

theorem fieldsLeaves_length {env : Environment} {f : Frame} {fs : List (String × Shape)}
    {types : List (String × ElementType)}
    (fields : ∀ p ∈ fs, ∀ t, p.2.type? = some t → (p.2.element m env f).leaves.length = t.width m)
    (typed : Shape.fieldTypes? fs = some types) :
    (Element.fieldsLeaves (Shape.fieldElements m env f fs)).length = ElementType.fieldsWidth m types := by
  induction fs generalizing types with
  | nil =>
    obtain rfl := Option.some.inj typed
    rfl
  | cons p rest ih =>
    obtain ⟨name, s⟩ := p
    obtain ⟨first, others⟩ := List.forall_mem_cons.1 fields
    simp only [Shape.fieldTypes?, Shape.fieldType?, Option.bind_eq_bind, Option.bind_eq_some_iff,
      Option.pure_def, Option.some.injEq] at typed
    obtain ⟨_, ⟨t, here, rfl⟩, later, behind, rfl⟩ := typed
    simp only [Shape.fieldElements, Shape.fieldElement, Element.fieldsLeaves, Element.fieldLeaves,
      ElementType.fieldsWidth, ElementType.fieldWidth, List.length_append, first t here, ih others behind]

theorem leaves_length (env : Environment) (f : Frame) {s : Shape} {t : ElementType} (typed : s.type? = some t) :
    (s.element m env f).leaves.length = t.width m := by
  induction s using Shape.induction generalizing t with
  | scalar e =>
    obtain rfl := Option.some.inj typed
    rfl
  | entity r =>
    obtain rfl := Option.some.inj typed
    simp [Shape.element, Element.leaves, ElementType.width]
  | record fields ih =>
    obtain ⟨types, all, same⟩ := Option.bind_eq_some_iff.1 typed
    obtain rfl := Option.some.inj same
    exact fieldsLeaves_length (fun p member _ => ih p member) all
  | grouping key => cases typed
  | excluded name columns => cases typed

theorem exposed_length {hint : Option String} {s t : Shape} {out out' : List Projection}
    (h : s.expose m subject label hint out = .ok (t, out')) {type : ElementType} (typed : s.type? = some type) :
    out'.length = out.length + type.width m := by
  obtain ⟨more, rfl, leaves⟩ := exposed_leaves h
  rw [List.length_append, ← leaves_length (m := m) ⟨{}, none⟩ [] typed, leaves, List.length_map]

/-! ## Shapes of one type -/

theorem exposeColumns_names (r r' : EntityView) (ps : List Property) {out out' : List Projection}
    (names : out.map Projection.name = out'.map Projection.name) :
    (Shape.exposeColumns r ps out).1 = (Shape.exposeColumns r' ps out').1 ∧
      (Shape.exposeColumns r ps out).2.map Projection.name =
        (Shape.exposeColumns r' ps out').2.map Projection.name := by
  induction ps generalizing out out' with
  | nil => exact ⟨rfl, names⟩
  | cons p rest ih =>
    simp only [Shape.exposeColumns, names]
    let here (r : EntityView) : Projection :=
      ⟨freshName (out'.map Projection.name) p.column, r.column p.column⟩
    have longer : (out ++ [here r]).map Projection.name = (out' ++ [here r']).map Projection.name := by
      simp [names, here]
    obtain ⟨renames, columns⟩ := ih longer
    exact ⟨congrArg _ renames, columns⟩

theorem eq_of_prefixes {α : Type} {l k all : List α} (first : l <+: all) (second : k <+: all)
    (length : l.length = k.length) : l = k :=
  (List.prefix_of_prefix_length_le first second (Nat.le_of_eq length)).eq_of_length length

theorem exposeFields_alike {fs fs' gs gs' : List (String × Shape)} {types : List (String × ElementType)}
    {out out' columns columns' : List Projection} {names : List String}
    (fields : ∀ p ∈ fs, ∀ (s' : Shape) (hint : Option String) (type : ElementType) (t t' : Shape)
      (out out' columns columns' : List Projection), p.2.type? = some type → s'.type? = some type →
      out.map Projection.name = out'.map Projection.name →
      p.2.expose m subject label hint out = .ok (t, columns) →
      s'.expose m subject label hint out' = .ok (t', columns') →
      columns.map Projection.name <+: names → columns'.map Projection.name <+: names → t = t')
    (typed : Shape.fieldTypes? fs = some types) (typed' : Shape.fieldTypes? fs' = some types)
    (same : out.map Projection.name = out'.map Projection.name)
    (h : Shape.exposeFields m subject label fs out = .ok (gs, columns))
    (h' : Shape.exposeFields m subject label fs' out' = .ok (gs', columns'))
    (inside : columns.map Projection.name <+: names) (inside' : columns'.map Projection.name <+: names) :
    gs = gs' := by
  induction fs generalizing fs' gs gs' types out out' with
  | nil =>
    obtain rfl := Option.some.inj typed
    obtain ⟨rfl, -⟩ := Prod.mk.inj (Except.ok.inj h)
    cases fs' with
    | nil =>
      obtain ⟨rfl, -⟩ := Prod.mk.inj (Except.ok.inj h')
      rfl
    | cons q rest => simp [Shape.fieldTypes?, Option.bind_eq_some_iff] at typed'
  | cons p rest ih =>
    obtain ⟨name, s⟩ := p
    obtain ⟨first, others⟩ := List.forall_mem_cons.1 fields
    simp only [Shape.fieldTypes?, Shape.fieldType?, Option.bind_eq_bind, Option.bind_eq_some_iff,
      Option.pure_def, Option.some.injEq] at typed
    obtain ⟨_, ⟨type, typedHere, rfl⟩, later, behind, rfl⟩ := typed
    cases fs' with
    | nil => cases typed'
    | cons q rest' =>
      obtain ⟨name', s'⟩ := q
      simp only [Shape.fieldTypes?, Shape.fieldType?, Option.bind_eq_bind, Option.bind_eq_some_iff,
        Option.pure_def, Option.some.injEq] at typed'
      obtain ⟨_, ⟨type', typedHere', rfl⟩, later', behind', both⟩ := typed'
      obtain ⟨field, rfl⟩ := List.cons.inj both
      obtain ⟨rfl, sameType⟩ := Prod.mk.inj field
      subst type'
      obtain ⟨t, middle, gs, exposed, after, rfl⟩ := Shape.exposeFields_cons h
      obtain ⟨t', middle', gs', exposed', after', rfl⟩ := Shape.exposeFields_cons h'
      -- the names up to here are those that the rest starts from
      have start : middle.map Projection.name <+: names :=
        ((exposed_of_exposeFields (fun _ _ _ _ _ _ => exposed_of_expose) after).more.map _).trans inside
      have start' : middle'.map Projection.name <+: names :=
        ((exposed_of_exposeFields (fun _ _ _ _ _ _ => exposed_of_expose) after').more.map _).trans inside'
      obtain rfl := first s' _ type t t' out out' middle middle' typedHere typedHere' same exposed exposed' start
        start'
      have length : (middle.map Projection.name).length = (middle'.map Projection.name).length := by
        have outs := congrArg List.length same
        simp only [List.length_map] at outs ⊢
        rw [exposed_length exposed typedHere, exposed_length exposed' typedHere', outs]
      rw [ih others behind behind' (eq_of_prefixes start start' length) after after']

/-- Shapes of one type that list columns of the same names are the same behind the subquery. -/
theorem exposed_alike {hint : Option String} {s s' t t' : Shape} {type : ElementType}
    {out out' columns columns' : List Projection} {names : List String} (typed : s.type? = some type)
    (typed' : s'.type? = some type) (same : out.map Projection.name = out'.map Projection.name)
    (h : s.expose m subject label hint out = .ok (t, columns))
    (h' : s'.expose m subject label hint out' = .ok (t', columns'))
    (inside : columns.map Projection.name <+: names) (inside' : columns'.map Projection.name <+: names) :
    t = t' := by
  induction s using Shape.induction generalizing hint s' type t t' out out' columns columns' with
  | scalar e =>
    obtain rfl := Option.some.inj typed
    cases s' with
    | scalar e' =>
      obtain ⟨rfl, rfl⟩ := Prod.mk.inj (Except.ok.inj h)
      obtain ⟨rfl, rfl⟩ := Prod.mk.inj (Except.ok.inj h')
      -- both columns stand at the same place in the list that all names are taken from
      have all := eq_of_prefixes inside inside' (by simpa using congrArg List.length same)
      simp only [List.map_append, List.map_cons, List.map_nil, same] at all ⊢
      rw [List.singleton_inj.1 (List.append_cancel_left all)]
    | record fields => simp [Shape.type?, Option.bind_eq_some_iff] at typed'
    | entity | grouping | excluded => cases typed'
  | entity r =>
    obtain rfl := Option.some.inj typed
    cases s' with
    | entity r' =>
      obtain ⟨e, found, rfl, -⟩ := Shape.expose_entity h
      obtain ⟨e', found', rfl, -⟩ := Shape.expose_entity h'
      have entities : r'.entity = r.entity := by simpa [Shape.type?] using typed'
      rw [entities] at found' ⊢
      obtain rfl := Except.ok.inj (found.symm.trans found')
      rw [(exposeColumns_names r r' (m.columns e) same).1]
    | record fields => simp [Shape.type?, Option.bind_eq_some_iff] at typed'
    | scalar | grouping | excluded => cases typed'
  | record fields ih =>
    obtain ⟨types, all, whole⟩ := Option.bind_eq_some_iff.1 typed
    obtain rfl := Option.some.inj whole
    cases s' with
    | record fields' =>
      obtain ⟨types', all', whole'⟩ := Option.bind_eq_some_iff.1 typed'
      obtain rfl := ElementType.record.inj (Option.some.inj whole')
      obtain ⟨gs, exposed, rfl⟩ := Shape.expose_record.1 h
      obtain ⟨gs', exposed', rfl⟩ := Shape.expose_record.1 h'
      refine congrArg Shape.record (exposeFields_alike ?_ all all' same exposed exposed' inside inside')
      intro p member s' hint type t t' out out' columns columns' typed typed' same h h' inside inside'
      exact ih p member typed typed' same h h' inside inside'
    | scalar | entity | grouping | excluded => cases typed'
  | grouping key => cases typed
  | excluded name columns => cases typed

end Setwise.Planning
