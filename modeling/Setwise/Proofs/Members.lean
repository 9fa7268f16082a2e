import Setwise.Proofs.Labels

/-!
What reading a member does to the workspace.

A member is either static, which needs nothing but the model (`Shape.staticMember?`), or a reference, which
is found joined or joins its target (`follow_yields`).
-/

set_option autoImplicit false

namespace Setwise.Planning

open Client Relational

theorem name_of_entity? {m : Model} {name : String} {e : Entity} (h : m.entity? name = some e) : e.name = name := by
  simpa using List.find?_some h

theorem entity_eq_ok {m : Model} {name : String} {e : Entity} :
    m.entity name = .ok e ↔ m.entity? name = some e := by
  unfold Model.entity
  cases m.entity? name <;> simp

def referenceJoin (target : Entity) (label : String) (required : Bool) (on : Option Scalar) : Join Select where
  kind := if required then .inner else .leftOuter
  source := .table ⟨target.table, target.schema, label⟩
  on := on

/-- A reference is found joined, or joins its target under a new label and is remembered. -/
theorem follow_yields {m : Model} {owner : Entity} {r : EntityView} {n : Navigation}
    {foreignKey principalKey : List String} {required : Bool} {w w' : Workspace} {t : Shape}
    (h : Step.Yields (follow m owner r n foreignKey principalKey required) w t w') :
    ∃ label, t = .entity { entity := n.target, label } ∧
      (w.navigations.lookup (r.label, n.name) = some label ∧ w' = w ∨
        label ∉ w.labels ∧ ∃ target on, m.entity? n.target = some target ∧
          referenceCondition owner target r label (foreignKey.zip principalKey) none = .ok on ∧
          w' = {
            labels := w.labels ++ [label]
            navigations := ((r.label, n.name), label) :: w.navigations
            joins := w.joins ++ [referenceJoin target label required on] }) := by
  simp only [follow, Step.yields_bind, Step.yields_get] at h
  obtain ⟨_, _, ⟨rfl, rfl⟩, h⟩ := h
  split at h
  next label found =>
    obtain ⟨rfl, rfl⟩ := Step.yields_pure.1 h
    exact ⟨label, rfl, .inl ⟨found, rfl⟩⟩
  next missing =>
    simp only [Step.yields_bind, Step.yields_lookUp, Step.yields_ofResult, Step.yields_modify,
      Step.yields_pure] at h
    obtain ⟨target, _, ⟨known, rfl⟩, table, _, new, on, _, ⟨condition, rfl⟩, _, _, rfl, rfl, rfl⟩ := h
    obtain ⟨fresh, shape, rfl⟩ := newTable_yields new
    refine ⟨table.label, rfl, .inr ⟨fresh, target, on, entity_eq_ok.1 known, condition, ?_⟩⟩
    simp only [referenceJoin, ← shape]

def Shape.staticMember? (m : Model) (name : String) : Shape → Option Shape
  | .entity r => do
    let e ← m.entity? r.entity
    match e.property? name with
    | some p => some (.scalar (r.column p.column))
    | none => do
      let n ← e.navigation? name
      if n.isOwned then some (.entity { r with entity := n.target }) else none
  | .record fields => fields.lookup name
  | .grouping key => if name = "Key" then some key else none
  | .excluded type columns => do
    let e ← m.entity? type
    match e.property? name with
    | some p => if columns.contains p.column then some (.scalar (.excluded p.column)) else none
    | none => do
      let n ← e.navigation? name
      if n.isOwned then some (.excluded n.target columns) else none
  | .scalar _ => none

theorem Navigation.kind_of_owned {n : Navigation} (owned : n.isOwned = true) : n.kind = .owned := by
  simpa [Navigation.isOwned] using owned

inductive Shape.StaticMember (m : Model) (name : String) : Shape → Shape → Prop
  | property {r : EntityView} {e : Entity} {p : Property} (entity : m.entity? r.entity = some e)
      (property : e.property? name = some p) : StaticMember m name (.entity r) (.scalar (r.column p.column))
  | part {r : EntityView} {e : Entity} {n : Navigation} (entity : m.entity? r.entity = some e)
      (missing : e.property? name = none) (navigation : e.navigation? name = some n) (owned : n.isOwned = true) :
      StaticMember m name (.entity r) (.entity { r with entity := n.target })
  | field {fields : List (String × Shape)} {t : Shape} (found : fields.lookup name = some t) :
      StaticMember m name (.record fields) t
  | key {key : Shape} (named : name = "Key") : StaticMember m name (.grouping key) key
  | proposed {type : String} {columns : List String} {e : Entity} {p : Property}
      (entity : m.entity? type = some e) (property : e.property? name = some p)
      (inserted : columns.contains p.column = true) :
      StaticMember m name (.excluded type columns) (.scalar (.excluded p.column))
  | proposedPart {type : String} {columns : List String} {e : Entity} {n : Navigation}
      (entity : m.entity? type = some e) (missing : e.property? name = none)
      (navigation : e.navigation? name = some n) (owned : n.isOwned = true) :
      StaticMember m name (.excluded type columns) (.excluded n.target columns)

theorem Shape.StaticMember.of_found {m : Model} {s t : Shape} {name : String} (h : s.staticMember? m name = some t) :
    s.StaticMember m name t := by
  cases s with
  | scalar e => cases h
  | entity r =>
    obtain ⟨e, entity, h⟩ := Option.bind_eq_some_iff.1 h
    split at h
    next p property =>
      obtain rfl := Option.some.inj h
      exact .property entity property
    next missing =>
      obtain ⟨n, navigation, h⟩ := Option.bind_eq_some_iff.1 h
      split at h
      next owned =>
        obtain rfl := Option.some.inj h
        exact .part entity missing navigation owned
      next => cases h
  | record fields => exact .field h
  | grouping key =>
    unfold Shape.staticMember? at h
    dsimp only at h
    split at h
    next named =>
      obtain rfl := Option.some.inj h
      exact .key named
    next => cases h
  | excluded type columns =>
    obtain ⟨e, entity, h⟩ := Option.bind_eq_some_iff.1 h
    split at h
    next p property =>
      split at h
      -- of a row that is about to be inserted, only inserted columns can be read
      next inserted =>
        obtain rfl := Option.some.inj h
        exact .proposed entity property inserted
      next => cases h
    next missing =>
      obtain ⟨n, navigation, h⟩ := Option.bind_eq_some_iff.1 h
      split at h
      next owned =>
        obtain rfl := Option.some.inj h
        exact .proposedPart entity missing navigation owned
      next => cases h

structure ReferenceMember (m : Model) (s : Shape) (name : String) (r : EntityView) (owner : Entity)
    (n : Navigation) (foreignKey principalKey : List String) (required : Bool) : Prop where
  shape : s = .entity r
  entity : m.entity? r.entity = some owner
  noProperty : owner.property? name = none
  navigation : owner.navigation? name = some n
  kind : n.kind = .reference foreignKey principalKey required

theorem readMember_yields {m : Model} {s t : Shape} {name : String} {whole : Expr} {w w' : Workspace}
    (h : Step.Yields (readMember m s name whole) w t w') :
    s.staticMember? m name = some t ∧ w = w' ∨
      ∃ r owner n foreignKey principalKey required,
        ReferenceMember m s name r owner n foreignKey principalKey required ∧
        Step.Yields (follow m owner r n foreignKey principalKey required) w t w' := by
  cases s with
  | scalar e => exact absurd h (Step.yields_fail _ _)
  -- a property and an owned part are found without planning; only a reference is followed
  | entity r =>
    unfold readMember at h
    obtain ⟨e, _, found, h⟩ := Step.yields_bind.1 h
    obtain ⟨entity, rfl⟩ := Step.yields_lookUp.1 found
    have entity := entity_eq_ok.1 entity
    split at h
    next p property =>
      obtain ⟨rfl, rfl⟩ := Step.yields_pure.1 h
      exact .inl ⟨by simp [Shape.staticMember?, entity, property], rfl⟩
    next missing =>
      split at h
      next => exact absurd h (Step.yields_fail _ _)
      next n navigation =>
        split at h
        next kind =>
          obtain ⟨rfl, rfl⟩ := Step.yields_pure.1 h
          exact .inl ⟨by simp [Shape.staticMember?, entity, missing, navigation, Navigation.isOwned, kind], rfl⟩
        next foreignKey principalKey required kind =>
          exact .inr ⟨r, e, n, foreignKey, principalKey, required,
            ⟨rfl, entity, missing, navigation, kind⟩, h⟩
  | record fields =>
    unfold readMember at h
    dsimp only at h
    split at h
    next found =>
      obtain ⟨rfl, rfl⟩ := Step.yields_pure.1 h
      exact .inl ⟨found, rfl⟩
    next => exact absurd h (Step.yields_fail _ _)
  | grouping key =>
    unfold readMember at h
    dsimp only at h
    split at h
    next named =>
      obtain ⟨rfl, rfl⟩ := Step.yields_pure.1 h
      exact .inl ⟨by simp [Shape.staticMember?, named], rfl⟩
    next => exact absurd h (Step.yields_fail _ _)
  | excluded type columns =>
    unfold readMember at h
    obtain ⟨e, _, found, h⟩ := Step.yields_bind.1 h
    obtain ⟨entity, rfl⟩ := Step.yields_lookUp.1 found
    have entity := entity_eq_ok.1 entity
    split at h
    next p property =>
      split at h
      next inserted =>
        obtain ⟨rfl, rfl⟩ := Step.yields_pure.1 h
        exact .inl ⟨by simpa [Shape.staticMember?, entity, property] using inserted, rfl⟩
      next => exact absurd h (Step.yields_fail _ _)
    next missing =>
      split at h
      next n navigation =>
        split at h
        next owned =>
          obtain ⟨rfl, rfl⟩ := Step.yields_pure.1 h
          exact .inl ⟨by simp [Shape.staticMember?, entity, missing, navigation, owned], rfl⟩
        next => exact absurd h (Step.yields_fail _ _)
      next => exact absurd h (Step.yields_fail _ _)

theorem readMember_of_static {m : Model} {s t : Shape} {name : String}
    (member : s.staticMember? m name = some t) (whole : Expr) (w : Workspace) :
    Step.Yields (readMember m s name whole) w t w := by
  cases Shape.StaticMember.of_found member with
  | property entity property =>
    unfold readMember
    refine Step.yields_bind.2 ⟨_, w, Step.yields_lookUp.2 ⟨entity_eq_ok.2 entity, rfl⟩, ?_⟩
    simp only [property]
    exact Step.yields_pure.2 ⟨rfl, rfl⟩
  | part entity missing navigation owned =>
    unfold readMember
    refine Step.yields_bind.2 ⟨_, w, Step.yields_lookUp.2 ⟨entity_eq_ok.2 entity, rfl⟩, ?_⟩
    -- a property of the name would be found first
    simp only [missing, navigation, Navigation.kind_of_owned owned]
    exact Step.yields_pure.2 ⟨rfl, rfl⟩
  | field found =>
    unfold readMember
    simp only [found, Step.yields_pure, and_self]
  | key named =>
    unfold readMember
    dsimp only
    rw [if_pos named]
    exact Step.yields_pure.2 ⟨rfl, rfl⟩
  | proposed entity property inserted =>
    unfold readMember
    refine Step.yields_bind.2 ⟨_, w, Step.yields_lookUp.2 ⟨entity_eq_ok.2 entity, rfl⟩, ?_⟩
    simp only [property, if_pos inserted]
    exact Step.yields_pure.2 ⟨rfl, rfl⟩
  | proposedPart entity missing navigation owned =>
    unfold readMember
    refine Step.yields_bind.2 ⟨_, w, Step.yields_lookUp.2 ⟨entity_eq_ok.2 entity, rfl⟩, ?_⟩
    simp only [missing, navigation, if_pos owned]
    exact Step.yields_pure.2 ⟨rfl, rfl⟩

theorem readMember_of_reference {m : Model} {s t : Shape} {name : String} {r : EntityView}
    {owner : Entity} {n : Navigation} {foreignKey principalKey : List String} {required : Bool}
    (reference : ReferenceMember m s name r owner n foreignKey principalKey required) {whole : Expr}
    {w w' : Workspace} (h : Step.Yields (follow m owner r n foreignKey principalKey required) w t w') :
    Step.Yields (readMember m s name whole) w t w' := by
  obtain ⟨rfl, entity, missing, navigation, kind⟩ := reference
  unfold readMember
  refine Step.yields_bind.2 ⟨owner, w, Step.yields_lookUp.2 ⟨entity_eq_ok.2 entity, rfl⟩, ?_⟩
  simp only [missing, navigation, kind]
  exact h

end Setwise.Planning
