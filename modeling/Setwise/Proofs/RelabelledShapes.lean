import Setwise.Proofs.Counterparts
import Setwise.Proofs.Relabelling

/-!
Shapes under other labels.

The columns, keys and members that are made of a shape are those of the same shape under other labels.
-/

set_option autoImplicit false

namespace Setwise.Planning

open Client Relational Execution

theorem toOption_pure {ε α : Type} (a : α) : (pure a : Except ε α).toOption = some a :=
  rfl

/-! ## Shapes under other labels -/

section

variable (ρ : String → String)

def EntityView.relabel (r : EntityView) : EntityView :=
  { r with label := ρ r.label }

mutual

def Shape.relabel (s : Shape) : Shape :=
  match s with
  | .scalar e => .scalar (e.relabel ρ)
  | .entity r => .entity (r.relabel ρ)
  | .record fields => .record (Shape.relabelFields fields)
  | .grouping key => .grouping key.relabel
  | .excluded type columns => .excluded type columns

def Shape.relabelFields (fs : List (String × Shape)) : List (String × Shape) :=
  match fs with
  | [] => []
  | f :: rest => Shape.relabelField f :: Shape.relabelFields rest

def Shape.relabelField (f : String × Shape) : String × Shape :=
  match f with
  | (name, s) => (name, s.relabel)

end

def Planned.relabel (p : Planned) : Planned :=
  ⟨p.select.relabel ρ, p.shape.relabel ρ, p.operators⟩

end

section

variable {ρ : String → String} {m : Model}

theorem EntityView.column_relabel (r : EntityView) (c : String) :
    (r.relabel ρ).column c = (r.column c).relabel ρ :=
  rfl

namespace Shape

theorem relabelFields_eq_map (fs : List (String × Shape)) :
    relabelFields ρ fs = fs.map fun f => (f.1, f.2.relabel ρ) := by
  induction fs with
  | nil => rfl
  | cons f rest ih =>
    obtain ⟨name, s⟩ := f
    rw [relabelFields, ih]
    rfl

theorem lookup_relabelFields (fs : List (String × Shape)) (name : String) :
    (relabelFields ρ fs).lookup name = (fs.lookup name).map (relabel ρ) := by
  induction fs with
  | nil => rfl
  | cons f rest ih =>
    obtain ⟨other, s⟩ := f
    simp only [relabelFields, relabelField, List.lookup_cons, ih]
    cases name == other <;> rfl

theorem element_relabel (injective : ρ.Injective) {env : Environment} (f : Frame) (s : Shape) :
    (s.relabel ρ).element m env (Frame.relabel ρ f) = s.element m env f := by
  induction s using Shape.induction with
  | scalar e =>
    unfold relabel element
    rw [eval_relabel injective]
  | entity r =>
    unfold relabel element
    simp only [EntityView.column_relabel, eval_relabel injective]
    rfl
  | record fields ih =>
    unfold relabel
    simp only [element, fieldElements_eq_map, relabelFields_eq_map, List.map_map, Element.record.injEq]
    exact List.map_congr_left fun p member => congrArg (Prod.mk p.1) (ih p member)
  | grouping key ih =>
    unfold relabel element
    rw [ih]
  | excluded type columns => rfl

/-! ### Columns -/

theorem projection_snoc (out : List Projection) (name : String) (e : Scalar) :
    out.map (Projection.relabel ρ) ++ [⟨name, e.relabel ρ⟩] =
      (out ++ [Projection.mk name e]).map (Projection.relabel ρ) := by
  rw [List.map_append]
  rfl

theorem projection_names (out : List Projection) :
    (out.map (Projection.relabel ρ)).map Projection.name = out.map Projection.name := by
  simp [Projection.relabel]

theorem exposeColumns_relabel (r : EntityView) (ps : List Property) (out : List Projection) :
    exposeColumns (r.relabel ρ) ps (out.map (Projection.relabel ρ)) =
      ((exposeColumns r ps out).1, (exposeColumns r ps out).2.map (Projection.relabel ρ)) := by
  induction ps generalizing out with
  | nil => rfl
  | cons p rest ih =>
    unfold exposeColumns
    simp only [projection_names, EntityView.column_relabel, projection_snoc, ih]

def relabelExposed (ρ : String → String) (x : Shape × List Projection) : Shape × List Projection :=
  (x.1.relabel ρ, x.2.map (Projection.relabel ρ))

theorem exposeFields_relabel {subject subject' : Subject} {label : String} {fs : List (String × Shape)}
    (each : ∀ f ∈ fs, ∀ hint out,
      ((f.2.relabel ρ).expose m subject' (ρ label) hint (out.map (Projection.relabel ρ))).toOption =
        (f.2.expose m subject label hint out).toOption.map (relabelExposed ρ)) (out : List Projection) :
    (exposeFields m subject' (ρ label) (relabelFields ρ fs) (out.map (Projection.relabel ρ))).toOption =
      (exposeFields m subject label fs out).toOption.map fun x =>
        (relabelFields ρ x.1, x.2.map (Projection.relabel ρ)) := by
  induction fs generalizing out with
  | nil => rfl
  | cons f rest ih =>
    obtain ⟨name, s⟩ := f
    obtain ⟨here, later⟩ := List.forall_mem_cons.1 each
    simp only [relabelFields, relabelField, exposeFields, exposeField, toOption_bind, here, Option.bind_map,
      Option.bind_assoc, Option.map_bind]
    refine congrArg _ (funext fun exposed => ?_)
    simp only [Function.comp_apply, relabelExposed, toOption_pure, Option.bind_some, ih later]
    cases exposeFields m subject label rest exposed.2 <;> rfl

theorem expose_relabel (subject subject' : Subject) (label : String) (s : Shape) (hint : Option String)
    (out : List Projection) :
    ((s.relabel ρ).expose m subject' (ρ label) hint (out.map (Projection.relabel ρ))).toOption =
      (s.expose m subject label hint out).toOption.map (relabelExposed ρ) := by
  induction s using Shape.induction generalizing hint out with
  | scalar e =>
    -- a column prefers its own name, which renaming labels leaves
    have preferred : preferredName hint (e.relabel ρ) = preferredName hint e := by
      cases hint <;> cases e <;> rfl
    unfold relabel expose
    dsimp only
    rw [preferred, projection_names, projection_snoc]
    rfl
  | entity r =>
    unfold relabel expose
    rw [show (r.relabel ρ).entity = r.entity from rfl]
    simp only [toOption_bind, exposeColumns_relabel]
    cases (lookUp (m.entity r.entity) : Except Planning.Error Entity) <;> rfl
  | record fields ih =>
    unfold relabel expose
    simp only [toOption_bind, exposeFields_relabel ih]
    cases exposeFields m subject label fields out <;> rfl
  | grouping key ih =>
    unfold relabel expose
    simp only [toOption_bind, ih]
    cases expose m subject label (some "Key") key out <;> rfl
  | excluded type columns => rfl

/-! ### Keys -/

theorem both_relabel (c : Option Scalar) (e : Scalar) :
    (Scalar.both c e).relabel ρ = Scalar.both (c.map (Scalar.relabel ρ)) (e.relabel ρ) := by
  cases c <;> rfl

theorem scalars_relabel (subject subject' : Subject) (s : Shape) :
    ((s.relabel ρ).scalars subject').toOption = (s.scalars subject).toOption.map (List.map (Scalar.relabel ρ)) := by
  induction s using Shape.induction with
  | scalar e => rfl
  | entity r => rfl
  | record fields ih =>
    unfold relabel scalars
    induction fields with
    | nil => rfl
    | cons f rest later =>
      obtain ⟨name, s⟩ := f
      obtain ⟨here, others⟩ := List.forall_mem_cons.1 ih
      simp only [relabelFields, relabelField, fieldScalars, fieldScalar, toOption_bind, here, later others]
      cases scalars subject s with
      | error e => rfl
      | ok own =>
        cases fieldScalars subject rest with
        | error e => rfl
        | ok more => exact congrArg some List.map_append.symm
  | grouping key ih => exact ih
  | excluded type columns => rfl

theorem propertiesEquality_relabel (e : Entity) (a b : EntityView) (names : List String) (c : Option Scalar) :
    (propertiesEquality e (a.relabel ρ) (b.relabel ρ) names (c.map (Scalar.relabel ρ))).toOption =
      (propertiesEquality e a b names c).toOption.map (Option.map (Scalar.relabel ρ)) := by
  induction names generalizing c with
  | nil => rfl
  | cons name rest ih =>
    simp only [propertiesEquality, toOption_bind, Option.map_bind]
    refine congrArg _ (funext fun p => ?_)
    rw [Function.comp_apply, ← ih]
    simp only [Option.map_some, both_relabel]
    rfl

theorem fieldsEquality_relabel {subject subject' : Subject} {fs : List (String × Shape)} (others : List (String × Shape))
    (each : ∀ f ∈ fs, ∀ r : Shape, (equality m subject' (f.2.relabel ρ) (r.relabel ρ)).toOption =
      (equality m subject f.2 r).toOption.map (Scalar.relabel ρ)) (c : Option Scalar) :
    (fieldsEquality m subject' (relabelFields ρ fs) (relabelFields ρ others) (c.map (Scalar.relabel ρ))).toOption =
      (fieldsEquality m subject fs others c).toOption.map (Option.map (Scalar.relabel ρ)) := by
  induction fs generalizing c with
  | nil => rfl
  | cons f rest ih =>
    obtain ⟨name, s⟩ := f
    obtain ⟨here, later⟩ := List.forall_mem_cons.1 each
    have field : (fieldEquality m subject' (name, s.relabel ρ) (relabelFields ρ others)).toOption =
        (fieldEquality m subject (name, s) others).toOption.map (Scalar.relabel ρ) := by
      unfold fieldEquality
      rw [lookup_relabelFields]
      cases others.lookup name with
      | none => rfl
      | some t => exact here t
    simp only [relabelFields, relabelField, fieldsEquality, toOption_bind, field, Option.bind_map, Option.map_bind]
    refine congrArg _ (funext fun e => ?_)
    rw [Function.comp_apply, Function.comp_apply, ← ih later]
    simp only [Option.map_some, both_relabel]

theorem equality_relabel (subject subject' : Subject) (l r : Shape) :
    (equality m subject' (l.relabel ρ) (r.relabel ρ)).toOption =
      (equality m subject l r).toOption.map (Scalar.relabel ρ) := by
  have some (c : Option Scalar) : (nonempty subject' (c.map (Scalar.relabel ρ))).toOption =
      (nonempty subject c).toOption.map (Scalar.relabel ρ) := by
    cases c <;> rfl
  induction l using Shape.induction generalizing r with
  | scalar a => cases r <;> rfl
  | entity a =>
    cases r with
    | entity b =>
      simp only [relabel, equality, EntityView.relabel]
      split
      next =>
        simp only [toOption_bind, Option.map_bind]
        refine congrArg _ (funext fun e => ?_)
        rw [Function.comp_apply]
        cases e.primary? with
        -- entities are compared by their primary key, records by their fields
        | none => rfl
        | some key =>
          have properties := propertiesEquality_relabel (ρ := ρ) e a b key.properties none
          simp only [Option.map_none, EntityView.relabel] at properties
          simp only [toOption_bind, properties, Option.bind_map, Option.map_bind]
          exact congrArg _ (funext fun c => some c)
      next => rfl
    | _ => rfl
  | record fields ih =>
    cases r with
    | record others =>
      have length (fs : List (String × Shape)) : (relabelFields ρ fs).length = fs.length := by
        rw [relabelFields_eq_map, List.length_map]
      have each := fieldsEquality_relabel others ih none
      simp only [relabel, equality, length]
      split
      next =>
        simp only [Option.map_none] at each
        simp only [toOption_bind, each, Option.bind_map, Option.map_bind]
        exact congrArg _ (funext fun c => some c)
      next => rfl
    | _ => rfl
  | grouping key => rfl
  | excluded type columns => rfl

/-! ### Members -/

theorem staticMember?_relabel (s : Shape) (name : String) :
    (s.relabel ρ).staticMember? m name = (s.staticMember? m name).map (relabel ρ) := by
  cases s with
  | scalar e => rfl
  | entity r =>
    unfold relabel staticMember?
    dsimp only
    -- renaming labels leaves types alone, and members are looked up in the type
    rw [show (r.relabel ρ).entity = r.entity from rfl]
    simp only [Option.bind_eq_bind, Option.map_bind]
    refine congrArg _ (funext fun e => ?_)
    rw [Function.comp_apply]
    cases e.property? name with
    | some p => rfl
    | none =>
      simp only [Option.map_bind]
      refine congrArg _ (funext fun n => ?_)
      rw [Function.comp_apply]
      split <;> rfl
  | record fields => exact lookup_relabelFields fields name
  | grouping key =>
    unfold relabel staticMember?
    dsimp only
    split <;> rfl
  | excluded type columns =>
    unfold relabel staticMember?
    dsimp only
    simp only [Option.bind_eq_bind, Option.map_bind]
    refine congrArg _ (funext fun e => ?_)
    rw [Function.comp_apply]
    cases e.property? name with
    | some p =>
      dsimp only
      split <;> rfl
    | none =>
      simp only [Option.map_bind]
      refine congrArg _ (funext fun n => ?_)
      rw [Function.comp_apply]
      split <;> rfl

end Shape

end

end Setwise.Planning
