import Setwise.Parameters.Lifting
import Setwise.Client.Folding
import Setwise.Proofs.PlannedMutations

/-!
The columns that an initialiser assigns.

They can be told from the initialiser of the client (`columnsAssigned`), branches that folding may choose included.
Lifting client values keeps these columns, folding adds none, and the assignments that are planned are to some of them,
no column twice (`Extends`).
-/

set_option autoImplicit false

namespace Setwise

open Client Relational

namespace Client

mutual

/-- The columns that an initialiser of an entity assigns, whichever branch is chosen. -/
def columnsAssigned (m : Model) (e : Entity) (body : Expr) : List String :=
  match body with
  | .new _ _ bindings => columnsOfBindings m e bindings
  | .conditional _ a b => columnsAssigned m e a ++ columnsAssigned m e b
  | .not operand => columnsAssigned m e operand
  | .param _ | .member .. | .constant _ | .captured .. | .runtime _ | .binary .. => []

def columnsOfBindings (m : Model) (e : Entity) (bs : List (Binding Expr)) : List String :=
  match bs with
  | [] => []
  | b :: rest => columnsOfBinding m e b ++ columnsOfBindings m e rest

def columnsOfBinding (m : Model) (e : Entity) (b : Binding Expr) : List String :=
  match b with
  | .items .. => []
  | .assign member value =>
    match e.property? member with
    | some p => [p.column]
    | none =>
      match (e.navigation? member).bind fun n => m.entity? n.target with
      | some target => columnsAssigned m target value
      | none => []

end

end Client

/-! ## Lifting and folding -/

section

variable {m : Model}

mutual

theorem columnsAssigned_lift (e : Entity) (body : Expr) (s : Lifting) :
    columnsAssigned m e (Lifting.expr body s).1 = columnsAssigned m e body := by
  match body with
  | .new type args bindings => exact columnsOfBindings_lift e bindings (Lifting.exprs args s).2
  | .conditional test a b =>
    change columnsAssigned m e (Lifting.expr a _).1 ++ columnsAssigned m e (Lifting.expr b _).1 = _
    rw [columnsAssigned_lift e a, columnsAssigned_lift e b, columnsAssigned]
  | .not operand => exact columnsAssigned_lift e operand s
  | .captured .. | .param _ | .constant _ | .runtime _ | .member .. | .binary .. => rfl

theorem columnsOfBindings_lift (e : Entity) (bs : List (Binding Expr)) (s : Lifting) :
    columnsOfBindings m e (Lifting.bindingList bs s).1 = columnsOfBindings m e bs := by
  match bs with
  | [] => rfl
  | b :: rest =>
    change columnsOfBinding m e (Lifting.binding b s).1 ++ columnsOfBindings m e (Lifting.bindingList rest _).1 = _
    rw [columnsOfBinding_lift e b, columnsOfBindings_lift e rest, columnsOfBindings]

theorem columnsOfBinding_lift (e : Entity) (b : Binding Expr) (s : Lifting) :
    columnsOfBinding m e (Lifting.binding b s).1 = columnsOfBinding m e b := by
  match b with
  | .items .. => rfl
  | .assign member value =>
    change columnsOfBinding m e (.assign member (Lifting.expr value s).1) = _
    unfold columnsOfBinding
    split
    next => rfl
    next =>
      split
      next target _ => exact columnsAssigned_lift target value s
      next => rfl

end

theorem columnsAssigned_foldNot (e : Entity) (operand : Expr) :
    columnsAssigned m e (Expr.foldNot operand) ⊆ columnsAssigned m e operand := by
  unfold Expr.foldNot
  split
  next => exact List.nil_subset _
  next => exact List.nil_subset _
  next => exact List.Subset.refl _
  next => exact List.Subset.refl _

mutual

theorem columnsAssigned_fold (e : Entity) (body : Expr) {body' : Expr} (h : body.fold = .ok body') :
    columnsAssigned m e body' ⊆ columnsAssigned m e body := by
  match body with
  | .new type args bindings =>
    obtain ⟨bindings', folds, h⟩ := bind_eq_ok.1 h
    obtain ⟨args', -, h⟩ := bind_eq_ok.1 h
    obtain rfl := pure_eq_ok.1 h
    exact columnsOfBindings_fold e bindings folds
  | .conditional test a b =>
    obtain ⟨test', -, h⟩ := bind_eq_ok.1 h
    split at h
    next v =>
      split at h
      -- of a decided conditional, only one branch assigns
      next => exact List.Subset.trans (columnsAssigned_fold e a h) (List.subset_append_left _ _)
      next => exact List.Subset.trans (columnsAssigned_fold e b h) (List.subset_append_right _ _)
    next =>
      obtain ⟨a', first, h⟩ := bind_eq_ok.1 h
      obtain ⟨b', second, h⟩ := bind_eq_ok.1 h
      obtain rfl := pure_eq_ok.1 h
      exact List.append_subset.2
        ⟨List.Subset.trans (columnsAssigned_fold e a first) (List.subset_append_left _ _),
          List.Subset.trans (columnsAssigned_fold e b second) (List.subset_append_right _ _)⟩
  | .not operand =>
    obtain ⟨operand', folds, h⟩ := bind_eq_ok.1 h
    obtain rfl := pure_eq_ok.1 h
    exact List.Subset.trans (columnsAssigned_foldNot e operand') (columnsAssigned_fold e operand folds)
  | .binary l op r =>
    obtain ⟨l', -, h⟩ := bind_eq_ok.1 h
    obtain ⟨r', -, h⟩ := bind_eq_ok.1 h
    unfold Expr.foldBinary at h
    split at h
    next =>
      split at h
      next => obtain rfl := Except.ok.inj h; exact List.nil_subset _
      next => cases h
    next => obtain rfl := Except.ok.inj h; exact List.nil_subset _
  | .member of name =>
    obtain ⟨of', -, h⟩ := bind_eq_ok.1 h
    obtain rfl := pure_eq_ok.1 h
    exact List.nil_subset _
  | .captured .. | .param _ | .constant _ | .runtime _ =>
    obtain rfl := Except.ok.inj h
    exact List.Subset.refl _

theorem columnsOfBindings_fold (e : Entity) (bs : List (Binding Expr)) {bs' : List (Binding Expr)}
    (h : Expr.foldBindings bs = .ok bs') : columnsOfBindings m e bs' ⊆ columnsOfBindings m e bs := by
  match bs with
  | [] =>
    obtain rfl := Except.ok.inj h
    exact List.Subset.refl _
  | b :: rest =>
    obtain ⟨b', first, h⟩ := bind_eq_ok.1 h
    obtain ⟨rest', second, h⟩ := bind_eq_ok.1 h
    obtain rfl := pure_eq_ok.1 h
    unfold columnsOfBindings
    exact List.append_subset.2
      ⟨List.Subset.trans (columnsOfBinding_fold e b first) (List.subset_append_left _ _),
        List.Subset.trans (columnsOfBindings_fold e rest second) (List.subset_append_right _ _)⟩

theorem columnsOfBinding_fold (e : Entity) (b : Binding Expr) {b' : Binding Expr} (h : Expr.foldBinding b = .ok b') :
    columnsOfBinding m e b' ⊆ columnsOfBinding m e b := by
  match b with
  | .items member values =>
    obtain ⟨values', -, h⟩ := bind_eq_ok.1 h
    obtain rfl := pure_eq_ok.1 h
    exact List.Subset.refl _
  | .assign member value =>
    obtain ⟨value', folds, h⟩ := bind_eq_ok.1 h
    obtain rfl := pure_eq_ok.1 h
    unfold columnsOfBinding
    split
    next => exact List.Subset.refl _
    next =>
      split
      next target _ => exact columnsAssigned_fold target value folds
      next => exact List.Subset.refl _

end

end

section

variable {m : Model} {e : Entity} {member : String} {value : Expr}

theorem columnsOfBinding_property {p : Property} (property : e.property? member = some p) :
    columnsOfBinding m e (.assign member value) = [p.column] := by
  simp only [columnsOfBinding, property]

theorem columnsOfBinding_navigation (missing : e.property? member = none) {n : Navigation} {target : Entity}
    (navigation : e.navigation? member = some n) (known : m.entity? n.target = some target) :
    columnsOfBinding m e (.assign member value) = columnsAssigned m target value := by
  simp only [columnsOfBinding, missing, navigation, Option.bind_some, known]

end

namespace Planning

/-! ## Planned assignments -/

/-- A list of assignments goes on with assignments to some columns behind a path, and assigns no column twice. -/
structure Extends (path : List String) (out list : List Assignment) (columns : List String) : Prop where
  kept : out ⊆ list
  distinct : (out.map Assignment.column).Nodup → (list.map Assignment.column).Nodup
  columns : ∀ a ∈ list, a ∈ out ∨ a.column ∈ columns
  deeper : ∀ a ∈ list, a ∈ out ∨ path.length < a.path.length

section

variable {m : Model} {subject : Subject}

mutual

theorem assignInto_extends {e : Entity} {path : List String} {out list : List Assignment} (body : Expr)
    (h : assignInto m subject e path body out = .ok list) : Extends path out list (columnsAssigned m e body) := by
  match body with
  | .new type args bindings =>
    obtain ⟨-, -, all⟩ := assignInto_eq_ok h
    exact assignAll_extends bindings all
  | .param _ | .member .. | .constant _ | .captured .. | .runtime _ | .binary .. | .not _ | .conditional .. =>
    exact absurd h (not_fail_eq_ok _ _)

theorem assignAll_extends {e : Entity} {path : List String} {out list : List Assignment} (bs : List (Binding Expr))
    (h : assignAll m subject e path bs out = .ok list) : Extends path out list (columnsOfBindings m e bs) := by
  match bs with
  | [] =>
    obtain rfl := Except.ok.inj h
    exact ⟨List.Subset.refl _, id, fun _ => .inl, fun _ => .inl⟩
  | b :: rest =>
    obtain ⟨middle, first, second⟩ := bind_eq_ok.1 h
    obtain ⟨kept, distinct, columns, deeper⟩ := assignOne_extends b first
    obtain ⟨kept', distinct', columns', deeper'⟩ := assignAll_extends rest second
    refine ⟨List.Subset.trans kept kept', distinct' ∘ distinct, fun a member => ?_, fun a member => ?_⟩
    · unfold columnsOfBindings
      rcases columns' a member with before | later
      · exact (columns a before).imp_right (List.mem_append_left _)
      · exact .inr (List.mem_append_right _ later)
    · exact (deeper' a member).elim (deeper a) .inr

theorem assignOne_extends {e : Entity} {path : List String} {out list : List Assignment} (b : Binding Expr)
    (h : assignOne m subject e path b out = .ok list) : Extends path out list (columnsOfBinding m e b) := by
  match b with
  | .items .. => exact absurd h (not_fail_eq_ok _ _)
  | .assign member value =>
    rcases assignOne_eq_ok h with ⟨p, property, new, rfl⟩ | ⟨n, target, missing, navigation, -, known, inside⟩
    · rw [columnsOfBinding_property property]
      refine ⟨List.subset_append_left _ _, fun distinct => ?_, fun a member => ?_, fun a member => ?_⟩
      · rw [List.map_append]
        exact distinct.append (List.nodup_singleton _) (List.disjoint_singleton.2 new)
      · exact (List.mem_append.1 member).imp_right fun last => by simp_all
      · exact (List.mem_append.1 member).imp_right fun last => by simp_all
    · rw [columnsOfBinding_navigation missing navigation known]
      have inner := assignInto_extends value inside
      refine { inner with deeper := fun a member => (inner.deeper a member).imp_right fun longer => ?_ }
      rw [List.length_append] at longer
      omega

end

theorem mem_of_binding {e : Entity} {path : List String} {bs : List (Binding Expr)} {out list : List Assignment}
    (h : assignAll m subject e path bs out = .ok list) {member : String} {value : Expr}
    (inside : .assign member value ∈ bs) {p : Property} (property : e.property? member = some p) :
    ⟨path ++ [member], p.column, value⟩ ∈ list := by
  induction bs generalizing out with
  | nil => cases inside
  | cons b rest ih =>
    obtain ⟨middle, first, second⟩ := bind_eq_ok.1 h
    rcases List.mem_cons.1 inside with rfl | later
    · rcases assignOne_eq_ok first with ⟨q, found, -, rfl⟩ | ⟨_, _, missing, -⟩
      · obtain rfl := Option.some.inj (property.symm.trans found)
        exact (assignAll_extends rest second).kept (List.mem_append_right _ (List.mem_singleton_self _))
      · rw [property] at missing
        cases missing
    · exact ih second later

theorem direct_of_mem {e : Entity} {bs : List (Binding Expr)} {out list : List Assignment}
    (h : assignAll m subject e [] bs out = .ok list) {a : Assignment} (member : a ∈ list) {name : String}
    (direct : a.path = [name]) :
    a ∈ out ∨ ∃ value p, .assign name value ∈ bs ∧ e.property? name = some p ∧ a.column = p.column := by
  induction bs generalizing out with
  | nil =>
    obtain rfl := Except.ok.inj h
    exact .inl member
  | cons b rest ih =>
    obtain ⟨middle, first, second⟩ := bind_eq_ok.1 h
    rcases ih second with here | ⟨value, p, inside, property, column⟩
    case inr => exact .inr ⟨value, p, List.mem_cons_of_mem _ inside, property, column⟩
    cases b with
    | items => exact absurd first (not_fail_eq_ok _ _)
    | assign other value =>
      rcases assignOne_eq_ok first with ⟨p, property, -, rfl⟩ | ⟨n, target, -, -, -, -, inner⟩
      · rcases List.mem_append.1 here with before | last
        · exact .inl before
        · obtain rfl := List.mem_singleton.1 last
          obtain rfl := List.singleton_inj.1 direct
          exact .inr ⟨value, p, List.mem_cons_self, property, rfl⟩
      · -- an owned navigation assigns members of its members
        refine ((assignInto_extends value inner).deeper a here).imp_right fun longer => ?_
        rw [direct] at longer
        exact absurd longer (Nat.lt_irrefl _)

theorem standaloneFields_names {mutation : Mutation} {scope : Scope} {list : List Assignment} {fs : List Projection}
    {w w' : Workspace} (run : Step.Yields (standaloneFields m mutation scope list) w fs w') :
    fs.map Projection.name = list.map Assignment.column := by
  induction list generalizing w fs w' with
  | nil =>
    obtain ⟨rfl, -⟩ := Step.yields_pure.1 run
    rfl
  | cons a rest ih =>
    simp only [standaloneFields, Step.yields_bind, Step.yields_pure] at run
    obtain ⟨value, v, -, others, _, second, rfl, -⟩ := run
    exact congrArg (a.column :: ·) (ih second)

theorem assignedFields_names {scope : Scope} {list : List Assignment} {fs : List Projection} {w w' : Workspace}
    (run : Step.Yields (assignedFields m scope list) w fs w') :
    fs.map Projection.name = list.map Assignment.column := by
  induction list generalizing w fs w' with
  | nil =>
    obtain ⟨rfl, -⟩ := Step.yields_pure.1 run
    rfl
  | cons a rest ih =>
    simp only [assignedFields, Step.yields_bind, Step.yields_pure] at run
    obtain ⟨value, v, -, others, _, second, rfl, -⟩ := run
    exact congrArg (a.column :: ·) (ih second)

theorem standaloneFields_values {mutation : Mutation} {scope : Scope} {list : List Assignment} {fs : List Projection}
    {w w' : Workspace} (run : Step.Yields (standaloneFields m mutation scope list) w fs w') {a : Assignment}
    (member : a ∈ list) :
    ∃ v e v', Step.Yields (expr m scope a.value) v (.scalar e) v' ∧ ⟨a.column, e⟩ ∈ fs := by
  induction list generalizing w fs w' with
  | nil => cases member
  | cons b rest ih =>
    simp only [standaloneFields, standaloneScalar, Step.yields_bind, asScalar_yields, Step.yields_pure] at run
    obtain ⟨value, _, ⟨_, _, first, rfl, rfl⟩, others, _, second, rfl, -⟩ := run
    rcases List.mem_cons.1 member with rfl | later
    · exact ⟨_, value, _, (standalone_yields first).1, List.mem_cons_self⟩
    · obtain ⟨v, e, v', yields, inside⟩ := ih second later
      exact ⟨v, e, v', yields, List.mem_cons_of_mem _ inside⟩

end

end Planning

end Setwise
