import Setwise.Proofs.Delivery
import Setwise.Proofs.PlannedMutations

/-!
Sets filtered by predicates that follow no reference.

Such a predicate is planned as the same condition in every workspace, and leaves it as it is (`PlannedAlone`). The
query is planned as the bare table with the conjunction of these conditions (`filtered_planned`), and a row satisfies
the condition of a plain predicate where the predicate is true of the entity that the row is (`passes_alone`).
-/

set_option autoImplicit false

namespace Setwise

open Client Relational Execution

/-- The set of an entity type, filtered by some predicates one after the other. -/
def Client.Query.filtered (name : String) (predicates : List Lambda) : Query :=
  predicates.foldl .filter (.set name)

theorem Client.Query.filtered_append (name : String) (predicates : List Lambda) (p : Lambda) :
    Query.filtered name (predicates ++ [p]) = .filter (.filtered name predicates) p :=
  List.foldl_append

def Client.Lambda.accepts (m : Model) (db : Database) (ps : Parameters) (l : Lambda) (x : Element) : Bool :=
  ((l.apply m db ps [x]).value?.map Value.isTrue).getD false

namespace Planning

def Idle {α : Type} (x : Step α) (a : α) : Prop :=
  ∀ w, Step.Yields x w a w

theorem Idle.eq {α : Type} {x : Step α} {a b : α} (idle : Idle x a) {w w' : Workspace} (h : Step.Yields x w b w') :
    b = a ∧ w' = w := by
  have same := h.symm.trans (idle w)
  obtain ⟨results, states⟩ := Prod.mk.inj same
  exact ⟨Except.ok.inj results, states⟩

/-! ## Expressions that follow no reference -/

section

variable {m : Model} {scope : Scope} {types : List (String × ElementType)}

theorem member_idle {s s' : Shape} {t u : ElementType} {name : String} {whole : Expr} {w w' : Workspace}
    (type : s.type? = some t) (member : t.member? m name = some u)
    (h : Step.Yields (readMember m s name whole) w s' w') :
    s'.type? = some u ∧ Idle (readMember m s name whole) s' := by
  obtain ⟨static, rfl⟩ | ⟨_, _, _, _, _, _, reference, -⟩ := readMember_yields h
  · exact ⟨staticMember?_typed static type member, fun v => readMember_of_static static whole v⟩
  · rw [reference.untyped type] at member
    cases member

mutual

theorem expr_idle {t : ElementType} {s : Shape} {w w' : Workspace} (e : Expr) (known : ScopeTyped scope types)
    (typed : e.type? m types = some t) (h : Step.Yields (expr m scope e) w s w') :
    s.type? = some t ∧ Idle (expr m scope e) s := by
  match e with
  | .param x =>
    obtain ⟨u, found, type, -⟩ := known x t typed
    obtain ⟨here, -⟩ := param_yields.1 h
    obtain rfl := Option.some.inj (found.symm.trans here)
    exact ⟨type, fun _ => param_yields.2 ⟨found, rfl⟩⟩
  | .constant v =>
    obtain ⟨rfl, -⟩ := constant_yields.1 h
    exact ⟨typed, fun _ => constant_yields.2 ⟨rfl, rfl⟩⟩
  | .captured .. => cases typed
  | .runtime name =>
    obtain ⟨rfl, -⟩ := runtime_yields.1 h
    exact ⟨typed, fun _ => runtime_yields.2 ⟨rfl, rfl⟩⟩
  | .member of name =>
    obtain ⟨u, v, first, last⟩ := member_yields.1 h
    obtain ⟨t', owner, member⟩ := Option.bind_eq_some_iff.1 typed
    obtain ⟨type, idle⟩ := expr_idle of known owner first
    -- typed members are static, so nothing is joined for them
    obtain ⟨type', idle'⟩ := member_idle type member last
    exact ⟨type', fun w => member_yields.2 ⟨u, w, idle w, idle' w⟩⟩
  | .binary l op r =>
    obtain ⟨a, u, b, c, first, second, result, rfl⟩ := binary_yields.1 h
    obtain ⟨lt, left, typed⟩ := Option.bind_eq_some_iff.1 typed
    obtain ⟨rt, right, same⟩ := Option.bind_eq_some_iff.1 typed
    obtain ⟨-, idle⟩ := expr_idle l known left first
    obtain ⟨-, idle'⟩ := expr_idle r known right second
    exact ⟨same, fun w => binary_yields.2 ⟨a, w, b, c, idle w, idle' w, result, rfl⟩⟩
  | .not operand =>
    obtain ⟨c, first, rfl⟩ := not_yields.1 h
    obtain ⟨t', here, same⟩ := Option.bind_eq_some_iff.1 typed
    obtain ⟨-, idle⟩ := expr_idle operand known here first
    exact ⟨same, fun w => not_yields.2 ⟨c, idle w, rfl⟩⟩
  | .conditional test a b =>
    obtain ⟨c, u, d, v, e, first, second, third, rfl⟩ := conditional_yields.1 h
    obtain ⟨t₁, testTyped, typed⟩ := Option.bind_eq_some_iff.1 typed
    obtain ⟨t₂, aTyped, typed⟩ := Option.bind_eq_some_iff.1 typed
    obtain ⟨t₃, bTyped, same⟩ := Option.bind_eq_some_iff.1 typed
    obtain ⟨-, tested⟩ := expr_idle test known testTyped first
    obtain ⟨-, left⟩ := expr_idle a known aTyped second
    obtain ⟨-, right⟩ := expr_idle b known bTyped third
    exact ⟨same, fun w => conditional_yields.2 ⟨c, w, d, w, e, tested w, left w, right w, rfl⟩⟩
  | .new type args bindings =>
    obtain ⟨empty, fields, first, rfl⟩ := new_yields.1 h
    obtain ⟨fieldTypes, here, same⟩ := Option.bind_eq_some_iff.1 typed
    obtain rfl := Option.some.inj same
    obtain ⟨typed, idle⟩ := fieldList_idle bindings known here first
    exact ⟨by simp [Shape.type?, typed], fun w => new_yields.2 ⟨empty, fields, idle w, rfl⟩⟩

theorem fieldList_idle {whole : Expr} {fs : List (String × Shape)} {ts : List (String × ElementType)}
    {w w' : Workspace} (bs : List (Binding Expr)) (known : ScopeTyped scope types)
    (typed : fieldTypes? m types bs = some ts) (h : Step.Yields (fieldList m scope whole bs) w fs w') :
    Shape.fieldTypes? fs = some ts ∧ Idle (fieldList m scope whole bs) fs := by
  match bs with
  | [] =>
    obtain ⟨rfl, -⟩ := noFields_yields.1 h
    exact ⟨typed, fun _ => noFields_yields.2 ⟨rfl, rfl⟩⟩
  | .items .. :: rest => cases typed
  | .assign name value :: rest =>
    obtain ⟨s, u, others, first, second, rfl⟩ := assign_yields.1 h
    simp only [fieldTypes?, fieldType?, Option.bind_eq_bind, Option.bind_eq_some_iff, Option.pure_def,
      Option.some.injEq] at typed
    obtain ⟨_, ⟨t, here, rfl⟩, later, behind, rfl⟩ := typed
    obtain ⟨type, idle⟩ := expr_idle value known here first
    obtain ⟨types, idle'⟩ := fieldList_idle rest known behind second
    exact ⟨by simp [Shape.fieldTypes?, Shape.fieldType?, type, types],
      fun w => assign_yields.2 ⟨s, w, others, idle w, idle' w, rfl⟩⟩

end

end

/-! ## Predicates on the entities of a table -/

/-- The predicate reads no reference of the entity type. -/
def FollowsNone (m : Model) (name : String) (p : Lambda) : Prop :=
  (p.type? m [.entity name]).isSome

/-- The condition that a predicate on an entity is planned as, wherever that happens. -/
def PlannedAlone (m : Model) (r : EntityView) (p : Lambda) (c : Scalar) : Prop :=
  Idle (scalar m (p.params.zip [.entity r]) p.body) c

section

variable {m : Model} {r : EntityView} {p : Lambda} {c : Scalar} {w w' : Workspace}

theorem scope_typed (r : EntityView) (names : List String) :
    ScopeTyped (names.zip [Shape.entity r]) (names.zip [ElementType.entity r.entity]) :=
  scopeTyped_zip rfl (List.forall_mem_singleton.2 ⟨rfl, trivial⟩) names

theorem plannedAlone_of_yields (follows : FollowsNone m r.entity p)
    (h : Step.Yields (scalar m (p.params.zip [.entity r]) p.body) w c w') : PlannedAlone m r p c := by
  obtain ⟨t, typed⟩ := Option.isSome_iff_exists.1 follows
  obtain ⟨-, idle⟩ := expr_idle p.body (scope_typed r p.params) typed (scalar_yields.1 h)
  exact fun v => scalar_yields.2 (idle v)

/-- A row satisfies the condition of a plain predicate where the predicate is true of the entity that the row is. -/
theorem passes_alone (alone : PlannedAlone m r p c) (whole : r.renames = []) (follows : FollowsNone m r.entity p)
    (plain : p.body.plain = true) (db : Database) (env : Environment) (columns : List String) (row : Row) :
    passes env (some c) [⟨r.label, columns, row⟩] =
      p.accepts m db env.parameters (.ofRow m r.entity columns row) := by
  obtain ⟨entity, label, renames⟩ := r
  obtain rfl : renames = [] := whole
  obtain ⟨t, typed⟩ := Option.isSome_iff_exists.1 follows
  obtain ⟨-, means⟩ := expr_meaning p.body (scope_typed _ p.params) typed (by simp [plain])
    (scalar_yields.1 (alone {}))
  have seen : (Shape.entity ⟨entity, label, []⟩).element m env [⟨label, columns, row⟩] = .ofRow m entity columns row :=
    element_joined (f := []) (b := ⟨label, columns, row⟩) m env entity List.not_mem_nil []
  have value := means.element db env [⟨label, columns, row⟩]
  rw [fieldElements_zip, List.map_singleton, seen] at value
  rw [passes_some]
  unfold Lambda.accepts Lambda.apply
  rw [← value]
  rfl

end

/-! ## Filtered sets -/

def conjunction (cs : List Scalar) : Option Scalar :=
  cs.foldl (fun before c => some (Scalar.both before c)) none

theorem conjunction_append (cs : List Scalar) (c : Scalar) :
    conjunction (cs ++ [c]) = some (Scalar.both (conjunction cs) c) :=
  List.foldl_append

theorem passes_conjunction (env : Environment) (f : Frame) (cs : List Scalar) :
    passes env (conjunction cs) f = cs.all fun c => passes env (some c) f := by
  induction cs using List.reverseRecOn with
  | nil => rfl
  | append_singleton cs c ih => rw [conjunction_append, passes_both, ih, List.all_append, List.all_cons, List.all_nil,
      Bool.and_true]

/-- A filtered set is planned as a table with the conjunction of the conditions that its predicates are planned as, if
these follow no reference. -/
theorem filtered_planned {m : Model} {name : String} {predicates : List Lambda} {w w' : Workspace} {s : Planned}
    (follows : ∀ p ∈ predicates, FollowsNone m name p) (h : Step.Yields (query m (.filtered name predicates)) w s w') :
    ∃ e table cs, m.entity? name = some e ∧ table.name = e.table ∧ table.label ∉ w.labels ∧
      List.Forall₂ (PlannedAlone m { entity := name, label := table.label }) predicates cs ∧
      s = ⟨{ source := .table table, predicate := conjunction cs }, .entity { entity := name, label := table.label },
        []⟩ ∧ w'.labels = w.labels ++ [table.label] ∧ w'.navigations = w.navigations := by
  induction predicates using List.reverseRecOn generalizing s w' with
  | nil =>
    obtain ⟨e, table, known, -, new, rfl⟩ := set_yields h
    obtain ⟨fresh, same, rfl⟩ := newTable_yields new
    obtain rfl := name_of_entity? known
    exact ⟨e, table, [], known, by rw [same], fresh, .nil, rfl, rfl, rfl⟩
  | append_singleton predicates p ih =>
    obtain ⟨earlier, last⟩ := List.forall_mem_append.1 follows
    rw [Query.filtered_append] at h
    obtain ⟨s, v, t, v', condition, select, first, wrapped, run, rfl⟩ := filter_yields h
    obtain ⟨e, table, cs, known, named, fresh, alone, rfl, labels, navigations⟩ := ih earlier first
    -- the select is open, so the filter goes to it
    obtain ⟨closed, -⟩ | ⟨-, rfl, rfl⟩ := wrapIf_yields wrapped
    · cases closed
    obtain ⟨judged, rfl⟩ := against_yields.1 run
    have here : PlannedAlone m { entity := name, label := table.label } p condition :=
      plannedAlone_of_yields (last p (List.mem_singleton_self p)) judged
    obtain ⟨-, rfl⟩ := here.eq judged
    refine ⟨e, table, cs ++ [condition], known, named, fresh, ?_, ?_, labels, navigations⟩
    · exact List.rel_append alone (.cons here .nil)
    · rw [conjunction_append]
      rfl

end Planning

end Setwise
