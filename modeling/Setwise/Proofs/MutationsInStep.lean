import Setwise.Proofs.AgreeingWrites
import Setwise.Proofs.PlannedMutations
import Setwise.Proofs.QueriesInStep

/-!
Mutations and their reducts, planned in step.

Two mutations of one kind correspond when their queries do and their lambdas reduce (`MutationsReduce`). They are
planned as statements that agree, with collections of the same rows to feed them (`mutation_beside`); pruned, bound
and run, such plans report the same number of rows and leave the same database (`PlansAgree.run`).
-/

set_option autoImplicit false

namespace Setwise.Planning

open Client Relational Execution

/-! ## Assignments -/

/-- Two assignments to one property, of values of which one reduces to the other. -/
structure AssignmentReduces (R : Reduction) (a a' : Assignment) : Prop where
  column : a.column = a'.column
  path : a.path = a'.path
  value : Reduces R a.value a'.value

section

variable {m : Model} {R : Reduction} {subject subject' : Subject}

mutual

theorem assignInto_reduces {e : Entity} {path : List String} {body body' : Expr} (h : Reduces R body body')
    {out out' list list' : List Assignment} (before : List.Forall₂ (AssignmentReduces R) out out')
    (run : assignInto m subject e path body out = .ok list)
    (run' : assignInto m subject' e path body' out' = .ok list') : List.Forall₂ (AssignmentReduces R) list list' := by
  match h with
  | .new _ bindings =>
    obtain ⟨-, -, all⟩ := assignInto_eq_ok run
    obtain ⟨-, -, all'⟩ := assignInto_eq_ok run'
    exact assignAll_reduces bindings before all all'
  | .param _ | .constant _ | .captured .. | .runtime .. | .known .. | .member .. | .value .. | .binary .. | .not ..
  | .decided .. | .conditional .. => exact absurd run (not_fail_eq_ok _ _)

theorem assignAll_reduces {e : Entity} {path : List String} {bs bs' : List (Binding Expr)}
    (h : BindingsReduce R bs bs') {out out' list list' : List Assignment}
    (before : List.Forall₂ (AssignmentReduces R) out out') (run : assignAll m subject e path bs out = .ok list)
    (run' : assignAll m subject' e path bs' out' = .ok list') : List.Forall₂ (AssignmentReduces R) list list' := by
  match h with
  | .nil =>
    obtain rfl := Except.ok.inj run
    obtain rfl := Except.ok.inj run'
    exact before
  | .items _ =>
    obtain ⟨_, failed, -⟩ := bind_eq_ok.1 run
    exact absurd failed (not_fail_eq_ok _ _)
  | .assign value rest =>
    obtain ⟨middle, here, later⟩ := bind_eq_ok.1 run
    obtain ⟨middle', here', later'⟩ := bind_eq_ok.1 run'
    refine assignAll_reduces rest ?_ later later'
    -- the member is the same on both sides, so it is found at the same place
    rcases assignOne_eq_ok here with ⟨p, property, -, rfl⟩ | ⟨n, target, missing, navigation, -, known, inner⟩ <;>
      rcases assignOne_eq_ok here' with
        ⟨p', property', -, rfl⟩ | ⟨n', target', missing', navigation', -, known', inner'⟩
    · obtain rfl := Option.some.inj (property.symm.trans property')
      exact List.rel_append before (.cons ⟨rfl, rfl, value⟩ .nil)
    · cases property.symm.trans missing'
    · cases missing.symm.trans property'
    · obtain rfl := Option.some.inj (navigation.symm.trans navigation')
      obtain rfl := Option.some.inj (known.symm.trans known')
      exact assignInto_reduces value before inner inner'

end

theorem assigned_reduces {mutation mutation' : Mutation} {e : Entity} {what : String} {l l' : Lambda}
    (h : Reduces R l.body l'.body) {list list' : List Assignment} (run : assigned m mutation e what l = .ok list)
    (run' : assigned m mutation' e what l' = .ok list') : List.Forall₂ (AssignmentReduces R) list list' :=
  assignInto_reduces h .nil (assigned_eq_ok run).2.1 (assigned_eq_ok run').2.1

theorem directMembers_same {list list' : List Assignment} (h : List.Forall₂ (AssignmentReduces R) list list') :
    list.filterMap Assignment.directMember? = list'.filterMap Assignment.directMember? := by
  induction h with
  | nil => rfl
  | @cons a a' _ _ first _ ih =>
    have same : a.directMember? = a'.directMember? := by
      unfold Assignment.directMember?
      rw [first.path]
    rw [List.filterMap_cons, List.filterMap_cons, same, ih]

end

/-! ## Values of assignments -/

section

variable {m : Model} {S : Sides} {K K' : Ledger} {w w' v v' : Workspace} {scope scope' : Scope}

theorem assignedFields_beside (written : ∀ name, S.right.known name = none) {list list' : List Assignment}
    (h : List.Forall₂ (AssignmentReduces (filling m S.left.known scope scope')) list list')
    (scopes : ScopesAlike m S K scope scope') (beside : Beside K w w') (joins : JoinsAgree S K w.joins w'.joins)
    {fields fields' : List Projection} (run : Step.Yields (assignedFields m scope list) w fields v)
    (run' : Step.Yields (assignedFields m scope' list') w' fields' v') :
    ∃ K', K <+: K' ∧ Beside K' v v' ∧ JoinsAgree S K' v.joins v'.joins ∧ AssignmentsAgree S K' fields fields' := by
  induction h generalizing K w w' fields fields' with
  | nil =>
    obtain ⟨rfl, rfl⟩ := Step.yields_pure.1 run
    obtain ⟨rfl, rfl⟩ := Step.yields_pure.1 run'
    exact ⟨K, List.prefix_refl _, beside, joins, .nil⟩
  | cons first _ ih =>
    simp only [assignedFields, Step.yields_bind, Step.yields_pure] at run run'
    obtain ⟨c, u, here, others, _, later, rfl, rfl⟩ := run
    obtain ⟨c', u', here', others', _, later', rfl, rfl⟩ := run'
    obtain ⟨K₁, more₁, beside, joins, value⟩ :=
      expr_beside written first.value scopes beside joins (scalar_yields.1 here) (scalar_yields.1 here')
    obtain ⟨K₂, more₂, beside, joins, rest⟩ := ih (ShapesAlike.later more₁ scopes) beside joins later later'
    exact ⟨K₂, more₁.trans more₂, beside, joins, .cons first.column (ScalarsAgree.later more₂ value) rest⟩

theorem assignedFields_nil {list : List Assignment} (run : Step.Yields (assignedFields m scope list) w [] v) :
    list = [] := by
  cases list with
  | nil => rfl
  | cons a rest =>
    simp only [assignedFields, Step.yields_bind, Step.yields_pure] at run
    obtain ⟨_, _, -, _, _, -, ⟨⟩, -⟩ := run

theorem against_fields_beside (written : ∀ name, S.right.known name = none) {list list' : List Assignment}
    (h : List.Forall₂ (AssignmentReduces (filling m S.left.known scope scope')) list list')
    (scopes : ScopesAlike m S K scope scope') (beside : Beside K w w') {s s' r r' : Select} (selects : SelectsMatch S K s s')
    {fields fields' : List Projection} (run : Step.Yields (against s (assignedFields m scope list)) w (fields, r) v)
    (run' : Step.Yields (against s' (assignedFields m scope' list')) w' (fields', r') v') :
    ∃ K', K <+: K' ∧ Beside K' v v' ∧ SelectsMatch S K' r r' ∧ AssignmentsAgree S K' fields fields' := by
  obtain ⟨inside, rfl⟩ := against_yields.1 run
  obtain ⟨inside', rfl⟩ := against_yields.1 run'
  obtain ⟨K', more, after, joins, agree⟩ :=
    assignedFields_beside written h scopes (beside.withJoins s.joins s'.joins) selects.joins inside inside'
  exact ⟨K', more, after, { selects.later more with joins }, agree⟩

theorem standaloneFields_beside (written : ∀ name, S.right.known name = none) {mutation mutation' : Mutation}
    {list list' : List Assignment}
    (h : List.Forall₂ (AssignmentReduces (filling m S.left.known scope scope')) list list')
    (scopes : ScopesAlike m S K scope scope') (beside : Beside K w w') {fields fields' : List Projection}
    (run : Step.Yields (standaloneFields m mutation scope list) w fields v)
    (run' : Step.Yields (standaloneFields m mutation' scope' list') w' fields' v') :
    ∃ K', K <+: K' ∧ Beside K' v v' ∧ AssignmentsAgree S K' fields fields' := by
  induction h generalizing K w w' fields fields' with
  | nil =>
    obtain ⟨rfl, rfl⟩ := Step.yields_pure.1 run
    obtain ⟨rfl, rfl⟩ := Step.yields_pure.1 run'
    exact ⟨K, List.prefix_refl _, beside, .nil⟩
  | cons first _ ih =>
    simp only [standaloneFields, standaloneScalar, Step.yields_bind, asScalar_yields, Step.yields_pure] at run run'
    obtain ⟨c, u, ⟨_, _, here, rfl, rfl⟩, others, _, later, rfl, rfl⟩ := run
    obtain ⟨c', u', ⟨_, _, here', rfl, rfl⟩, others', _, later', rfl, rfl⟩ := run'
    obtain ⟨K₁, more₁, beside, value⟩ := standalone_beside written first.value scopes beside here here'
    obtain ⟨K₂, more₂, beside, rest⟩ := ih (ShapesAlike.later more₁ scopes) beside later later'
    exact ⟨K₂, more₁.trans more₂, beside, .cons first.column (ScalarsAgree.later more₂ value) rest⟩

end

/-! ## Targets -/

section

variable {m : Model} {S : Sides} {K : Ledger}

theorem rootTable_beside {mutation mutation' : Mutation} {s s' : Planned} (agree : PlannedAgree m S K s s')
    {table table' : StoredTable} {e e' : Entity} (root : rootTable m mutation s = .ok (table, e))
    (root' : rootTable m mutation' s' = .ok (table', e')) :
    table = table' ∧ e = e' ∧ K.lookup table.label = some .same := by
  obtain ⟨source, shape, known, -⟩ := rootTable_eq_ok root
  obtain ⟨source', shape', known', -⟩ := rootTable_eq_ok root'
  have sources := agree.select.source
  rw [source, source'] at sources
  obtain ⟨_, entered⟩ := sources
  have shapes := agree.shape
  rw [shape, shape'] at shapes
  obtain ⟨_, ⟨⟩, type, -⟩ := shapes.entity
  dsimp only at type
  rw [← type, known] at known'
  exact ⟨rfl, Option.some.inj known', entered⟩

theorem targetRow_alike {name label : String} (known : K.lookup label = some .same) :
    ShapesAlike m S K (.entity { entity := name, label }) (.entity { entity := name, label }) :=
  fun _ _ _ alike => ⟨rfl, rfl, fun _ _ => valueOf_column_same known alike _⟩

theorem incomingRow_alike (name : String) (columns : List String) :
    ShapesAlike m S K (.excluded name columns) (.excluded name columns) :=
  fun _ _ _ _ => ⟨rfl, rfl, fun _ => rfl⟩

def TargetRow (name : String) (s s' : Shape) : Prop :=
  ∃ label, s = .entity { entity := name, label } ∧ s' = s

def IncomingRow (name : String) (s s' : Shape) : Prop :=
  ∃ columns, s = .excluded name columns ∧ s' = s

/-- What the lambda that inserts the rows of an upsert is applied to: the elements of the source, if there is one. -/
def sourceElements (m : Model) : Option Query → Option Query → List (Shape → Shape → Prop)
  | some q, some q' => [Elements m q q']
  | _, _ => []

end

/-! ## Mutations -/

section

variable (m : Model) (known : String → Option Value) (B : Reduction → Expr → Expr → Prop) (H : String → String → Prop)

inductive MutationsMatch : Mutation → Mutation → Prop
  | delete {q q' : Query} (query : QueriesMatch m known B H q q') : MutationsMatch (.delete q) (.delete q')
  | update {q q' : Query} {l l' : Lambda} (query : QueriesMatch m known B H q q')
      (set : LambdasMatch m known B [Elements m q q'] l l') : MutationsMatch (.update q l) (.update q' l')
  | updateJoin {q q' r r' : Query} {k k' l l' n n' : Lambda} {c c' : Option Lambda}
      (outer : QueriesMatch m known B H q q') (inner : QueriesMatch m known B H r r')
      (outerKey : LambdasMatch m known B [Elements m q q'] k k')
      (innerKey : LambdasMatch m known B [Elements m r r'] l l')
      (set : LambdasMatch m known B [Elements m q q', Elements m r r'] n n')
      (condition : Option.Rel (LambdasMatch m known B [Elements m q q', Elements m r r']) c c') :
      MutationsMatch (.updateJoin q r k l n c) (.updateJoin q' r' k' l' n' c')
  | insertInto {q q' : Query} (query : QueriesMatch m known B H q q') (target : String) :
      MutationsMatch (.insertInto q target) (.insertInto q' target)
  | upsert (target : String) {q q' : Option Query} {l l' : Lambda} {u u' : Option Lambda}
      (source : Option.Rel (QueriesMatch m known B H) q q')
      (insert : LambdasMatch m known B (sourceElements m q q') l l')
      (update : Option.Rel (LambdasMatch m known B [TargetRow target, IncomingRow target]) u u') :
      MutationsMatch (.upsert target q l u) (.upsert target q' l' u')
  | merge (target : String) {q q' : Query} {k k' l l' : Lambda} {u u' i i' : Option Lambda}
      (source : QueriesMatch m known B H q q') (targetKey : LambdasMatch m known B [TargetRow target] k k')
      (sourceKey : LambdasMatch m known B [Elements m q q'] l l')
      (update : Option.Rel (LambdasMatch m known B [TargetRow target, Elements m q q']) u u')
      (insert : Option.Rel (LambdasMatch m known B [Elements m q q']) i i') (delete : Bool) :
      MutationsMatch (.merge target q k l u i delete) (.merge target q' k' l' u' i' delete)

end

/-- The queries and lambdas of one mutation reduce to those of the other one. -/
abbrev MutationsReduce (m : Model) (S : Sides) : Mutation → Mutation → Prop :=
  MutationsMatch m S.left.known Reduces (HoldSame S)

/-! ### Collections that feed mutations -/

/-- Collections that feed two plans hold the same rows, and without rows the statements come down to the same. -/
structure FeedsAgree (S : Sides) (f f' : Feed) : Prop where
  rows : HoldSame S f.parameter f'.parameter
  whenEmpty : f.whenEmpty = f'.whenEmpty

def PlansAgree (S : Sides) (K : Ledger) (plan plan' : Plan) : Prop :=
  ∃ s s', plan.root = .affected s ∧ plan'.root = .affected s' ∧ StatementsAgree S K s s' ∧
    List.Forall₂ (FeedsAgree S) plan.feeds plan'.feeds

section

variable {m : Model} {S : Sides}

theorem optionRel_or {α β : Type} {R : α → β → Prop} {a b : Option α} {c d : Option β} (first : Option.Rel R a c)
    (second : Option.Rel R b d) : Option.Rel R (a.or b) (c.or d) := by
  cases first with
  | none => exact second
  | some same => exact .some same

theorem optionRel_toList {α β : Type} {R : α → β → Prop} {a : Option α} {b : Option β} (h : Option.Rel R a b) :
    List.Forall₂ R a.toList b.toList := by
  cases h with
  | none => exact .nil
  | some same => exact .cons same .nil

theorem feedingCollection_agree {q q' : Query} (h : QueriesReduce m S q q') :
    Option.Rel (HoldSame S) (feedingCollection? q) (feedingCollection? q') := by
  induction h with
  | set | union => exact .none
  | rows fields same => exact .some same
  | filter _ _ ih | map _ _ ih | orderBy _ _ _ ih | take _ _ ih | skip _ _ ih | groupBy _ _ ih => exact ih
  | join _ _ _ _ _ outer inner => exact optionRel_or outer inner

theorem feeds_agree {q q' : Query} (h : QueriesReduce m S q q') (whenEmpty : Fallback) :
    List.Forall₂ (FeedsAgree S) (feeds q whenEmpty) (feeds q' whenEmpty) := by
  have names := optionRel_toList (feedingCollection_agree h)
  exact List.forall₂_map_left_iff.2 (List.forall₂_map_right_iff.2 (names.imp fun _ _ same => ⟨same, rfl⟩))

end

/-! ### Kinds of mutations -/

section

variable {m : Model} {capabilities : Capabilities} {S : Sides} (finite : Finite m)
  (written : ∀ name, S.right.known name = none) {v v' : Workspace} {plan plan' : Plan}
include finite written

theorem update_beside {q q' : Query} {l l' : Lambda} (query : QueriesReduce m S q q')
    (set : LambdasReduce m S [Elements m q q'] l l') {K : Ledger} {w w' : Workspace} (beside : Beside K w w')
    (run : Step.Yields (mutationPlan m capabilities (.update q l)) w plan v)
    (run' : Step.Yields (mutationPlan m capabilities (.update q' l')) w' plan' v') : ∃ K', PlansAgree S K' plan plan' := by
  obtain ⟨s, _, table, e, list, fields, select, first, root, assigns, inside, rfl⟩ := update_yields run
  obtain ⟨s', _, table', e', list', fields', select', first', root', assigns', inside', rfl⟩ := update_yields run'
  obtain ⟨K₁, more₁, beside, agree⟩ := query_beside finite written query beside first first'
  obtain ⟨rfl, rfl, known⟩ := rootTable_beside agree root root'
  have assignments := assigned_reduces (set.one (.planned first first')) assigns assigns'
  have scopes := ScopesAlike.zip (.cons agree.shape .nil) l.params
  rw [← set.params] at inside'
  obtain ⟨K₂, more₂, -, selects, changes⟩ :=
    against_fields_beside written assignments scopes beside agree.select inside inside'
  refine ⟨K₂, _, _, rfl, rfl, .update ?_ changes (.of_scalars selects.predicate) selects.joins, .nil⟩
  exact Ledger.lookup_of_prefix more₂ known

theorem updateJoin_beside {mutation mutation' : Mutation} {q q' r r' : Query} {k k' l l' n n' : Lambda}
    {c c' : Option Lambda} (outer : QueriesReduce m S q q') (inner : QueriesReduce m S r r')
    (outerKey : LambdasReduce m S [Elements m q q'] k k') (innerKey : LambdasReduce m S [Elements m r r'] l l')
    (set : LambdasReduce m S [Elements m q q', Elements m r r'] n n')
    (condition : Option.Rel (LambdasReduce m S [Elements m q q', Elements m r r']) c c') {K : Ledger}
    {w w' : Workspace} (beside : Beside K w w') (run : Step.Yields (updateJoin m mutation q r k l n c) w plan v)
    (run' : Step.Yields (updateJoin m mutation' q' r' k' l' n' c') w' plan' v') : ∃ K', PlansAgree S K' plan plan' := by
  obtain ⟨s, _, table, e, i, _, source, shape, _, a, select, _, b, _, on, list, fields, select₂, z, first, root, second,
    sourced, reading, alone, equality, assigns, inside, last⟩ := updateJoin_yields run
  obtain ⟨s', _, table', e', i', _, source', shape', _, a', select', _, b', _, on', list', fields', select₂', z', first',
    root', second', sourced', reading', alone', equality', assigns', inside', last'⟩ := updateJoin_yields run'
  obtain ⟨K₁, more₁, beside, agree⟩ := query_beside finite written outer beside first first'
  obtain ⟨rfl, rfl, known⟩ := rootTable_beside agree root root'
  -- the ledger grows from part to part, and what agreed under an earlier one agrees under the later ones
  have outers := Elements.planned first first'
  obtain ⟨K₂, more₂, beside, inputs⟩ := query_beside finite written inner beside second second'
  have inners := Elements.asSource second second' inputs.select.isBare sourced sourced'
  obtain ⟨K₃, more₃, beside, sources, shapes⟩ := asSource_beside finite beside inputs sourced sourced'
  have agree := agree.later (more₂.trans more₃)
  obtain ⟨K₄, more₄, beside, selects, both⟩ := joinOn_beside written outerKey innerKey outers inners beside agree
    sources shapes reading reading' alone alone' equality equality'
  have assignments := assigned_reduces (set.two outers inners) assigns assigns'
  have scopes := ScopesAlike.zip both n.params
  rw [← set.params] at inside'
  obtain ⟨K₅, more₅, beside, selects, changes⟩ :=
    against_fields_beside written assignments scopes beside selects inside inside'
  have known := Ledger.lookup_of_prefix (more₂.trans (more₃.trans (more₄.trans more₅))) known
  cases condition with
  | none =>
    obtain ⟨-, rfl, rfl⟩ | ⟨_, _, _, ⟨⟩, -⟩ := last
    obtain ⟨-, rfl, rfl⟩ | ⟨_, _, _, ⟨⟩, -⟩ := last'
    refine ⟨K₅, _, _, rfl, rfl, ?_, feeds_agree inner .skip⟩
    exact .update known changes (.of_scalars selects.predicate) selects.joins
  | @some c c' reduces =>
    obtain ⟨⟨⟩, -⟩ | ⟨_, p, select₃, ⟨⟩, filtering, rfl⟩ := last
    obtain ⟨⟨⟩, -⟩ | ⟨_, p', select₃', ⟨⟩, filtering', rfl⟩ := last'
    have scopes := ScopesAlike.zip (both.imp fun _ _ => ShapesAlike.later more₅) c.params
    rw [← reduces.params] at filtering'
    obtain ⟨K₆, more₆, -, selects, met⟩ := against_scalar_beside written (reduces.two outers inners) scopes beside
      selects filtering filtering'
    have known := Ledger.lookup_of_prefix more₆ known
    refine ⟨K₆, _, _, rfl, rfl, .update known (changes.later more₆) ?_ selects.joins, feeds_agree inner .skip⟩
    exact .of_scalars (.some (.both selects.predicate met))

theorem insertInto_beside {q q' : Query} {target : String} (query : QueriesReduce m S q q') {K : Ledger}
    {w w' : Workspace} (beside : Beside K w w')
    (run : Step.Yields (mutationPlan m capabilities (.insertInto q target)) w plan v)
    (run' : Step.Yields (mutationPlan m capabilities (.insertInto q' target)) w' plan' v') :
    ∃ K', PlansAgree S K' plan plan' := by
  obtain ⟨q, l, e, list, s, _, fields, select, rfl, known, assigns, first, inside, rfl⟩ := insertInto_yields run
  obtain ⟨q', l', e', list', s', _, fields', select', rfl, known', assigns', first', inside', rfl⟩ :=
    insertInto_yields run'
  cases query with | map query selector => ?_
  obtain rfl := Option.some.inj ((targetEntity_eq_ok known).1.symm.trans (targetEntity_eq_ok known').1)
  obtain ⟨K₁, more₁, beside, agree⟩ := query_beside finite written query beside first first'
  have assignments := assigned_reduces (selector.one (.planned first first')) assigns assigns'
  have scopes := ScopesAlike.zip (.cons agree.shape .nil) l.params
  rw [← selector.params] at inside'
  obtain ⟨K₂, more₂, -, selects, values⟩ :=
    against_fields_beside written assignments scopes beside agree.select inside inside'
  have nonempty : fields ≠ [] := by
    rintro rfl
    exact (assigned_eq_ok assigns).2.2 (assignedFields_nil (against_yields.1 inside).1)
  refine ⟨K₂, _, _, rfl, rfl, ?_, feeds_agree query .skip⟩
  exact .insertInto _ _ (selects.projected values.values) values.names nonempty

end

/-! ### Clauses -/

section

variable {m : Model} {capabilities : Capabilities} {S : Sides} {K : Ledger} {w w' v v' : Workspace}
  {mutation mutation' : Mutation} {e : Entity} {args : List (Shape → Shape → Prop)} {pairs : List (Shape × Shape)}
  (admitted : Admits args pairs)
include admitted

theorem clause_beside (written : ∀ name, S.right.known name = none) {what : String} {c c' : Option Lambda}
    (clause : Option.Rel (LambdasReduce m S args) c c')
    (shapes : List.Forall₂ (ShapesAlike m S K) (pairs.map Prod.fst) (pairs.map Prod.snd)) (beside : Beside K w w')
    {fields fields' : Option (List Projection)}
    (run : ClauseYields m mutation e what (pairs.map Prod.fst) c w fields v)
    (run' : ClauseYields m mutation' e what (pairs.map Prod.snd) c' w' fields' v') :
    ∃ K', K <+: K' ∧ Beside K' v v' ∧ Option.Rel (AssignmentsAgree S K') fields fields' := by
  cases clause with
  | none =>
    obtain ⟨-, rfl, rfl⟩ | ⟨_, _, _, ⟨⟩, -⟩ := run
    obtain ⟨-, rfl, rfl⟩ | ⟨_, _, _, ⟨⟩, -⟩ := run'
    exact ⟨K, List.prefix_refl _, beside, .none⟩
  | @some l l' reduces =>
    obtain ⟨⟨⟩, -⟩ | ⟨_, list, fs, ⟨⟩, rfl, assigns, inside⟩ := run
    obtain ⟨⟨⟩, -⟩ | ⟨_, list', fs', ⟨⟩, rfl, assigns', inside'⟩ := run'
    have assignments := assigned_reduces (reduces.body pairs admitted) assigns assigns'
    rw [← reduces.params] at inside'
    obtain ⟨K', more, beside, agree⟩ :=
      standaloneFields_beside written assignments (ScopesAlike.zip shapes l.params) beside inside inside'
    exact ⟨K', more, beside, .some agree⟩

theorem effectiveUpdate_reduces {what : String} {c c' : Option Lambda}
    (update : Option.Rel (LambdasReduce m S args) c c') {shapes : List Shape} {fields : Option (List Projection)}
    (run : ClauseYields m mutation e what shapes (effectiveUpdate? c) w fields v) :
    Option.Rel (LambdasReduce m S args) (effectiveUpdate? c) (effectiveUpdate? c') := by
  cases update with
  | none => exact .none
  | @some l l' reduces =>
    have body := reduces.body pairs admitted
    unfold effectiveUpdate? at run ⊢
    cases null : l.body.isNullConstant with
    | true =>
      have null' : l'.body.isNullConstant = true := by
        cases is : l.body with
        | constant u =>
          rw [is] at body null
          rw [body.of_constant]
          exact null
        | _ => simp [is, Expr.isNullConstant] at null
      simp only [Option.filter, null, null', Bool.not_true, Bool.false_eq_true, if_false]
      exact .none
    | false =>
      simp only [Option.filter, null, Bool.not_false, if_true] at run ⊢
      obtain ⟨⟨⟩, -⟩ | ⟨_, list, fs, ⟨⟩, rfl, assigns, -⟩ := run
      obtain ⟨⟨arguments, bindings, is⟩, -⟩ := assigned_eq_ok assigns
      -- an update that assigns is a constructor, and folding leaves it one
      have null' : l'.body.isNullConstant = false := by
        rw [is] at body
        obtain ⟨_, _, is'⟩ := body.of_new
        rw [is']
        rfl
      simp only [null', Bool.not_false, if_true]
      exact .some reduces

end

/-! ### Upserts and merges -/

section

variable {m : Model} {capabilities : Capabilities} {S : Sides} (finite : Finite m)
  (written : ∀ name, S.right.known name = none) {v v' : Workspace} {plan plan' : Plan}
include finite written

theorem upsertSource_beside {mutation mutation' : Mutation} {q q' : Option Query} {l l' : Lambda}
    (source : Option.Rel (QueriesReduce m S) q q') (insert : LambdasReduce m S (sourceElements m q q') l l')
    {e : Entity} {list list' : List Assignment} (assigns : assigned m mutation e "insert" l = .ok list)
    (assigns' : assigned m mutation' e "insert" l' = .ok list') {K : Ledger} {w w' : Workspace}
    (beside : Beside K w w') {select select' : Option Select} {fields fields' : List Projection}
    (run : Step.Yields (upsertSource m mutation list l q) w (select, fields) v)
    (run' : Step.Yields (upsertSource m mutation' list' l' q') w' (select', fields') v') :
    list.filterMap Assignment.directMember? = list'.filterMap Assignment.directMember? ∧
      ∃ K', K <+: K' ∧ Beside K' v v' ∧ UnionsAgree S K' select select' ∧ AssignmentsAgree S K' fields fields' := by
  cases source with
  | none =>
    obtain ⟨_, _, _, _, ⟨⟩, -⟩ | ⟨-, rfl, inside⟩ := upsertSource_yields run
    obtain ⟨_, _, _, _, ⟨⟩, -⟩ | ⟨-, rfl, inside'⟩ := upsertSource_yields run'
    have assignments := assigned_reduces (insert.body [] .nil) assigns assigns'
    rw [← insert.params] at inside'
    obtain ⟨K', more, beside, agree⟩ :=
      standaloneFields_beside written assignments (ScopesAlike.zip .nil l.params) beside inside inside'
    exact ⟨directMembers_same assignments, K', more, beside, .none, agree⟩
  -- the elements of the query are what the initialiser is applied to
  | some query =>
    obtain ⟨_, s, _, t, ⟨⟩, rfl, first, inside⟩ | ⟨⟨⟩, -⟩ := upsertSource_yields run
    obtain ⟨_, s', _, t', ⟨⟩, rfl, first', inside'⟩ | ⟨⟨⟩, -⟩ := upsertSource_yields run'
    obtain ⟨K₁, more₁, beside, agree⟩ := query_beside finite written query beside first first'
    have assignments := assigned_reduces (insert.one (.planned first first')) assigns assigns'
    have scopes := ScopesAlike.zip (.cons agree.shape .nil) l.params
    rw [← insert.params] at inside'
    obtain ⟨K₂, more₂, beside, selects, values⟩ :=
      against_fields_beside written assignments scopes beside agree.select inside inside'
    exact ⟨directMembers_same assignments, K₂, more₁.trans more₂, beside, .some selects.agree, values⟩

theorem upsert_beside {mutation mutation' : Mutation} {target : String} {q q' : Option Query} {l l' : Lambda}
    {u u' : Option Lambda} (source : Option.Rel (QueriesReduce m S) q q')
    (insert : LambdasReduce m S (sourceElements m q q') l l')
    (update : Option.Rel (LambdasReduce m S [TargetRow target, IncomingRow target]) u u') {K : Ledger}
    {w w' : Workspace} (beside : Beside K w w') (run : Step.Yields (upsert m mutation target q l u) w plan v)
    (run' : Step.Yields (upsert m mutation' target q' l' u') w' plan' v') : ∃ K', PlansAgree S K' plan plan' := by
  obtain ⟨e, table, _, list, key, select, fields, _, updated, columns, known, new, assigns, usable, inserts, conflict,
    keys, rfl⟩ := upsert_yields run
  obtain ⟨e', table', _, list', key', select', fields', _, updated', columns', known', new', assigns', usable', inserts',
    conflict', keys', rfl⟩ := upsert_yields run'
  obtain ⟨entity, -⟩ := targetEntity_eq_ok known
  obtain rfl := Option.some.inj (entity.symm.trans (targetEntity_eq_ok known').1)
  obtain rfl := name_of_entity? entity
  obtain rfl := beside.newTable new new'
  obtain ⟨fresh, -, rfl⟩ := newTable_yields new
  obtain ⟨-, -, rfl⟩ := newTable_yields new'
  have entered := beside.lookup_new fresh .same
  have after := beside.labelled table.label .same
  obtain ⟨members, K₁, more₁, beside, selects, values⟩ :=
    upsertSource_beside finite written source insert assigns assigns' after inserts inserts'
  -- both initialisers assign the same members, so the same key is inferred
  rw [members, usable'] at usable
  obtain rfl := Option.some.inj usable
  obtain rfl := Except.ok.inj (keys.symm.trans keys')
  have entered := Ledger.lookup_of_prefix more₁ entered
  have names : fields.map Projection.name = fields'.map Projection.name := values.names
  let row := Shape.entity { entity := e.name, label := table.label }
  let incoming := Shape.excluded e.name (fields.map Projection.name)
  rw [← names] at conflict'
  have admitted : Admits [TargetRow e.name, IncomingRow e.name] [(row, row), (incoming, incoming)] :=
    .cons ⟨_, rfl, rfl⟩ (.cons ⟨_, rfl, rfl⟩ .nil)
  have shapes : List.Forall₂ (ShapesAlike m S K₁) [row, incoming] [row, incoming] :=
    .cons (targetRow_alike entered) (.cons (incomingRow_alike _ _) .nil)
  have update := effectiveUpdate_reduces admitted update (conflictFields_yields conflict)
  obtain ⟨K₂, more₂, -, agree⟩ := clause_beside admitted written update shapes beside (conflictFields_yields conflict)
    (conflictFields_yields conflict')
  refine ⟨K₂, _, _, rfl, rfl, ?_, ?_⟩
  · exact .upsert (Ledger.lookup_of_prefix more₂ entered) (selects.later more₂) (values.later more₂) agree _ _
  · cases source with
    | none => exact .nil
    | some query => exact feeds_agree query .skip

theorem merge_beside {mutation mutation' : Mutation} {target : String} {q q' : Query} {k k' l l' : Lambda}
    {u u' i i' : Option Lambda} (source : QueriesReduce m S q q')
    (targetKey : LambdasReduce m S [TargetRow target] k k') (sourceKey : LambdasReduce m S [Elements m q q'] l l')
    (update : Option.Rel (LambdasReduce m S [TargetRow target, Elements m q q']) u u')
    (insert : Option.Rel (LambdasReduce m S [Elements m q q']) i i') {delete : Bool} {K : Ledger} {w w' : Workspace}
    (beside : Beside K w w') (run : Step.Yields (merge m capabilities mutation target q k l u i delete) w plan v)
    (run' : Step.Yields (merge m capabilities mutation' target q' k' l' u' i' delete) w' plan' v') :
    ∃ K', PlansAgree S K' plan plan' := by
  obtain ⟨e, table, _, s, _, rows, shape, _, a, _, b, _, on, matched, _, inserted, known, new, first, sourced, reading,
    alone, equality, updates, inserts, rfl⟩ := merge_yields run
  obtain ⟨e', table', _, s', _, rows', shape', _, a', _, b', _, on', matched', _, inserted', known', new', first',
    sourced', reading', alone', equality', updates', inserts', rfl⟩ := merge_yields run'
  obtain ⟨entity, -⟩ := targetEntity_eq_ok known
  obtain rfl := Option.some.inj (entity.symm.trans (targetEntity_eq_ok known').1)
  obtain rfl := name_of_entity? entity
  obtain rfl := beside.newTable new new'
  obtain ⟨fresh, -, rfl⟩ := newTable_yields new
  obtain ⟨-, -, rfl⟩ := newTable_yields new'
  -- the label of the target is entered once, and found again in every later ledger
  have entered := beside.lookup_new fresh .same
  obtain ⟨K₁, more₁, beside, inputs⟩ :=
    query_beside finite written source (beside.labelled table.label .same) first first'
  have elements := Elements.asSource first first' inputs.select.isBare sourced sourced'
  obtain ⟨K₂, more₂, beside, sources, shapes⟩ := asSource_beside finite beside inputs sourced sourced'
  have entered := Ledger.lookup_of_prefix (more₁.trans more₂) entered
  let row := Shape.entity { entity := e.name, label := table.label }
  have own : TargetRow e.name row row := ⟨_, rfl, rfl⟩
  have same {K : Ledger} (entered : K.lookup table.label = some .same) : ShapesAlike m S K row row :=
    targetRow_alike entered
  obtain ⟨K₃, more₃, beside, left⟩ :=
    standaloneKey_beside written targetKey own (same entered) beside reading reading'
  obtain ⟨K₄, more₄, beside, right⟩ :=
    standaloneKey_beside written sourceKey elements (shapes.later more₃) beside alone alone'
  have condition := Shape.equality_agree (left.later more₄) right equality equality'
  have entered := Ledger.lookup_of_prefix (more₃.trans more₄) entered
  have shapes := shapes.later (more₃.trans more₄)
  have admitted : Admits [TargetRow e.name, Elements m q q'] [(row, row), (shape, shape')] :=
    .cons own (.cons elements .nil)
  have update := effectiveUpdate_reduces admitted update (clauseFields_yields updates)
  obtain ⟨K₅, more₅, beside, changes⟩ := clause_beside admitted written update
    (.cons (same entered) (.cons shapes .nil)) beside (clauseFields_yields updates) (clauseFields_yields updates')
  have admitted : Admits [Elements m q q'] [(shape, shape')] := .cons elements .nil
  obtain ⟨K₆, more₆, -, insertions⟩ := clause_beside admitted written insert (.cons (shapes.later more₅) .nil) beside
    (clauseFields_yields inserts) (clauseFields_yields inserts')
  have more := more₅.trans more₆
  refine ⟨K₆, _, _, rfl, rfl, ?_, feeds_agree source _⟩
  exact .merge (Ledger.lookup_of_prefix more entered) (sources.later (more₃.trans (more₄.trans more)))
    (.of_scalars (.some (condition.later more))) (AssignmentsAgree.laterOption more₆ changes) insertions delete

/-- Mutations of which one reduces to the other are planned in step, as plans that write the same. -/
theorem mutation_beside {mutation mutation' : Mutation} (h : MutationsReduce m S mutation mutation')
    (run : Step.Yields (mutationPlan m capabilities mutation) {} plan v)
    (run' : Step.Yields (mutationPlan m capabilities mutation') {} plan' v') : ∃ K, PlansAgree S K plan plan' := by
  have start : Beside [] {} {} := ⟨rfl, rfl, rfl, nofun⟩
  cases h with
  | delete query =>
    obtain ⟨s, table, e, first, root, rfl⟩ := delete_yields run
    obtain ⟨s', table', e', first', root', rfl⟩ := delete_yields run'
    obtain ⟨K, -, -, agree⟩ := query_beside finite written query start first first'
    obtain ⟨rfl, -, known⟩ := rootTable_beside agree root root'
    exact ⟨K, _, _, rfl, rfl, .delete known (.of_scalars agree.select.predicate) agree.select.joins, .nil⟩
  | update query set => exact update_beside finite written query set start run run'
  | updateJoin outer inner outerKey innerKey set condition =>
    exact updateJoin_beside finite written outer inner outerKey innerKey set condition start run run'
  | insertInto query => exact insertInto_beside finite written query start run run'
  | upsert target source insert update => exact upsert_beside finite written source insert update start run run'
  | merge target source targetKey sourceKey update insert delete =>
    exact merge_beside finite written source targetKey sourceKey update insert start run run'

end

/-! ## Runs -/

section

variable {S : Sides} {K : Ledger}

theorem FeedsAgree.emptyStatement {fs fs' : List Feed} (h : List.Forall₂ (FeedsAgree S) fs fs')
    {empty empty' : Option Statement} (run : emptyStatement? S.left fs = .ok empty)
    (run' : emptyStatement? S.right fs' = .ok empty') : empty = empty' := by
  induction h with
  | nil => exact Except.ok.inj (run.symm.trans run')
  | @cons f f' _ _ first _ ih =>
    obtain ⟨rows, held, run⟩ := bind_eq_ok.1 run
    obtain ⟨rows', held', run'⟩ := bind_eq_ok.1 run'
    obtain rfl := first.rows rows rows' held held'
    cases none : rows.isEmpty with
    | true =>
      rw [none] at run run'
      obtain rfl := pure_eq_ok.1 run
      obtain rfl := pure_eq_ok.1 run'
      rw [first.whenEmpty]
    | false =>
      rw [none] at run run'
      exact ih run run'

theorem fallback_agree {ps : Parameters} {feeds : List Feed} {s : Statement}
    (h : emptyStatement? ps feeds = .ok (some s)) : StatementsAgree S K s s := by
  obtain ⟨feed, -, -, rfl⟩ := emptyStatement?_eq_some h
  cases feed.whenEmpty with
  | skip => exact .noop
  | truncate table => exact .truncate table

/-- Plans that write the same are bound to statements that agree. -/
theorem PlansAgree.bind {plan plan' : Plan} (h : PlansAgree S K plan plan') {b b' : Block}
    (bound : Plan.bind { plan with root := plan.root.prune } S.left = .ok b)
    (bound' : Plan.bind { plan' with root := plan'.root.prune } S.right = .ok b') :
    ∃ s s', b = .affected s ∧ b' = .affected s' ∧ StatementsAgree S K s s' := by
  obtain ⟨s, s', root, root', agree, feeds⟩ := h
  obtain ⟨empty, found, bound⟩ := bind_eq_ok.1 bound
  obtain ⟨empty', found', bound'⟩ := bind_eq_ok.1 bound'
  dsimp only at found found' bound bound'
  obtain rfl := FeedsAgree.emptyStatement feeds found found'
  cases empty with
  | some t =>
    obtain rfl := pure_eq_ok.1 bound
    obtain rfl := pure_eq_ok.1 bound'
    exact ⟨t, t, rfl, rfl, fallback_agree found'⟩
  | none =>
    rw [root] at bound
    rw [root'] at bound'
    obtain ⟨t, inside, bound⟩ := bind_eq_ok.1 bound
    obtain ⟨t', inside', bound'⟩ := bind_eq_ok.1 bound'
    exact ⟨t, t', (pure_eq_ok.1 bound).symm, (pure_eq_ok.1 bound').symm, agree.prune.bind inside inside'⟩

/-- Plans that write the same report the same and leave the same database. -/
theorem PlansAgree.run {plan plan' : Plan} (h : PlansAgree S K plan plan') {b b' : Block}
    (bound : Plan.bind { plan with root := plan.root.prune } S.left = .ok b)
    (bound' : Plan.bind { plan' with root := plan'.root.prune } S.right = .ok b') {db after after' : Database}
    {outcome outcome' : Outcome} (run : Execution.run db b S.left = (.ok outcome, after))
    (run' : Execution.run db b' S.right = (.ok outcome', after')) : outcome = outcome' ∧ after = after' := by
  obtain ⟨s, s', rfl, rfl, agree⟩ := h.bind bound bound'
  obtain ⟨n, written, rfl⟩ := run_affected_eq_ok.1 run
  obtain ⟨n', written', rfl⟩ := run_affected_eq_ok.1 run'
  obtain ⟨rfl, same⟩ := agree.run written written'
  exact ⟨rfl, same⟩

end

end Setwise.Planning
