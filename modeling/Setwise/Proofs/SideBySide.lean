import Setwise.Proofs.AgreeingSelects
import Setwise.Proofs.Counterparts

/-!
Expressions and their reducts, planned in step.

The first side holds the values of runtime parameters, the second side has them written out. Where the reduct gives up
no branch that joins anything, both sides hand out the same labels, remember the same navigations and join the same
tables (`expr_together`), so that what they are planned as shows the same in all frames that show the same rows
(`expr_beside`).
-/

set_option autoImplicit false

namespace Setwise

/-- The single value that a parameter holds, if it holds one. -/
def Parameters.known (ps : Parameters) (name : String) : Option Value :=
  (ps.scalar name).toOption

namespace Planning

open Client Relational Execution

/-! ## Shapes that agree -/

section

variable (m : Model) (S : Sides) (K : Ledger)

def ShapesAlike (s t : Shape) : Prop :=
  ∀ incoming f g, FrameAlike K f g →
    s.Alike m ⟨⟨S.left, incoming⟩, f⟩ ⟨⟨S.right, incoming⟩, g⟩ Eq t

def ScopesAlike (scope scope' : Scope) : Prop :=
  ShapesAlike m S K (.record scope) (.record scope')

end

section

variable {m : Model} {S : Sides} {K K' : Ledger}

theorem ShapesAlike.later (more : K <+: K') {s t : Shape} (h : ShapesAlike m S K s t) : ShapesAlike m S K' s t :=
  fun incoming f g alike => h incoming f g (alike.earlier more)

theorem ShapesAlike.scalar {a : Scalar} {t : Shape} (h : ShapesAlike m S K (.scalar a) t) :
    ∃ b, t = .scalar b ∧ ScalarsAgree S K a b := by
  cases t with
  | scalar b => exact ⟨b, rfl, h⟩
  | _ => cases h none [] [] .nil

theorem ShapesAlike.entity {r : EntityView} {t : Shape} (h : ShapesAlike m S K (.entity r) t) :
    ∃ r', t = .entity r' ∧ r.entity = r'.entity ∧ r.label = r'.label ∧
      ∀ c, m.Readable r.entity c → ScalarsAgree S K (r.column c) (r'.column c) := by
  cases t with
  | entity r' =>
    obtain ⟨type, label, -⟩ := h none [] [] .nil
    exact ⟨r', rfl, type, label, fun c read incoming f g alike => (h incoming f g alike).2.2 c read⟩
  | _ => cases h none [] [] .nil

theorem ShapesAlike.nil {t : Shape} (h : ShapesAlike m S K (.record []) t) : t = .record [] := by
  cases t with
  | record fields =>
    cases fields with
    | nil => rfl
    | cons p fields => cases h none [] [] .nil
  | _ => cases h none [] [] .nil

theorem ShapesAlike.cons {name : String} {s t : Shape} {fields : List (String × Shape)}
    (h : ShapesAlike m S K (.record ((name, s) :: fields)) t) :
    ∃ s' others, t = .record ((name, s') :: others) ∧ ShapesAlike m S K s s' ∧
      ShapesAlike m S K (.record fields) (.record others) := by
  cases t with
  | record gs =>
    cases gs with
    | nil => cases h none [] [] .nil
    | cons q others =>
      obtain ⟨name', s'⟩ := q
      obtain rfl : name = name' := (h none [] [] .nil).1.1
      exact ⟨s', others, rfl, fun incoming f g alike => (h incoming f g alike).1.2,
        fun incoming f g alike => (h incoming f g alike).2⟩
  | _ => cases h none [] [] .nil

theorem ShapesAlike.grouping {key t : Shape} (h : ShapesAlike m S K (.grouping key) t) :
    ∃ key', t = .grouping key' ∧ ShapesAlike m S K key key' := by
  cases t with
  | grouping key' => exact ⟨key', rfl, h⟩
  | _ => cases h none [] [] .nil

end

/-! ## Workspaces in step -/

/-- Two workspaces that have handed out the same labels, which the ledger lists, and remember the same navigations. -/
structure Beside (K : Ledger) (w w' : Workspace) : Prop where
  labels : w.labels = w'.labels
  navigations : w.navigations = w'.navigations
  ledger : K.map Prod.fst = w.labels
  targets : ∀ entry ∈ w.navigations, K.lookup entry.2 = some .same

section

variable {S : Sides} {K K' : Ledger} {w w' v v' : Workspace}

theorem Beside.withJoins (beside : Beside K w w') (js js' : List (Join Select)) :
    Beside K { w with joins := js } { w' with joins := js' } :=
  ⟨beside.labels, beside.navigations, beside.ledger, beside.targets⟩

theorem Beside.labelled (beside : Beside K w w') (label : String) (n : Naming) :
    Beside (K ++ [(label, n)]) { w with labels := w.labels ++ [label] } { w' with labels := w'.labels ++ [label] } where
  labels := by rw [beside.labels]
  navigations := beside.navigations
  ledger := by simp [beside.ledger]
  targets := fun entry member => Ledger.lookup_of_prefix (List.prefix_append _ _) (beside.targets entry member)

theorem Beside.lookup_new (beside : Beside K w w') {label : String} (new : label ∉ w.labels) (n : Naming) :
    (K ++ [(label, n)]).lookup label = some n :=
  Ledger.lookup_new (beside.ledger ▸ new) n

theorem Beside.newLabel (beside : Beside K w w') {base label label' : String}
    (run : Step.Yields (newLabel base) w label v) (run' : Step.Yields (Planning.newLabel base) w' label' v') :
    label = label' := by
  simp only [Planning.newLabel, Step.yields_bind, Step.yields_get, Step.yields_set, Step.yields_pure] at run run'
  obtain ⟨_, _, ⟨rfl, rfl⟩, _, _, -, rfl, -⟩ := run
  obtain ⟨_, _, ⟨rfl, rfl⟩, _, _, -, rfl, -⟩ := run'
  rw [beside.labels]

theorem Beside.newTable (beside : Beside K w w') {e : Entity} {t t' : StoredTable}
    (run : Step.Yields (newTable e) w t v) (run' : Step.Yields (Planning.newTable e) w' t' v') : t = t' := by
  simp only [Planning.newTable, Step.yields_bind, Step.yields_pure] at run run'
  obtain ⟨label, _, new, rfl, -⟩ := run
  obtain ⟨label', _, new', rfl, -⟩ := run'
  rw [beside.newLabel new new']

end

/-! ## Conditions -/

section

variable {S : Sides} {K K' : Ledger}

theorem referenceCondition_agree {m : Model} {owner target : Entity} {r r' : EntityView} {label : String}
    (known : m.entity? r.entity = some owner)
    (columns : ∀ c, m.Readable r.entity c → ScalarsAgree S K (r.column c) (r'.column c))
    (entered : K.lookup label = some .same)
    {pairs : List (String × String)} {before before' on on' : Option Scalar}
    (agree : Option.Rel (ScalarsAgree S K) before before')
    (h : referenceCondition owner target r label pairs before = .ok on)
    (h' : referenceCondition owner target r' label pairs before' = .ok on') : Option.Rel (ScalarsAgree S K) on on' := by
  induction pairs generalizing before before' with
  | nil =>
    obtain rfl := Except.ok.inj h
    obtain rfl := Except.ok.inj h'
    exact agree
  | cons pair rest ih =>
    obtain ⟨foreign, principal⟩ := pair
    obtain ⟨p, found, h⟩ := bind_eq_ok.1 h
    obtain ⟨q, found', h⟩ := bind_eq_ok.1 h
    obtain ⟨p', same, h'⟩ := bind_eq_ok.1 h'
    obtain ⟨q', same', h'⟩ := bind_eq_ok.1 h'
    obtain rfl := Except.ok.inj (found.symm.trans same)
    obtain rfl := Except.ok.inj (found'.symm.trans same')
    have read := columns _ (.listed (mem_columnsOf known (property_eq_ok.1 found)))
    refine ih (.some (.both agree (read.binary .equal ?_))) h h'
    exact fun incoming f g alike => valueOf_column_same entered alike _

end

/-! ## References -/

section

variable {m : Model} {S : Sides} {K : Ledger} {w w' v v' : Workspace}

def InStep (S : Sides) (K : Ledger) (v v' : Workspace) : Prop :=
  ∃ K', K <+: K' ∧ Beside K' v v' ∧ JoinsAgree S K' v.joins v'.joins

theorem InStep.of_eq (beside : Beside K w w') (joins : JoinsAgree S K w.joins w'.joins) (same : w = v) (same' : w' = v') :
    InStep S K v v' := by
  subst same same'
  exact ⟨K, List.prefix_refl _, beside, joins⟩

theorem InStep.trans {K' : Ledger} (more : K <+: K') (h : InStep S K' v v') : InStep S K v v' := by
  obtain ⟨K'', later, rest⟩ := h
  exact ⟨K'', more.trans later, rest⟩

theorem follow_together {owner : Entity} {r r' : EntityView} {n : Navigation} {foreignKey principalKey : List String}
    {required : Bool} {t t' : Shape} (beside : Beside K w w') (joins : JoinsAgree S K w.joins w'.joins)
    (known : m.entity? r.entity = some owner) (label : r.label = r'.label)
    (columns : ∀ c, m.Readable r.entity c → ScalarsAgree S K (r.column c) (r'.column c))
    (run : Step.Yields (follow m owner r n foreignKey principalKey required) w t v)
    (run' : Step.Yields (follow m owner r' n foreignKey principalKey required) w' t' v') : InStep S K v v' := by
  simp only [follow, Step.yields_bind, Step.yields_get] at run run'
  obtain ⟨_, _, ⟨rfl, rfl⟩, run⟩ := run
  obtain ⟨_, _, ⟨rfl, rfl⟩, run'⟩ := run'
  rw [← beside.navigations, ← label] at run'
  -- both runs have remembered the same navigations, so both find the join or both add it
  split at run
  next k found =>
    rw [found] at run'
    exact .of_eq beside joins (Step.yields_pure.1 run).2 (Step.yields_pure.1 run').2
  next missing =>
    rw [missing] at run'
    simp only [Step.yields_bind, Step.yields_lookUp, Step.yields_ofResult, Step.yields_modify,
      Step.yields_pure] at run run'
    obtain ⟨target, _, ⟨leads, rfl⟩, table, _, new, on, _, ⟨condition, rfl⟩, _, _, rfl, -, rfl⟩ := run
    obtain ⟨target', _, ⟨leads', rfl⟩, table', _, new', on', _, ⟨condition', rfl⟩, _, _, rfl, -, rfl⟩ := run'
    obtain rfl := Except.ok.inj (leads.symm.trans leads')
    obtain rfl := beside.newTable new new'
    obtain ⟨fresh, -, rfl⟩ := newTable_yields new
    obtain ⟨-, -, rfl⟩ := newTable_yields new'
    have more : K <+: K ++ [(table.label, Naming.same)] := List.prefix_append _ _
    have entered := beside.lookup_new fresh .same
    have after := beside.labelled table.label .same
    refine ⟨_, more, ⟨after.labels, ?_, after.ledger, ?_⟩, (joins.later more).append ?_⟩
    · rw [beside.navigations, label]
    · exact List.forall_mem_cons.2 ⟨entered, after.targets⟩
    · have same := referenceCondition_agree known (fun c read => (columns c read).later more) entered .none condition condition'
      exact .cons rfl (.table _ entered) (.of_scalars same) .nil

theorem readMember_together {s s' t t' : Shape} {name : String} {whole whole' : Expr} (beside : Beside K w w')
    (joins : JoinsAgree S K w.joins w'.joins) (alike : ShapesAlike m S K s s')
    (run : Step.Yields (readMember m s name whole) w t v) (run' : Step.Yields (readMember m s' name whole') w' t' v') :
    InStep S K v v' := by
  obtain ⟨member, same⟩ | ⟨r, owner, n, foreignKey, principalKey, required, reference, follows⟩ := readMember_yields run
  · obtain ⟨member', same'⟩ | ⟨r', owner', n', foreignKey', principalKey', required', reference', -⟩ :=
      readMember_yields run'
    · exact .of_eq beside joins same same'
    · obtain rfl := reference'.shape
      cases s with
      | entity r =>
        obtain ⟨_, ⟨⟩, type, -⟩ := alike.entity
        simp [reference'.not_static type] at member
      | _ => cases alike none [] [] .nil
  · obtain rfl := reference.shape
    -- both owners have one type, so both runs follow the same navigation
    obtain ⟨r', rfl, type, label, columns⟩ := alike.entity
    obtain ⟨member', -⟩ | ⟨r'', owner', n', foreignKey', principalKey', required', reference', follows'⟩ :=
      readMember_yields run'
    · simp [reference.not_static type.symm] at member'
    · obtain ⟨⟨⟩, known, missing, navigation, kind⟩ := reference
      obtain ⟨⟨⟩, known', missing', navigation', kind'⟩ := reference'
      rw [← type, known] at known'
      obtain rfl := Option.some.inj known'
      obtain rfl := Option.some.inj (navigation.symm.trans navigation')
      obtain ⟨rfl, rfl, rfl⟩ := NavigationKind.reference.inj (kind.symm.trans kind')
      exact follow_together beside joins known label columns follows follows'

end

/-! ## Expressions -/

/-- Runtime parameters are replaced by their values. Only branches that join nothing and need no label are given up. -/
def filling (m : Model) (known : String → Option Value) (scope scope' : Scope) : Reduction where
  null := plannedAsNull scope
  nullReduct := plannedAsNull scope'
  truth := fun e => ∀ p : Place, p.scope = scope' → p.HasTruth m e
  known := known
  idle := fun e => ∀ w t v, Step.Yields (expr m scope e) w t v → v = w

section

variable {m : Model} {S : Sides} {K : Ledger} {w w' v v' : Workspace} {scope scope' : Scope}

theorem Beside.counterparts (beside : Beside K v v') (written : ∀ name, S.right.known name = none)
    (scopes : ScopesAlike m S K scope scope') (incoming : Option (List String × Row)) {f g : Frame}
    (alike : FrameAlike K f g) :
    Counterparts m (filling m S.left.known scope scope') Eq ⟨⟨⟨S.left, incoming⟩, f⟩, scope, v⟩
      ⟨⟨⟨S.right, incoming⟩, g⟩, scope', v'⟩ where
  null := rfl
  nullReduct := rfl
  truths := fun e truth => truth _ rfl
  parameters := fun name => by
    have value (ps : Parameters) (f : Frame) : valueOf ⟨ps, incoming⟩ f (.parameter name) = ps.known name :=
      toOption_mapError _ _
    change valueOf _ f _ = (S.left.known name).or (valueOf _ g _)
    rw [value, value, written, Option.or_none]
  followed := by
    rintro l _ name k k' rfl found found'
    have same : v.navigations.lookup (l, name) = v'.navigations.lookup (l, name) := by rw [beside.navigations]
    obtain rfl : k = k' := Option.some.inj (found.symm.trans (same.trans found'))
    obtain ⟨before, behind, split, -⟩ := List.lookup_eq_some_iff.1 found
    have member : ((l, name), k) ∈ v.navigations := split ▸ List.mem_append_right _ List.mem_cons_self
    have entered := beside.targets _ member
    exact ⟨rfl, fun c => valueOf_column_same entered alike c⟩
  scopes := scopes incoming f g alike

theorem expr_shapesAlike {e e' : Expr} {t t' : Shape} (written : ∀ name, S.right.known name = none)
    (reduces : Reduces (filling m S.left.known scope scope') e e') (scopes : ScopesAlike m S K scope scope')
    (beside : Beside K v v') (run : Step.Yields (expr m scope e) w t v)
    (run' : Step.Yields (expr m scope' e') w' t' v') : ShapesAlike m S K t t' :=
  fun incoming _ _ alike =>
    (expr_alike (beside.counterparts written scopes incoming alike) reduces).1 ⟨w, v, run, .refl v⟩ ⟨w', v', run', .refl v'⟩

variable (m S scope scope') in
def Together (e e' : Expr) : Prop :=
  ∀ ⦃K w w' v v' t t'⦄, ScopesAlike m S K scope scope' → Beside K w w' → JoinsAgree S K w.joins w'.joins →
    Step.Yields (expr m scope e) w t v → Step.Yields (expr m scope' e') w' t' v' → InStep S K v v'

theorem InStep.next {K : Ledger} {u u' x x' : Workspace} {e e' : Expr} {t t' : Shape} (h : InStep S K u u')
    (scopes : ScopesAlike m S K scope scope') (together : Together m S scope scope' e e')
    (run : Step.Yields (expr m scope e) u t x) (run' : Step.Yields (expr m scope' e') u' t' x') : InStep S K x x' := by
  obtain ⟨K', more, beside, joins⟩ := h
  exact (together (ShapesAlike.later more scopes) beside joins run run').trans more

theorem Together.constant {e : Expr} {a : Value} {K : Ledger} {w w' v : Workspace} {t : Shape}
    (together : Together m S scope scope' e (.constant a)) (scopes : ScopesAlike m S K scope scope')
    (beside : Beside K w w') (joins : JoinsAgree S K w.joins w'.joins) (run : Step.Yields (expr m scope e) w t v) :
    InStep S K v w' :=
  together scopes beside joins run (Step.yields_pure.2 ⟨rfl, rfl⟩)

theorem foldNot_together {e e' : Expr} (together : Together m S scope scope' e e')
    (negated : ∀ inner, e' = .not inner → Together m S scope scope' e inner) :
    Together m S scope scope' (.not e) (Expr.foldNot e') := by
  intro K w w' v v' t t' scopes beside joins run run'
  obtain ⟨c, first, -⟩ := not_yields.1 run
  unfold Expr.foldNot at run'
  split at run'
  next =>
    obtain ⟨-, rfl⟩ := Step.yields_pure.1 run'
    exact together.constant scopes beside joins first
  next =>
    obtain ⟨-, rfl⟩ := Step.yields_pure.1 run'
    exact together.constant scopes beside joins first
  next inner => exact negated inner rfl scopes beside joins first run'
  next =>
    obtain ⟨c', first', -⟩ := not_yields.1 run'
    exact together scopes beside joins first first'

theorem decided_together {test a b e : Expr} {r : Value} (tested : Together m S scope scope' test (.constant r))
    (branch : Together m S scope scope' (if r.isTrue then a else b) e)
    (other : (filling m S.left.known scope scope').idle (if r.isTrue then b else a)) :
    Together m S scope scope' (.conditional test a b) e := by
  intro K w w' v v' t t' scopes beside joins run run'
  obtain ⟨_, x, _, y, _, first, second, third, -⟩ := conditional_yields.1 run
  have start := tested.constant scopes beside joins first
  split at branch
  next chosen =>
    rw [if_pos chosen] at other
    obtain rfl := other _ _ _ third
    exact start.next scopes branch second run'
  next chosen =>
    rw [if_neg chosen] at other
    obtain rfl := other _ _ _ second
    exact start.next scopes branch third run'

mutual

/-- An expression and its reduct are planned in step. -/
theorem expr_together (written : ∀ name, S.right.known name = none) {e e' : Expr}
    (h : Reduces (filling m S.left.known scope scope') e e') :
    Together m S scope scope' e e' ∧ ∀ inner, e' = .not inner → Together m S scope scope' e inner := by
  match h with
  | .param x =>
    refine ⟨fun K w w' v v' t t' scopes beside joins run run' => ?_, by simp⟩
    exact .of_eq beside joins (param_yields.1 run).2 (param_yields.1 run').2
  | .constant _ | .captured .. | .runtime .. | .known .. =>
    refine ⟨fun K w w' v v' t t' scopes beside joins run run' => ?_, by simp⟩
    exact .of_eq beside joins (Step.yields_pure.1 run).2 (Step.yields_pure.1 run').2
  | .member name owner =>
    refine ⟨fun K w w' v v' t t' scopes beside joins run run' => ?_, by simp⟩
    obtain ⟨s, u, first, run⟩ := member_yields.1 run
    obtain ⟨s', u', first', run'⟩ := member_yields.1 run'
    obtain ⟨K', more, beside', joins'⟩ := (expr_together written owner).1 scopes beside joins first first'
    -- the owner has one shape on both sides, so the same navigation is followed or none is
    have alike := expr_shapesAlike written owner (ShapesAlike.later more scopes) beside' first first'
    exact (readMember_together beside' joins' alike run run').trans more
  | .value left right _ _ =>
    refine ⟨fun K w w' v v' t t' scopes beside joins run run' => ?_, by simp⟩
    obtain ⟨_, _, _, _, first, second, -, -⟩ := binary_yields.1 run
    -- the right side has been folded to a constant, and plans nothing
    obtain ⟨-, rfl⟩ := constant_yields.1 run'
    obtain ⟨K', more, beside', joins'⟩ := (expr_together written left).1.constant scopes beside joins first
    exact ((expr_together written right).1.constant (ShapesAlike.later more scopes) beside' joins' second).trans more
  | .binary left right _ =>
    refine ⟨fun K w w' v v' t t' scopes beside joins run run' => ?_, by simp⟩
    obtain ⟨_, _, _, _, first, second, -, -⟩ := binary_yields.1 run
    obtain ⟨_, _, _, _, first', second', -, -⟩ := binary_yields.1 run'
    exact ((expr_together written left).1 scopes beside joins first first').next scopes
      (expr_together written right).1 second second'
  | .not operand normal dropped =>
    obtain ⟨together, negated⟩ := expr_together written operand
    refine ⟨?_, fun inner is => ?_⟩
    · exact foldNot_together together negated
    -- what is negated in the folded expression is what was planned on its own
    · obtain rfl := foldNot_negation normal is
      intro K w w' v v' t t' scopes beside joins run run'
      obtain ⟨c, first, -⟩ := not_yields.1 run
      exact together scopes beside joins first run'
  | .decided tested branch other =>
    have test := (expr_together written tested).1
    obtain ⟨together, negated⟩ := expr_together written branch
    exact ⟨decided_together test together other, fun inner is => decided_together test (negated inner is) other⟩
  | .conditional tested left right =>
    refine ⟨fun K w w' v v' t t' scopes beside joins run run' => ?_, by simp⟩
    obtain ⟨_, _, _, _, _, first, second, third, -⟩ := conditional_yields.1 run
    obtain ⟨_, _, _, _, _, first', second', third', -⟩ := conditional_yields.1 run'
    exact (((expr_together written tested).1 scopes beside joins first first').next scopes
      (expr_together written left).1 second second').next scopes (expr_together written right).1 third third'
  | .new _ bindings =>
    refine ⟨fun K w w' v v' t t' scopes beside joins run run' => ?_, by simp⟩
    obtain ⟨-, fs, fields, -⟩ := new_yields.1 run
    obtain ⟨-, fs', fields', -⟩ := new_yields.1 run'
    exact fieldList_together written bindings scopes beside joins fields fields'

theorem fieldList_together (written : ∀ name, S.right.known name = none) {bs bs' : List (Binding Expr)}
    (h : BindingsReduce (filling m S.left.known scope scope') bs bs') {K : Ledger} {w w' v v' : Workspace}
    {whole whole' : Expr} {fs fs' : List (String × Shape)} (scopes : ScopesAlike m S K scope scope')
    (beside : Beside K w w') (joins : JoinsAgree S K w.joins w'.joins)
    (run : Step.Yields (fieldList m scope whole bs) w fs v)
    (run' : Step.Yields (fieldList m scope' whole' bs') w' fs' v') : InStep S K v v' := by
  match h with
  | .nil => exact .of_eq beside joins (noFields_yields.1 run).2 (noFields_yields.1 run').2
  | .assign value rest =>
    obtain ⟨_, _, _, here, later, -⟩ := assign_yields.1 run
    obtain ⟨_, _, _, here', later', -⟩ := assign_yields.1 run'
    obtain ⟨K', more, beside', joins'⟩ := (expr_together written value).1 scopes beside joins here here'
    exact (fieldList_together written rest (ShapesAlike.later more scopes) beside' joins' later later').trans more
  | .items rest => exact absurd run not_items_yields

end

/-- An expression and its reduct, planned in step, show the same. -/
theorem expr_beside {e e' : Expr} {t t' : Shape} (written : ∀ name, S.right.known name = none)
    (reduces : Reduces (filling m S.left.known scope scope') e e') (scopes : ScopesAlike m S K scope scope')
    (beside : Beside K w w') (joins : JoinsAgree S K w.joins w'.joins) (run : Step.Yields (expr m scope e) w t v)
    (run' : Step.Yields (expr m scope' e') w' t' v') :
    ∃ K', K <+: K' ∧ Beside K' v v' ∧ JoinsAgree S K' v.joins v'.joins ∧ ShapesAlike m S K' t t' := by
  obtain ⟨K', more, after, joined⟩ := (expr_together written reduces).1 scopes beside joins run run'
  exact ⟨K', more, after, joined, expr_shapesAlike written reduces (ShapesAlike.later more scopes) after run run'⟩

end

end Planning

end Setwise
