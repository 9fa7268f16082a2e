import Mathlib.Logic.Equiv.Basic
import Setwise.Proofs.QueryScoping
import Setwise.Proofs.RelabelledShapes

/-!
Expressions planned from different workspaces.

Planning hands out the labels that are not in use, in order. The labels that two runs have handed out are matched by a
permutation (`exists_renames`), and what both plan for an expression differs by these labels alone (`expr_relabel`).
-/

set_option autoImplicit false

namespace Setwise.Planning

open Client Relational Execution

/-! ## More labels -/

/-- The labels in use are those from before and new ones behind them. -/
structure Workspace.Extends (w v : Workspace) : Prop where
  more : w.labels <+: v.labels
  distinct : w.labels.Nodup → v.labels.Nodup

section

variable {m : Model} {u v w : Workspace}

theorem Workspace.Extends.refl (w : Workspace) : Workspace.Extends w w :=
  ⟨List.prefix_refl _, id⟩

theorem Workspace.Extends.trans (first : Workspace.Extends u v) (second : Workspace.Extends v w) : Workspace.Extends u w :=
  ⟨first.more.trans second.more, fun h => second.distinct (first.distinct h)⟩

theorem Workspace.Extends.snoc {label : String} (fresh : label ∉ w.labels) (labels : v.labels = w.labels ++ [label]) :
    Workspace.Extends w v where
  more := labels ▸ List.prefix_append _ _
  distinct := fun h => by
    rw [labels]
    exact List.nodup_append.2 ⟨h, List.pairwise_singleton _ _, fun a old b new same =>
      fresh (List.mem_singleton.1 new ▸ same ▸ old)⟩

theorem newLabel_extends {base label : String} (h : Step.Yields (newLabel base) w label v) : Workspace.Extends w v := by
  obtain ⟨fresh, rfl⟩ := newLabel_yields h
  exact .snoc fresh rfl

theorem Workspace.Extends.onward (m : Model) : Onward m Workspace.Extends where
  refl := .refl
  trans := .trans
  follow := fun run => by
    obtain ⟨label, -, ⟨-, rfl⟩ | ⟨fresh, _, _, -, -, rfl⟩⟩ := follow_yields run
    · exact .refl _
    · exact .snoc fresh rfl

theorem expr_extends {scope : Scope} {e : Expr} {t : Shape} (h : Step.Yields (expr m scope e) w t v) :
    Workspace.Extends w v :=
  (Workspace.Extends.onward m).expr h

theorem against_extends {scope : Scope} {e : Expr} {s select : Select} {t : Shape}
    (h : Step.Yields (against s (expr m scope e)) w (t, select) v) : Workspace.Extends w v := by
  have after := expr_extends (against_yields.1 h).1
  exact ⟨after.more, after.distinct⟩

theorem against_scalar_extends {scope : Scope} {e : Expr} {s select : Select} {c : Scalar}
    (h : Step.Yields (against s (scalar m scope e)) w (c, select) v) : Workspace.Extends w v := by
  have after := expr_extends (scalar_yields.1 (against_yields.1 h).1)
  exact ⟨after.more, after.distinct⟩

theorem standalone_extends {scope : Scope} {subject : Subject} {e : Expr} {t : Shape}
    (h : Step.Yields (standalone m scope subject e) w t v) : Workspace.Extends w v := by
  have after := expr_extends (standalone_yields h).1
  exact ⟨after.more, after.distinct⟩

theorem wrapIf_extends {subject : Subject} {needed : Bool} {s p : Planned}
    (h : Step.Yields (wrapIf m subject needed s) w p v) : Workspace.Extends w v := by
  rcases wrapIf_yields h with ⟨-, wrapped⟩ | ⟨-, -, rfl⟩
  · obtain ⟨label, _, _, fresh, rfl, -⟩ := wrap_yields wrapped
    exact .snoc fresh rfl
  · exact .refl _

theorem asSource_extends {subject : Subject} {s : Planned} {source : Source} {shape : Shape}
    (h : Step.Yields (asSource m subject s) w (source, shape) v) : Workspace.Extends w v := by
  obtain ⟨p, wrapped, -⟩ := asSource_yields h
  exact wrapIf_extends wrapped

theorem unite_extends {subject : Subject} {l r p : Planned} (h : Step.Yields (unite m subject l r) w p v) :
    Workspace.Extends w v := by
  obtain ⟨label, _, _, _, fresh, rfl, -⟩ := unite_yields h
  exact .snoc fresh rfl

theorem query_extends {q : Query} {p : Planned} (h : Step.Yields (query m q) w p v) : Workspace.Extends w v := by
  induction q generalizing w v p with
  | set name =>
    obtain ⟨e, t, -, -, table, -⟩ := set_yields h
    obtain ⟨fresh, -, rfl⟩ := newTable_yields table
    exact .snoc fresh rfl
  | rows rows =>
    obtain ⟨label, added, -⟩ := rows_yields h
    exact newLabel_extends added
  | filter input predicate ih =>
    obtain ⟨_, _, _, _, _, _, first, wrapped, run, -⟩ := filter_yields h
    exact ((ih first).trans (wrapIf_extends wrapped)).trans (against_scalar_extends run)
  | map input selector ih =>
    obtain ⟨_, _, _, _, first, run, -⟩ := map_yields h
    exact (ih first).trans (against_extends run)
  | join outer inner outerKey innerKey result iho ihi =>
    obtain ⟨_, _, _, _, _, _, _, _, _, _, _, _, _, _, _, _, _, first, wrapped, second, sourced, run, alone, -,
      run', -⟩ := join_yields h
    exact ((iho first).trans (wrapIf_extends wrapped)).trans ((ihi second).trans ((asSource_extends sourced).trans
      ((against_extends run).trans ((standalone_extends alone).trans (against_extends run')))))
  | orderBy input key descending ih =>
    obtain ⟨_, _, _, _, _, _, _, first, wrapped, run, -, -⟩ := orderBy_yields h
    exact ((ih first).trans (wrapIf_extends wrapped)).trans (against_extends run)
  | take input count ih =>
    obtain ⟨_, _, _, _, _, _, first, wrapped, run, -⟩ := take_yields h
    exact ((ih first).trans (wrapIf_extends wrapped)).trans (against_scalar_extends run)
  | skip input count ih =>
    obtain ⟨_, _, _, _, _, _, first, wrapped, run, -⟩ := skip_yields h
    exact ((ih first).trans (wrapIf_extends wrapped)).trans (against_scalar_extends run)
  | groupBy input key ih =>
    obtain ⟨_, _, _, _, _, _, _, first, wrapped, run, -, -⟩ := groupBy_yields h
    exact ((ih first).trans (wrapIf_extends wrapped)).trans (against_extends run)
  | union left right ihl ihr =>
    obtain ⟨_, _, _, _, _, _, _, _, first, second, wrapped, wrapped', united⟩ := union_yields h
    exact (ihl first).trans ((ihr second).trans ((wrapIf_extends wrapped).trans
      ((wrapIf_extends wrapped').trans (unite_extends united))))

end

/-! ## Workspaces under other labels -/

/-- New labels of one run of the planner become those of another one, in the order in which they are handed out. -/
structure Renames (ρ : String → String) (base base' last last' : List String) : Prop where
  injective : ρ.Injective
  renames : ∀ own own' l l', own.length = own'.length → base ++ own ++ [l] <+: last → base' ++ own' ++ [l'] <+: last' →
    ρ l = l'

theorem exists_permutation {α : Type} [DecidableEq α] {xs ys : List α} (distinct : xs.Nodup) (distinct' : ys.Nodup) :
    ∃ ρ : Equiv.Perm α, ∀ p ∈ xs.zip ys, ρ p.1 = p.2 := by
  induction xs generalizing ys with
  | nil => exact ⟨Equiv.refl α, fun _ none => absurd none List.not_mem_nil⟩
  | cons x xs ih =>
    cases ys with
    | nil => exact ⟨Equiv.refl α, fun _ none => absurd none List.not_mem_nil⟩
    | cons y ys =>
      obtain ⟨new, distinct⟩ := List.nodup_cons.1 distinct
      obtain ⟨new', distinct'⟩ := List.nodup_cons.1 distinct'
      obtain ⟨ρ, known⟩ := ih distinct distinct'
      refine ⟨ρ.trans (Equiv.swap (ρ x) y), List.forall_mem_cons.2 ⟨Equiv.swap_apply_left _ _, fun p member => ?_⟩⟩
      obtain ⟨inside, inside'⟩ := List.of_mem_zip member
      rw [Equiv.trans_apply, known p member]
      refine Equiv.swap_apply_of_ne_of_ne (fun same => ?_) fun same => new' (same ▸ inside')
      rw [← known p member] at same
      exact new (ρ.injective same ▸ inside)

theorem exists_renames {base base' last last' : List String} (more : base <+: last) (more' : base' <+: last')
    (distinct : last.Nodup) (distinct' : last'.Nodup) : ∃ ρ, Renames ρ base base' last last' := by
  obtain ⟨news, rfl⟩ := more
  obtain ⟨news', rfl⟩ := more'
  obtain ⟨ρ, known⟩ := exists_permutation (List.nodup_append.1 distinct).2.1 (List.nodup_append.1 distinct').2.1
  refine ⟨ρ, ρ.injective, fun own own' l l' length early early' => ?_⟩
  rw [List.append_assoc, List.prefix_append_right_inj] at early early'
  obtain ⟨rest, rfl⟩ := early
  obtain ⟨rest', rfl⟩ := early'
  -- new labels with as many before them stand at the same place
  refine known (l, l') ?_
  simp [List.zip_append, length]

/-- Since the labels `base` were in use here and `base'` there, the same has been planned. The labels `own` since then
are called otherwise there. -/
structure Renamed (ρ : String → String) (base base' own : List String) (w w' : Workspace) : Prop where
  labels : w.labels = base ++ own
  labels' : w'.labels = base' ++ own.map ρ
  sound : w.Sound
  sound' : w'.Sound
  navigations : ∀ l ∈ own, ∀ name, w'.navigations.lookup (ρ l, name) = (w.navigations.lookup (l, name)).map ρ
  targets : ∀ l ∈ own, ∀ name, ∀ k ∈ w.navigations.lookup (l, name), k ∈ own

section

variable {ρ : String → String} {m : Model} {base base' last last' own : List String} {v v' w w' : Workspace}

theorem Renamed.withJoins (start : Renamed ρ base base' own w w') (js js' : List (Join Select)) :
    Renamed ρ base base' own { w with joins := js } { w' with joins := js' } :=
  ⟨start.labels, start.labels', start.sound, start.sound', start.navigations, start.targets⟩

theorem Workspace.Sound.unknown (sound : w.Sound) {label : String} (fresh : label ∉ w.labels) (name : String) :
    w.navigations.lookup (label, name) = none := by
  rw [List.lookup_eq_none_iff]
  intro entry member
  refine bne_iff_ne.2 fun same => fresh ?_
  rw [show label = entry.1.1 from congrArg Prod.fst same]
  exact (sound entry member).1

theorem Renamed.newLabel (renames : Renames ρ base base' last last') (start : Renamed ρ base base' own w w')
    {b label label' : String} (run : Step.Yields (newLabel b) w label v)
    (run' : Step.Yields (Planning.newLabel b) w' label' v') (early : v.labels <+: last) (early' : v'.labels <+: last') :
    label' = ρ label ∧ Renamed ρ base base' (own ++ [label]) v v' := by
  obtain ⟨fresh, rfl⟩ := newLabel_yields run
  obtain ⟨fresh', rfl⟩ := newLabel_yields run'
  -- both runs have handed out as many labels so far
  obtain rfl : ρ label = label' :=
    renames.renames own (own.map ρ) label label' (by simp) (start.labels ▸ early) (start.labels' ▸ early')
  refine ⟨rfl, by simp [start.labels], by simp [start.labels'], ?_, ?_, fun l member name => ?_,
    fun l member name k found => ?_⟩
  · exact fun entry member => (start.sound entry member).imp (List.mem_append_left _) (List.mem_append_left _)
  · exact fun entry member => (start.sound' entry member).imp (List.mem_append_left _) (List.mem_append_left _)
  · rcases List.mem_append.1 member with old | new
    · exact start.navigations l old name
    · obtain rfl := List.mem_singleton.1 new
      rw [start.sound.unknown fresh, start.sound'.unknown fresh', Option.map_none]
  · rcases List.mem_append.1 member with old | new
    · exact List.mem_append_left _ (start.targets l old name k found)
    · obtain rfl := List.mem_singleton.1 new
      rw [start.sound.unknown fresh] at found
      cases found

theorem Renamed.remember (injective : ρ.Injective) (start : Renamed ρ base base' own w w') {k l : String}
    (name : String) (known : k ∈ own) (inside : l ∈ own) (js js' : List (Join Select)) :
    Renamed ρ base base' own { w with navigations := ((k, name), l) :: w.navigations, joins := js }
      { w' with navigations := ((ρ k, name), ρ l) :: w'.navigations, joins := js' } where
  labels := start.labels
  labels' := start.labels'
  sound := by
    refine List.forall_mem_cons.2 ⟨?_, start.sound⟩
    rw [start.labels]
    exact ⟨List.mem_append_right _ known, List.mem_append_right _ inside⟩
  sound' := by
    refine List.forall_mem_cons.2 ⟨?_, start.sound'⟩
    rw [start.labels']
    exact ⟨List.mem_append_right _ (List.mem_map_of_mem known), List.mem_append_right _ (List.mem_map_of_mem inside)⟩
  navigations := by
    intro j member other
    -- as the labels are renamed one to one, both look-ups stop at the new entry or neither does
    have same : ((ρ j, other) == (ρ k, name)) = ((j, other) == (k, name)) := by
      rw [Bool.eq_iff_iff, beq_iff_eq, beq_iff_eq, Prod.mk.injEq, Prod.mk.injEq, injective.eq_iff]
    rw [List.lookup_cons, List.lookup_cons, same, start.navigations j member other]
    split <;> rfl
  targets := by
    intro j member other target found
    rw [List.lookup_cons] at found
    split at found
    next =>
      obtain rfl := Option.some.inj found
      exact inside
    next => exact start.targets j member other target found

theorem Renamed.newTable (renames : Renames ρ base base' last last') (start : Renamed ρ base base' own w w')
    {e : Entity} {t t' : StoredTable} (run : Step.Yields (newTable e) w t v)
    (run' : Step.Yields (Planning.newTable e) w' t' v') (early : v.labels <+: last) (early' : v'.labels <+: last') :
    t' = { t with label := ρ t.label } ∧ Renamed ρ base base' (own ++ [t.label]) v v' := by
  simp only [Planning.newTable, Step.yields_bind, Step.yields_pure] at run run'
  obtain ⟨label, _, new, rfl, rfl⟩ := run
  obtain ⟨label', _, new', rfl, rfl⟩ := run'
  obtain ⟨rfl, after⟩ := start.newLabel renames new new' early early'
  exact ⟨rfl, after⟩

/-! ## Expressions under other labels -/

structure RenamedShape (ρ : String → String) (base base' own : List String) (v v' : Workspace) (t t' : Shape)
    (later : List String) : Prop where
  more : own <+: later
  workspaces : Renamed ρ base base' later v v'
  joins : v'.joins = Join.relabelAll ρ v.joins
  shape : t' = t.relabel ρ
  known : ∀ l ∈ t.labels, l ∈ later

theorem referenceCondition_relabel (owner target : Entity) (r : EntityView) (label : String)
    (pairs : List (String × String)) (c : Option Scalar) :
    referenceCondition owner target (r.relabel ρ) (ρ label) pairs (c.map (Scalar.relabel ρ)) =
      (referenceCondition owner target r label pairs c).map (Option.map (Scalar.relabel ρ)) := by
  induction pairs generalizing c with
  | nil => rfl
  | cons pair rest ih =>
    obtain ⟨foreign, principal⟩ := pair
    unfold referenceCondition
    cases (lookUp (Model.property owner foreign) : Except Planning.Error Property) with
    | error e => rfl
    | ok f =>
      cases (lookUp (Model.property target principal) : Except Planning.Error Property) with
      | error e => rfl
      | ok p =>
        change referenceCondition _ _ _ _ _ _ = (referenceCondition _ _ _ _ _ _).map _
        rw [← ih, Option.map_some, Shape.both_relabel]
        rfl

theorem follow_relabel (renames : Renames ρ base base' last last') (start : Renamed ρ base base' own w w')
    (joins : w'.joins = Join.relabelAll ρ w.joins) {owner : Entity} {r : EntityView} {n : Navigation}
    {foreignKey principalKey : List String} {required : Bool}
    {t t' : Shape} (known : r.label ∈ own) (run : Step.Yields (follow m owner r n foreignKey principalKey required) w t v)
    (run' : Step.Yields (follow m owner (r.relabel ρ) n foreignKey principalKey required) w' t' v')
    (early : v.labels <+: last) (early' : v'.labels <+: last') :
    ∃ later, RenamedShape ρ base base' own v v' t t' later := by
  simp only [follow, Step.yields_bind, Step.yields_get] at run run'
  obtain ⟨_, _, ⟨rfl, rfl⟩, run⟩ := run
  obtain ⟨_, _, ⟨rfl, rfl⟩, run'⟩ := run'
  -- both runs remember the navigation, or neither does
  rw [show (r.relabel ρ).label = ρ r.label from rfl, start.navigations _ known] at run'
  split at run
  next k found =>
    rw [found] at run'
    obtain ⟨rfl, rfl⟩ := Step.yields_pure.1 run
    obtain ⟨rfl, rfl⟩ := Step.yields_pure.1 run'
    refine ⟨own, List.prefix_refl _, start, joins, rfl, fun l member => ?_⟩
    obtain rfl := List.mem_singleton.1 member
    exact start.targets _ known _ _ found
  next missing =>
    rw [missing] at run'
    simp only [Option.map_none, Step.yields_bind, Step.yields_lookUp, Step.yields_ofResult, Step.yields_modify,
      Step.yields_pure] at run run'
    obtain ⟨target, _, ⟨leads, rfl⟩, table, u, new, on, _, ⟨condition, rfl⟩, _, _, rfl, rfl, rfl⟩ := run
    obtain ⟨target', _, ⟨leads', rfl⟩, table', u', new', on', _, ⟨condition', rfl⟩, _, _, rfl, rfl, rfl⟩ := run'
    obtain rfl := Except.ok.inj (leads.symm.trans leads')
    obtain ⟨rfl, after⟩ := start.newTable renames new new' early early'
    obtain ⟨-, -, rfl⟩ := newTable_yields new
    obtain ⟨-, -, rfl⟩ := newTable_yields new'
    have conditions := referenceCondition_relabel (ρ := ρ) owner target r table.label (foreignKey.zip principalKey) none
    rw [condition, Option.map_none] at conditions
    obtain rfl := Except.ok.inj (condition'.symm.trans conditions)
    have inside : table.label ∈ own ++ [table.label] := List.mem_append_right _ (List.mem_singleton_self _)
    refine ⟨own ++ [table.label], List.prefix_append _ _,
      after.remember renames.injective n.name (List.mem_append_left _ known) inside _ _, ?_, rfl, ?_⟩
    · rw [Join.relabelAll_append, ← joins]
      rfl
    · exact fun l member => List.mem_singleton.1 member ▸ inside

theorem readMember_relabel (renames : Renames ρ base base' last last') (start : Renamed ρ base base' own w w')
    (joins : w'.joins = Join.relabelAll ρ w.joins) {s t t' : Shape} {name : String} {whole whole' : Expr}
    (known : ∀ l ∈ s.labels, l ∈ own)
    (run : Step.Yields (readMember m s name whole) w t v)
    (run' : Step.Yields (readMember m (s.relabel ρ) name whole') w' t' v')
    (early : v.labels <+: last) (early' : v'.labels <+: last') :
    ∃ later, RenamedShape ρ base base' own v v' t t' later := by
  -- whether a member is found without planning depends on types alone, so both runs follow a reference or neither does
  have static := Shape.staticMember?_relabel (ρ := ρ) (m := m) s name
  obtain ⟨member, rfl⟩ | ⟨r, owner, n, foreignKey, principalKey, required, reference, follows⟩ := readMember_yields run
  · rw [member] at static
    obtain ⟨member', rfl⟩ | ⟨r', owner', n', foreignKey', principalKey', required', reference', -⟩ :=
      readMember_yields run'
    · obtain rfl := Option.some.inj (member'.symm.trans static)
      exact ⟨own, List.prefix_refl _, start, joins, rfl, fun l inside => known l (staticMember?_labels member l inside)⟩
    · rw [reference'.shape, reference'.not_static rfl] at static
      cases static
  · obtain rfl := reference.shape
    rw [reference.not_static rfl] at static
    obtain ⟨member', -⟩ | ⟨r', owner', n', foreignKey', principalKey', required', reference', follows'⟩ :=
      readMember_yields run'
    · rw [member'] at static
      cases static
    · obtain ⟨-, entity, missing, navigation, kind⟩ := reference
      obtain ⟨⟨⟩, entity', missing', navigation', kind'⟩ := reference'
      obtain rfl := Option.some.inj (entity.symm.trans entity')
      obtain rfl := Option.some.inj (navigation.symm.trans navigation')
      obtain ⟨rfl, rfl, rfl⟩ := NavigationKind.reference.inj (kind.symm.trans kind')
      exact follow_relabel renames start joins (known _ (List.mem_singleton_self _)) follows follows' early early'

theorem shapeOperator_relabel (l r : Shape) (op : Operator) (whole : Expr) :
    (shapeOperator m (l.relabel ρ) op (r.relabel ρ) whole).toOption =
      (shapeOperator m l op r whole).toOption.map (Scalar.relabel ρ) := by
  have null (a : Scalar) : isNull (a.relabel ρ) = isNull a := by
    cases a <;> rfl
  have scalars (a b : Scalar) : (scalarOperator a op b).relabel ρ = scalarOperator (a.relabel ρ) op (b.relabel ρ) := by
    unfold scalarOperator
    cases op <;> simp only [null] <;> first | rfl | (split <;> first | rfl | (split <;> rfl))
  have keys (l r : Shape) : (Shape.equality m (.expr whole) (l.relabel ρ) (r.relabel ρ)).toOption = _ :=
    Shape.equality_relabel (.expr whole) (.expr whole) l r
  have negated (l r : Shape) :
      (do return Scalar.not (← Shape.equality m (.expr whole) (l.relabel ρ) (r.relabel ρ))).toOption =
        (do return Scalar.not (← Shape.equality m (.expr whole) l r)).toOption.map (Scalar.relabel ρ) := by
    simp only [toOption_bind, keys]
    cases Shape.equality m (.expr whole) l r <;> rfl
  cases l with
  | scalar a =>
    cases r with
    | scalar b => exact congrArg some (scalars a b).symm
    | _ => cases op <;> first | exact keys _ _ | exact negated _ _ | rfl
  | _ => cases op <;> first | exact keys _ _ | exact negated _ _ | rfl

theorem shapeOperator_renamed {s t : Shape} {op : Operator} {whole : Expr} {c c' : Scalar}
    (h : shapeOperator m s op t whole = .ok c) (h' : shapeOperator m (s.relabel ρ) op (t.relabel ρ) whole = .ok c') :
    c' = c.relabel ρ := by
  have same := shapeOperator_relabel (ρ := ρ) (m := m) s t op whole
  rw [h, h'] at same
  exact Option.some.inj same

theorem RenamedShape.trans {later latest : List String} {u u' : Workspace} {s s' t t' : Shape}
    (first : RenamedShape ρ base base' own u u' s s' later) (second : RenamedShape ρ base base' later v v' t t' latest) :
    RenamedShape ρ base base' own v v' t t' latest :=
  { second with more := first.more.trans second.more }

theorem reads_later {scope : Scope} {later : List String} (more : own <+: later) (known : scope.Reads own) :
    scope.Reads later :=
  fun p member l inside => more.subset (known p member l inside)

theorem readMember_extends {s t : Shape} {name : String} {whole : Expr}
    (h : Step.Yields (readMember m s name whole) w t v) : Workspace.Extends w v :=
  (Workspace.Extends.onward m).readMember h

theorem fieldList_extends {scope : Scope} {whole : Expr} {bs : List (Binding Expr)} {fs : List (String × Shape)}
    (h : Step.Yields (fieldList m scope whole bs) w fs v) : Workspace.Extends w v :=
  (Workspace.Extends.onward m).fieldList h

mutual

/-- An expression is planned as the same, under other labels. -/
theorem expr_relabel (renames : Renames ρ base base' last last') {e : Expr} {scope : Scope} {own : List String}
    {v v' w w' : Workspace} {t t' : Shape} (start : Renamed ρ base base' own w w')
    (joins : w'.joins = Join.relabelAll ρ w.joins) (known : Scope.Reads scope own)
    (run : Step.Yields (expr m scope e) w t v)
    (run' : Step.Yields (expr m (Shape.relabelFields ρ scope) e) w' t' v') (early : v.labels <+: last)
    (early' : v'.labels <+: last') : ∃ later, RenamedShape ρ base base' own v v' t t' later := by
  match e with
  | .param x =>
    obtain ⟨found, rfl⟩ := param_yields.1 run
    obtain ⟨found', rfl⟩ := param_yields.1 run'
    rw [Shape.lookup_relabelFields, found] at found'
    obtain rfl := Option.some.inj found'
    exact ⟨own, List.prefix_refl _, start, joins, rfl, known _ (mem_of_lookup found)⟩
  | .constant _ | .captured .. | .runtime _ =>
    obtain ⟨rfl, rfl⟩ := Step.yields_pure.1 run
    obtain ⟨rfl, rfl⟩ := Step.yields_pure.1 run'
    exact ⟨own, List.prefix_refl _, start, joins, rfl, fun _ none => absurd none List.not_mem_nil⟩
  | .member of name =>
    obtain ⟨s, u, first, run⟩ := member_yields.1 run
    obtain ⟨s', u', first', run'⟩ := member_yields.1 run'
    -- the labels of the owner are handed out before those that its member adds
    have before := readMember_extends run
    have before' := readMember_extends run'
    obtain ⟨middle, owner⟩ := expr_relabel renames start joins known first first' (before.more.trans early)
      (before'.more.trans early')
    obtain rfl := owner.shape
    obtain ⟨later, target⟩ := readMember_relabel renames owner.workspaces owner.joins owner.known run run' early early'
    exact ⟨later, owner.trans target⟩
  | .binary l op r =>
    obtain ⟨a, u, b, c, first, second, applied, rfl⟩ := binary_yields.1 run
    obtain ⟨a', u', b', c', first', second', applied', rfl⟩ := binary_yields.1 run'
    obtain ⟨middle, left⟩ := expr_relabel renames start joins known first first'
      ((expr_extends second).more.trans early) ((expr_extends second').more.trans early')
    obtain ⟨later, right⟩ := expr_relabel renames left.workspaces left.joins
      (reads_later left.more known) second second' early early'
    obtain rfl := left.shape
    obtain rfl := right.shape
    refine ⟨later, left.more.trans right.more, right.workspaces, right.joins, ?_, fun k member => ?_⟩
    · rw [shapeOperator_renamed applied applied']
      rfl
    · exact (shapeOperator_sources applied member).elim (fun inside => right.more.subset (left.known k inside))
        (right.known k)
  | .not operand =>
    obtain ⟨c, first, rfl⟩ := not_yields.1 run
    obtain ⟨c', first', rfl⟩ := not_yields.1 run'
    obtain ⟨later, inner⟩ := expr_relabel renames start joins known first first' early early'
    obtain rfl := Shape.scalar.inj inner.shape
    exact ⟨later, inner.more, inner.workspaces, inner.joins, rfl, inner.known⟩
  | .conditional test a b =>
    obtain ⟨c, u, ca, x, cb, first, second, third, rfl⟩ := conditional_yields.1 run
    obtain ⟨c', u', ca', x', cb', first', second', third', rfl⟩ := conditional_yields.1 run'
    -- three operands in turn: what each of them plans is among what the next one finds
    have last := (expr_extends third).more.trans early
    have last' := (expr_extends third').more.trans early'
    obtain ⟨k₁, tested⟩ := expr_relabel renames start joins known first first' ((expr_extends second).more.trans last)
      ((expr_extends second').more.trans last')
    have known := reads_later tested.more known
    obtain ⟨k₂, left⟩ := expr_relabel renames tested.workspaces tested.joins known second second' last last'
    obtain ⟨k₃, right⟩ := expr_relabel renames left.workspaces left.joins
      (reads_later left.more known) third third' early early'
    obtain rfl := Shape.scalar.inj tested.shape
    obtain rfl := Shape.scalar.inj left.shape
    obtain rfl := Shape.scalar.inj right.shape
    refine ⟨k₃, tested.more.trans (left.more.trans right.more), right.workspaces, right.joins, rfl, fun l member => ?_⟩
    simp only [Shape.labels, Scalar.sources, List.mem_append] at member
    rcases member with (inside | inside) | inside
    · exact (left.more.trans right.more).subset (tested.known l inside)
    · exact right.more.subset (left.known l inside)
    · exact right.known l inside
  | .new type args bindings =>
    obtain ⟨-, fs, fields, rfl⟩ := new_yields.1 run
    obtain ⟨-, fs', fields', rfl⟩ := new_yields.1 run'
    exact fieldList_relabel renames start joins known fields fields' early early'

theorem fieldList_relabel (renames : Renames ρ base base' last last') {bs : List (Binding Expr)} {whole whole' : Expr}
    {scope : Scope} {own : List String} {v v' w w' : Workspace} {fs fs' : List (String × Shape)}
    (start : Renamed ρ base base' own w w') (joins : w'.joins = Join.relabelAll ρ w.joins)
    (known : Scope.Reads scope own) (run : Step.Yields (fieldList m scope whole bs) w fs v)
    (run' : Step.Yields (fieldList m (Shape.relabelFields ρ scope) whole' bs) w' fs' v') (early : v.labels <+: last)
    (early' : v'.labels <+: last') :
    ∃ later, RenamedShape ρ base base' own v v' (.record fs) (.record fs') later := by
  match bs with
  | [] =>
    obtain ⟨rfl, rfl⟩ := noFields_yields.1 run
    obtain ⟨rfl, rfl⟩ := noFields_yields.1 run'
    exact ⟨own, List.prefix_refl _, start, joins, rfl, fun _ none => absurd none List.not_mem_nil⟩
  | .assign member value :: rest =>
    obtain ⟨s, u, others, here, behind, rfl⟩ := assign_yields.1 run
    obtain ⟨s', u', others', here', behind', rfl⟩ := assign_yields.1 run'
    -- the workspace behind this field is the start of the later ones
    obtain ⟨middle, first⟩ := expr_relabel renames start joins known here here'
      ((fieldList_extends behind).more.trans early) ((fieldList_extends behind').more.trans early')
    obtain ⟨later, more⟩ :=
      fieldList_relabel renames first.workspaces first.joins (reads_later first.more known) behind behind' early early'
    refine ⟨later, first.more.trans more.more, more.workspaces, more.joins, ?_, fun l inside => ?_⟩
    · rw [first.shape, Shape.record.inj more.shape]
      rfl
    · rcases List.mem_append.1 inside with inside | inside
      · exact more.more.subset (first.known l inside)
      · exact more.known l inside
  | .items .. :: rest => exact absurd run not_items_yields

end

end

end Setwise.Planning
