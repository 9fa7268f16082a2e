import Setwise.Proofs.ReadResults

/-!
What lambdas read, references included.

A lambda that follows references joins their targets to the select that it is planned against. Every frame of the select
then goes on with more rows behind it, or is lost where a required reference leads to no row. `Expr.result?` says which
of the two, and what the lambda returns, by the elements that it is applied to. Where every reference leads to at most one
row and is read on a join of its own foreign key, and nothing else than a written NULL is tested for NULL
(`ReadsPlainly`), that is what the planned expression stands for (`expr_grows`).
-/

set_option autoImplicit false

namespace Setwise

open Client Relational Execution Planning

namespace Planning

/-! ## Frames that grow -/

def Grow (frames later : List Frame) (becomes : Frame → Option Frame → Prop) : Prop :=
  ∃ grown : Frame → Option Frame, later = frames.filterMap grown ∧
    ∀ f ∈ frames, (∀ g ∈ grown f, f <+: g) ∧ becomes f (grown f)

section

variable {frames middle later : List Frame} {P Q : Frame → Option Frame → Prop}

theorem Grow.refl (h : ∀ f ∈ frames, P f (some f)) : Grow frames frames P :=
  ⟨some, (List.filterMap_some).symm, fun f member => ⟨fun _ same => Option.some.inj same ▸ List.prefix_refl _, h f member⟩⟩

theorem Grow.imp (h : Grow frames later P)
    (weaker : ∀ f ∈ frames, ∀ o, (∀ g ∈ o, g ∈ later ∧ f <+: g) → P f o → Q f o) : Grow frames later Q := by
  obtain ⟨grown, rfl, all⟩ := h
  refine ⟨grown, rfl, fun f member => ⟨(all f member).1, weaker f member _ (fun g here => ⟨?_, ?_⟩) (all f member).2⟩⟩
  · exact List.mem_filterMap.2 ⟨f, member, here⟩
  · exact (all f member).1 g here

theorem Grow.trans (first : Grow frames middle P) (second : Grow middle later Q) :
    Grow frames later fun f o => P f none ∧ o = none ∨
      ∃ g ∈ middle, f <+: g ∧ P f (some g) ∧ Q g o ∧ ∀ h ∈ o, g <+: h := by
  obtain ⟨grown, rfl, all⟩ := first
  obtain ⟨grown', rfl, all'⟩ := second
  refine ⟨fun f => (grown f).bind grown', List.filterMap_filterMap .., fun f member => ?_⟩
  obtain ⟨more, here⟩ := all f member
  cases found : grown f with
  | none =>
    simp only [found, Option.bind_none]
    exact ⟨fun _ none => (nomatch none), .inl ⟨found ▸ here, trivial⟩⟩
  | some g =>
    simp only [found, Option.bind_some]
    have inside : g ∈ frames.filterMap grown := List.mem_filterMap.2 ⟨f, member, found⟩
    obtain ⟨more', here'⟩ := all' g inside
    have longer := more g found
    exact ⟨fun h last => longer.trans (more' h last), .inr ⟨g, inside, longer, found ▸ here, here', more'⟩⟩

theorem Grow.same (h : Grow frames frames P) : ∀ f ∈ frames, P f (some f) := by
  obtain ⟨grown, same, all⟩ := h
  have every : ∀ f ∈ frames, (grown f).isSome := List.filterMap_length_eq_length.1 (congrArg List.length same).symm
  have mapped : frames.map grown = frames.map some := by
    have := congrArg (List.map some) same
    rw [this, List.map_filterMap_some_eq_filter_map_isSome, List.filter_eq_self.2]
    exact fun o member => by
      obtain ⟨f, inside, rfl⟩ := List.mem_map.1 member
      exact every f inside
  intro f member
  have itself : grown f = some f := List.map_inj_left.1 mapped f member
  exact itself ▸ (all f member).2

end

/-! ## What grown frames show -/

section

variable {α β γ : Type} {frames middle later : List Frame} {a : Frame → α} {b : Frame → β} {X : Frame → Option α}
  {Y : Frame → Option β}

def Returns (frames later : List Frame) (shown : Frame → α) (known : Frame → Option α) : Prop :=
  Grow frames later fun f o => o.map shown = known f

theorem Returns.refl (h : ∀ f ∈ frames, X f = some (a f)) : Returns frames frames a X :=
  Grow.refl fun f member => (h f member).symm

/-- Grown frames come from the frames before. -/
theorem Grow.origin {P : Frame → Option Frame → Prop} (h : Grow frames later P) :
    ∀ g ∈ later, ∃ f ∈ frames, f <+: g ∧ P f (some g) := by
  obtain ⟨grown, rfl, all⟩ := h
  intro g member
  obtain ⟨f, inside, found⟩ := List.mem_filterMap.1 member
  obtain ⟨more, becomes⟩ := all f inside
  exact ⟨f, inside, more g found, found ▸ becomes⟩

theorem Returns.congr {X' : Frame → Option α} (h : Returns frames later a X) (same : ∀ f ∈ frames, X f = X' f) :
    Returns frames later a X' :=
  Grow.imp h fun f member _ _ becomes => becomes.trans (same f member)

theorem Returns.map (h : Returns frames later a X) (φ : α → β) (same : ∀ g ∈ later, b g = φ (a g)) :
    Returns frames later b fun f => (X f).map φ := by
  refine h.imp fun f _ o inside becomes => ?_
  dsimp only
  rw [← becomes, Option.map_map]
  cases o with
  | none => rfl
  | some g => exact congrArg some (same g (inside g rfl).1)

theorem Returns.both (first : Returns frames middle a X) (second : Returns middle later b Y)
    (known : ∀ f ∈ frames, ∀ g, f <+: g → Y g = Y f) (keeps : ∀ f ∈ middle, ∀ g, f <+: g → a g = a f) :
    Returns frames later (fun g => (a g, b g)) fun f => (X f).bind fun x => (Y f).map fun y => (x, y) := by
  refine (Grow.trans first second).imp fun f member o _ becomes => ?_
  dsimp only
  rcases becomes with ⟨lost, rfl⟩ | ⟨g, inside, more, here, there, longer⟩
  · rw [← lost]
    rfl
  · rw [← here, ← known f member g more, ← there]
    cases o with
    | none => rfl
    | some h =>
      simp only [Option.map_some, Option.bind_some]
      rw [keeps g inside h (longer h rfl)]

end

/-! ## Members -/

variable {m : Model} {db : Database} {env : Environment}

section

variable {x : Element} {name : String}

theorem read?_of_member {y : Element} (member : x.member m db name = some y) (stays : x.dangles? m db name ≠ some true) :
    x.read? m db name = some y := by
  unfold Element.read?
  rw [if_neg stays, member, Option.getD_some]

theorem dangles?_of_static {s t : Shape} (h : s.staticMember? m name = some t) (f : Frame) :
    (s.element m env f).dangles? m db name = none := by
  cases Shape.StaticMember.of_found h with
  | property entity property | proposed entity property inserted =>
    simp only [Shape.element, Element.dangles?, entity, property, Option.bind_eq_bind, Option.bind_some]
  | part entity missing navigation owned | proposedPart entity missing navigation owned =>
    simp only [Shape.element, Element.dangles?, entity, missing, navigation, Navigation.kind_of_owned owned,
      Option.bind_eq_bind, Option.bind_some]
  | field | key => rfl

theorem dangles?_reference {s : Shape} {r : EntityView} {owner target : Entity} {n : Navigation}
    {foreignKey principalKey : List String} {required : Bool} {t : Table} {pairs : List (String × String)}
    (reference : ReferenceMember m s name r owner n foreignKey principalKey required)
    (known : m.entity? n.target = some target) (stored : db.find? target.table = some t)
    (found : keyPairs? owner target (foreignKey.zip principalKey) = some pairs) (f : Frame) :
    (s.element m env f).dangles? m db name =
      if required then some (referencedRows (r.row m env f) pairs t).isEmpty else none := by
  obtain ⟨rfl, entity, missing, navigation, kind⟩ := reference
  simp only [Shape.element, Element.dangles?, entity, missing, navigation, kind, Option.bind_eq_bind, Option.bind_some]
  cases required with
  | false => rfl
  | true =>
    simp only [known, stored, found, Option.bind_some, if_true]
    rfl

end

theorem flatMap_eq_filterMap {α β : Type} {l : List α} {g : α → List β} (single : ∀ a ∈ l, (g a).length ≤ 1) :
    l.flatMap g = l.filterMap fun a => (g a).head? := by
  induction l with
  | nil => rfl
  | cons a rest ih =>
    obtain ⟨here, later⟩ := List.forall_mem_cons.1 single
    rw [List.flatMap_cons, List.filterMap_cons, ih later]
    match found : g a with
    | [] => rfl
    | [b] => rfl
    | _ :: _ :: _ =>
      rw [found] at here
      simp at here

theorem length_extensions_le {kind : JoinKind} {on : Option Scalar} {rs : RowSet} {f : Frame}
    (single : (rs.rows.filter (matchesRow env kind on rs f)).length ≤ 1) :
    (extensions env kind on rs f).length ≤ 1 := by
  unfold extensions
  dsimp only
  split
  next => simp
  next => simpa using single

theorem extensions_eq_nil (env : Environment) (kind : JoinKind) (on : Option Scalar) (rs : RowSet) (f : Frame) :
    extensions env kind on rs f = [] ↔
      rs.rows.filter (matchesRow env kind on rs f) = [] ∧ kind ≠ .leftOuter := by
  unfold extensions
  simp only [List.isEmpty_map]
  cases found : rs.rows.filter (matchesRow env kind on rs f) with
  | nil => cases kind <;> simp
  | cons r rest => simp

theorem Grow.of_extensions {kind : JoinKind} {on : Option Scalar} {rs : RowSet} {frames : List Frame}
    {becomes : Frame → Option Frame → Prop} (few : ∀ f ∈ frames, (extensions env kind on rs f).length ≤ 1)
    (lost : ∀ f ∈ frames, extensions env kind on rs f = [] → becomes f none)
    (kept : ∀ f ∈ frames, ∀ rest, f ++ rest ∈ extensions env kind on rs f → becomes f (some (f ++ rest))) :
    Grow frames (frames.flatMap (extensions env kind on rs)) becomes := by
  refine ⟨_, flatMap_eq_filterMap few, fun f member => ?_⟩
  cases found : extensions env kind on rs f with
  | nil => exact ⟨by simp, lost f member found⟩
  | cons g more =>
    have inside : g ∈ extensions env kind on rs f := found ▸ List.mem_cons_self
    obtain ⟨rest, rfl⟩ := exists_of_mem_extensions inside
    exact ⟨fun g same => Option.some.inj same ▸ List.prefix_append _ _, kept f member rest inside⟩

/-- What reading members has added to a workspace leads from these entities to one place, and to such entities again:
owned types are stored with their owners, and no reference that is remembered leads to two rows. -/
structure Workspace.Leads (m : Model) (db : Database) (K : Element → Prop) (w : Workspace) : Prop where
  owned : ∀ type e name n, m.entity? type = some e → e.property? name = none → e.navigation? name = some n →
    n.kind = .owned → (m.columns? e).isSome
  references : ∀ entry ∈ w.navigations, ∀ x : Element, K x → x.LeadsToOne m db entry.1.2
  closed : ∀ x name y, K x → x.member m db name = some y → y.Within K

namespace Workspace.Leads

variable {K : Element → Prop} {w w' : Workspace}

theorem earlier (leads : w'.Leads m db K) (fewer : w.navigations ⊆ w'.navigations) : w.Leads m db K where
  owned := leads.owned
  references := fun entry member => leads.references entry (fewer member)
  closed := leads.closed

/-- A member that has been read leads to one place. -/
theorem member {s t : Shape} {name : String} {whole : Expr} (leads : w'.Leads m db K)
    (h : Step.Yields (readMember m s name whole) w t w') {f : Frame} (within : (s.element m env f).Within K) :
    (s.element m env f).LeadsToOne m db name := by
  obtain ⟨static, rfl⟩ | ⟨r, owner, n, foreignKey, principalKey, required, reference, run⟩ := readMember_yields h
  · cases Shape.StaticMember.of_found static with
    | field | key => trivial
    | property known property | proposed known property =>
      intro e n entity missing
      obtain rfl := Option.some.inj (known.symm.trans entity)
      cases property.symm.trans missing
    | part known _ found owned | proposedPart known _ found owned =>
      intro e n entity missing navigation
      obtain rfl := Option.some.inj (known.symm.trans entity)
      obtain rfl := Option.some.inj (found.symm.trans navigation)
      have kind := Navigation.kind_of_owned owned
      rw [kind]
      exact leads.owned _ _ name _ entity missing navigation kind
  · have name : n.name = name := by simpa using List.find?_some reference.navigation
    -- a reference that has been followed is remembered, and what is remembered leads to one row
    obtain ⟨label, -, found⟩ := follow_yields run
    have inside : ((r.label, n.name), label) ∈ w'.navigations := by
      rcases found with ⟨remembered, rfl⟩ | ⟨-, _, _, -, -, rfl⟩
      · exact mem_of_lookup remembered
      · exact List.mem_cons_self
    obtain rfl := reference.shape
    cases within with
    | entity met => exact name ▸ leads.references _ inside _ met

end Workspace.Leads

/-- What reading members has added to a workspace leads from every entity to one place. -/
structure Workspace.FollowsOne (m : Model) (db : Database) (w : Workspace) : Prop where
  owned : ∀ type e name n, m.entity? type = some e → e.property? name = none → e.navigation? name = some n →
    n.kind = .owned → (m.columns? e).isSome
  references : ∀ entry ∈ w.navigations, ∀ x : Element, x.LeadsToOne m db entry.1.2

namespace Workspace.FollowsOne

variable {w w' : Workspace}

theorem earlier (one : w'.FollowsOne m db) (fewer : w.navigations ⊆ w'.navigations) : w.FollowsOne m db where
  references := fun entry member => one.references entry (fewer member)
  owned := one.owned

theorem leads (one : w.FollowsOne m db) : w.Leads m db fun _ => True where
  owned := one.owned
  references := fun entry member x _ => one.references entry member x
  closed := fun _ _ y _ _ => y.within_trivial

end Workspace.FollowsOne

theorem onward_navigations (m : Model) :
    Onward m fun w w' => w.navigations ⊆ w'.navigations ∧ (w'.navigations = [] → w' = w) where
  refl := fun _ => ⟨List.Subset.refl _, fun _ => rfl⟩
  trans := by
    intro u v w first second
    refine ⟨List.Subset.trans first.1 second.1, fun none => ?_⟩
    obtain rfl := second.2 none
    exact first.2 none
  follow := fun run => by
    obtain ⟨label, -, ⟨-, rfl⟩ | ⟨-, _, _, -, -, rfl⟩⟩ := follow_yields run
    · exact ⟨List.Subset.refl _, fun _ => rfl⟩
    · exact ⟨List.subset_cons_self _ _, fun none => absurd none (List.cons_ne_nil _ _)⟩

theorem readMember_navigations {s t : Shape} {name : String} {whole : Expr} {w w' : Workspace}
    (h : Step.Yields (readMember m s name whole) w t w') : w.navigations ⊆ w'.navigations :=
  ((onward_navigations m).readMember h).1

theorem expr_navigations {scope : Scope} {e : Expr} {t : Shape} {w w' : Workspace}
    (h : Step.Yields (expr m scope e) w t w') :
    w.navigations ⊆ w'.navigations ∧ (w'.navigations = [] → w' = w) :=
  (onward_navigations m).expr h

theorem fieldList_navigations {scope : Scope} {bs : List (Binding Expr)} {whole : Expr} {fs : List (String × Shape)}
    {w w' : Workspace} (h : Step.Yields (fieldList m scope whole bs) w fs w') : w.navigations ⊆ w'.navigations :=
  ((onward_navigations m).fieldList h).1

/-- When the target of a reference joins, a frame is extended by the row that its owner refers to, and it is lost only
where the reference is required and there is no such row. -/
theorem extensions_of_reference {s : Shape} {name label : String} {r : EntityView} {owner target : Entity}
    {n : Navigation} {foreignKey principalKey : List String} {required : Bool}
    {kind : JoinKind} {on : Option Scalar} {t : Table} {f : Frame}
    (reference : ReferenceMember m s name r owner n foreignKey principalKey required)
    (known : m.entity? n.target = some target)
    (condition : referenceCondition owner target r label (foreignKey.zip principalKey) none = .ok on)
    (joinKind : kind = if required then .inner else .leftOuter) (stored : db.find? target.table = some t)
    (seen : r.label ∈ Frame.labels f) (new : label ∉ Frame.labels f) (leads : (s.element m env f).LeadsToOne m db name)
    (evaluated : ∀ s ∈ t.rows, holdsOption env (f ++ [(RowSet.ofTable t label).visible s]) on =
      .ok (matchesRow env kind on (.ofTable t label) f s)) :
    (extensions env kind on (.ofTable t label) f).length ≤ 1 ∧
      (extensions env kind on (.ofTable t label) f = [] ↔ (s.element m env f).dangles? m db name = some true) := by
  obtain ⟨pairs, keys⟩ := keyPairs?_of_referenceCondition condition
  have matching : (RowSet.ofTable t label).rows.filter (matchesRow env kind on (.ofTable t label) f) =
      referencedRows (r.row m env f) pairs t := matching_referenced condition keys reference.entity seen new evaluated
  constructor
  · refine length_extensions_le ?_
    rw [matching]
    obtain ⟨rfl, entity, missing, navigation, referencing⟩ := reference
    have single := leads owner n entity missing navigation
    rw [referencing] at single
    exact single target t pairs known stored keys
  · rw [extensions_eq_nil, matching, dangles?_reference reference known stored keys f, joinKind]
    cases required <;> simp

theorem readMember_grows {s t : Shape} {name : String} {whole : Expr} {source : Source} {w w' : Workspace}
    {K : Element → Prop} (leads : w'.Leads m db K) (inScope : Scoped w (w.select source))
    (visible : ∀ l ∈ s.labels, l ∈ (w.select source).labels) (own : ReusesOwn m w s name)
    (h : Step.Yields (readMember m s name whole) w t w') {frames later : List Frame}
    (met : ∀ f ∈ frames, (s.element m env f).Within K)
    (all : joinedFrames db env (w.select source) = .ok frames)
    (all' : joinedFrames db env (w'.select source) = .ok later) :
    Grow frames later fun f o => o.map (t.element m env) = (s.element m env f).read? m db name := by
  obtain ⟨progress, -⟩ := readMember_progress inScope visible h
  have distinct := progress.inScope.distinct
  have labels {f : Frame} (member : f ∈ frames) := labels_of_joinedFrames all member
  have reads {f rest : Frame} (member : f ∈ frames) (inside : f ++ rest ∈ later) :
      (s.element m env f).member m db name = some (t.element m env (f ++ rest)) := by
    have same : s.element m env (f ++ rest) = s.element m env f :=
      Shape.element_append (fun l here => labels member ▸ visible l here) rest
    have single := leads.member h (met f member)
    rw [← same] at single ⊢
    exact readMember_reads inScope visible own h distinct rfl (List.prefix_refl _) all' inside single
  have reads' {f : Frame} (member : f ∈ frames) (inside : f ∈ later) :
      (s.element m env f).member m db name = some (t.element m env f) := by
    have here := @reads f [] member
    rw [List.append_nil] at here
    exact here inside
  obtain ⟨static, rfl⟩ | ⟨r, owner, n, foreignKey, principalKey, required, reference, run⟩ := readMember_yields h
  · -- nothing joins for a member that is no reference, and nothing is lost
    obtain rfl := Except.ok.inj (all.symm.trans all')
    refine .refl fun f member => (read?_of_member (reads' member member) ?_).symm
    rw [dangles?_of_static static]
    simp
  obtain ⟨label, rfl, ⟨found, rfl⟩ | ⟨fresh, target, on, known, condition, rfl⟩⟩ := follow_yields run
  · -- the target has been joined before
    obtain rfl := Except.ok.inj (all.symm.trans all')
    refine .refl fun f member => (read?_of_member (reads' member member) ?_).symm
    -- the join found is one on the foreign key itself, so the row that it has joined decides
    obtain ⟨before, j, after, split, ownJoin, behind, -⟩ := follow_own inScope
      (visible _ (reference.shape ▸ List.mem_singleton_self _)) reference.kind
      (fun label => own r owner n foreignKey principalKey required label reference) run
    obtain ⟨_, _, _, target, u, pairs, _, _, _, kind, known, stored, keys, -, -, rows⟩ :=
      joined_of_ownJoin distinct split ownJoin behind reference.entity all member
    obtain ⟨rfl, rfl, rfl⟩ := NavigationKind.reference.inj (reference.kind.symm.trans kind)
    rw [dangles?_reference reference known stored keys]
    rcases rows with here | ⟨rfl, -⟩
    · cases required <;> simp [List.ne_nil_of_mem here]
    · simp
  · -- the target joins now
    let j := referenceJoin target label required on
    obtain ⟨before, rs, joined, rows, rfl, evaluated⟩ := joinedFrames_snoc (s := w.select source) (j := j) all'
    obtain rfl := Except.ok.inj (all.symm.trans joined)
    obtain ⟨t, stored, rfl⟩ := sourceRows_table rows
    -- the condition of the join reads the owner's frame and the new table, and nothing else
    have seen : r.label ∈ (w.select source).labels := visible _ (reference.shape ▸ List.mem_singleton_self _)
    have new : label ∉ (w.select source).labels := by
      have apart : (w.select source).labels ++ [label] =
          ({ w.select source with joins := w.joins ++ [j] } : Select).labels := by
        simp [Select.labels, joinLabels, Workspace.select, j, referenceJoin, RowSource.label]
      have nodup := apart ▸ distinct
      exact fun old => (List.nodup_append.1 nodup).2.2 _ old _ (List.mem_singleton_self _) rfl
    have joins {f : Frame} (member : f ∈ frames) : (extensions env j.kind j.on (.ofTable t label) f).length ≤ 1 ∧
        (extensions env j.kind j.on (.ofTable t label) f = [] ↔ (s.element m env f).dangles? m db name = some true) :=
      extensions_of_reference reference known condition rfl stored (labels member ▸ seen) (labels member ▸ new)
        (leads.member h (met f member)) fun s here => evaluated f member s here (by cases required <;> simp [j, referenceJoin])
    refine Grow.of_extensions (fun f member => (joins member).1) (fun f member found => ?_) fun f member rest inside => ?_
    · unfold Element.read?
      rw [if_pos ((joins member).2.1 found)]
      rfl
    · refine (read?_of_member (reads member (List.mem_flatMap.2 ⟨f, member, inside⟩)) ?_).symm
      · rw [Ne, ← (joins member).2]
        exact List.ne_nil_of_mem inside

/-! ## Expressions -/

section

variable (m : Model) (nulls : Expr → Bool) (scope : Scope)

mutual

/-- Planning an expression from a workspace reads every reference on a join of its own foreign key, and tests exactly
those operands for NULL that count as NULL. -/
def ReadsAs (e : Expr) (w : Workspace) : Prop :=
  match e with
  | .param _ | .constant _ | .captured .. | .runtime _ => True
  | .member of name => ReadsAs of w ∧ ∀ s v, Step.Yields (expr m scope of) w s v → ReusesOwn m v s name
  | .binary l op r =>
    ReadsAs l w ∧ (∀ s v, Step.Yields (expr m scope l) w s v → ReadsAs r v) ∧
      (op.isEquality = true → plannedAsNull scope l = nulls l ∧ plannedAsNull scope r = nulls r)
  | .not operand => ReadsAs operand w
  | .conditional test a b =>
    ReadsAs test w ∧ ∀ s u, Step.Yields (expr m scope test) w s u →
      ReadsAs a u ∧ ∀ t v, Step.Yields (expr m scope a) u t v → ReadsAs b v
  | .new _ _ bindings => BindingsReadAs bindings w

def BindingsReadAs (bs : List (Binding Expr)) (w : Workspace) : Prop :=
  match bs with
  | [] => True
  | b :: rest =>
    BindingReadsAs b w ∧ ∀ whole f v, Step.Yields (field m scope whole b) w f v → BindingsReadAs rest v

def BindingReadsAs (b : Binding Expr) (w : Workspace) : Prop :=
  match b with
  | .assign _ value => ReadsAs value w
  | .items .. => True

end

end

/-- Planning an expression from a workspace reads every reference on a join of its own foreign key, and tests nothing for
NULL that is not written as NULL. -/
def ReadsPlainly (m : Model) (scope : Scope) (e : Expr) (w : Workspace) : Prop :=
  ReadsAs m Expr.isWrittenNull scope e w

theorem shapeOperator_comparison {s t : Shape} {op : Operator} {whole : Expr} {c : Scalar} {f : Frame}
    {leftNull rightNull : Bool} (h : shapeOperator m s op t whole = .ok c)
    (nulls : op.isEquality = true → s.isNullAt [] = leftNull ∧ t.isNullAt [] = rightNull) :
    valueOf env f c = Element.comparison m op (s.element m env f) (t.element m env f) leftNull rightNull := by
  by_cases scalars : ∃ a b, s = .scalar a ∧ t = .scalar b
  · obtain ⟨a, b, rfl, rfl⟩ := scalars
    obtain rfl := Except.ok.inj h
    refine (scalarOperator_value (m := m) a op b).trans ?_
    cases equality : op.isEquality with
    | true =>
      obtain ⟨rfl, rfl⟩ := nulls equality
      rfl
    | false => cases op <;> first | rfl | cases equality
  · obtain ⟨notLeft, notRight, value⟩ := objects_operator env f scalars h
    -- entities and records are no constant NULL
    have object {u : Shape} (other : ∀ a, u ≠ .scalar a) : u.isNullAt [] = false := by
      cases u with
      | scalar a => exact absurd rfl (other a)
      | _ => rfl
    rw [value]
    cases equality : op.isEquality with
    | true =>
      obtain ⟨rfl, rfl⟩ := nulls equality
      rw [object notLeft, object notRight]
      cases op <;> rfl
    | false => cases op <;> first | rfl | cases equality

theorem earlier_joined {source : Source} {w w' : Workspace} (progress : Progress source w w') {later : List Frame}
    (all : joinedFrames db env (w'.select source) = .ok later) :
    ∃ frames, joinedFrames db env (w.select source) = .ok frames := by
  obtain ⟨more, joins, -⟩ := progress.joins
  have same : (w'.select source).source = (w.select source).source := rfl
  obtain ⟨frames, joined, -⟩ := carried_along (m := {}) same ⟨more, joins.symm⟩ all
  exact ⟨frames, joined⟩

section

variable {scope : Scope} {source : Source} {w w' : Workspace} {frames later : List Frame}

theorem fieldElements_grown (visible : scope.Reads (w.select source).labels)
    (all : joinedFrames db env (w.select source) = .ok frames) {f g : Frame} (member : f ∈ frames) (more : f <+: g) :
    Shape.fieldElements m env g scope = Shape.fieldElements m env f scope := by
  obtain ⟨rest, rfl⟩ := more
  have same : (Shape.record scope).element m env (f ++ rest) = (Shape.record scope).element m env f :=
    Shape.element_append (fun l here => ?_) rest
  · exact Element.record.inj same
  · obtain ⟨p, inside, here⟩ := Shape.mem_fieldsLabels.1 here
    exact labels_of_joinedFrames all member ▸ visible p inside l here

theorem element_grown {t : Shape} (visible : ∀ l ∈ t.labels, l ∈ (w.select source).labels)
    (all : joinedFrames db env (w.select source) = .ok frames) {f g : Frame} (member : f ∈ frames) (more : f <+: g) :
    t.element m env g = t.element m env f := by
  obtain ⟨rest, rfl⟩ := more
  exact Shape.element_append (fun l here => labels_of_joinedFrames all member ▸ visible l here) rest

end

variable {scope : Scope} {source : Source} {K : Element → Prop} {nulls : Expr → Bool}

theorem given_grown {w : Workspace} {frames later : List Frame} {P : Frame → Option Frame → Prop}
    (visible : scope.Reads (w.select source).labels) (all : joinedFrames db env (w.select source) = .ok frames)
    (given : ∀ f ∈ frames, ∀ p ∈ Shape.fieldElements m env f scope, p.2.Within K) (grow : Grow frames later P) :
    ∀ g ∈ later, ∀ p ∈ Shape.fieldElements m env g scope, p.2.Within K := by
  intro g member
  obtain ⟨f, inside, more, -⟩ := grow.origin g member
  rw [fieldElements_grown visible all inside more]
  exact given f inside

/-- What is shown before an expression is planned, and the expression. -/
theorem Returns.expr {α : Type} {a : Frame → α} {X : Frame → Option α} {e : Expr} {t : Shape} {u : Workspace}
    {frames middle later : List Frame} (first : Returns frames middle a X)
    (visible : scope.Reads (u.select source).labels) (all : joinedFrames db env (u.select source) = .ok frames)
    (keeps : ∀ f ∈ middle, ∀ g, f <+: g → a g = a f)
    (second : Returns middle later (t.element m env) fun g =>
      e.result? m db env.parameters nulls (Shape.fieldElements m env g scope)) :
    Returns frames later (fun g => (a g, t.element m env g)) fun f => (X f).bind fun x =>
      (e.result? m db env.parameters nulls (Shape.fieldElements m env f scope)).map fun y => (x, y) := by
  refine first.both second (fun f member g more => ?_) keeps
  rw [fieldElements_grown visible all member more]

mutual

/-- A planned expression stands for what the expression returns, in the frames that are not lost. -/
theorem expr_grows {e : Expr} {t : Shape} {w w' : Workspace} {frames later : List Frame} (leads : w'.Leads m db K)
    (inScope : Scoped w (w.select source)) (visible : scope.Reads (w.select source).labels)
    (plain : ReadsAs m nulls scope e w) (h : Step.Yields (expr m scope e) w t w')
    (given : ∀ f ∈ frames, ∀ p ∈ Shape.fieldElements m env f scope, p.2.Within K)
    (all : joinedFrames db env (w.select source) = .ok frames)
    (all' : joinedFrames db env (w'.select source) = .ok later) :
    Returns frames later (t.element m env) fun f =>
      e.result? m db env.parameters nulls (Shape.fieldElements m env f scope) := by
  match e with
  | .param x =>
    obtain ⟨found, rfl⟩ := param_yields.1 h
    obtain rfl := Except.ok.inj (all.symm.trans all')
    refine .refl fun f member => ?_
    simp only [Client.Expr.result?, Shape.lookup_fieldElements, found, Option.map_some, Option.getD_some]
  | .constant v | .captured _ v =>
    obtain ⟨rfl, rfl⟩ := Step.yields_pure.1 h
    obtain rfl := Except.ok.inj (all.symm.trans all')
    refine .refl fun f member => ?_
    unfold Client.Expr.result?
    rfl
  | .runtime name =>
    obtain ⟨rfl, rfl⟩ := runtime_yields.1 h
    obtain rfl := Except.ok.inj (all.symm.trans all')
    refine .refl fun f member => ?_
    simp only [Client.Expr.result?, Shape.element, eval, toOption_mapError]
  | .member of name =>
    obtain ⟨s, v, before, h⟩ := member_yields.1 h
    obtain ⟨progress, seen⟩ := expr_progress of inScope visible before
    -- the frames in which the owner has been read stand between those before and those behind
    obtain ⟨middle, joined⟩ := earlier_joined (readMember_progress progress.inScope seen h).1 all'
    unfold ReadsAs at plain
    have first := expr_grows (leads.earlier (readMember_navigations h)) inScope visible plain.1 before given all joined
    have second := readMember_grows leads progress.inScope seen (plain.2 s v before) h (fun g member => by
      obtain ⟨f, inside, -, becomes⟩ := Grow.origin first g member
      exact of.result_within leads.closed (given f inside) becomes.symm) joined all'
    refine (Grow.trans first second).imp fun f member o _ becomes => ?_
    simp only [Client.Expr.result?]
    rcases becomes with ⟨lost, rfl⟩ | ⟨g, -, -, here, read, -⟩
    · have lost : none = of.result? m db env.parameters nulls (Shape.fieldElements m env f scope) := lost
      rw [← lost]
      rfl
    · have here : some _ = of.result? m db env.parameters nulls (Shape.fieldElements m env f scope) := here
      rw [← here, read]
      rfl
  | .binary l op r =>
    obtain ⟨a, u, b, c, left, right, applied, rfl⟩ := binary_yields.1 h
    unfold ReadsAs at plain
    obtain ⟨progress, seen⟩ := expr_progress l inScope visible left
    have visible' := visible.later progress
    obtain ⟨middle, joined⟩ := earlier_joined (expr_progress r progress.inScope visible' right).1 all'
    have first := expr_grows (leads.earlier (expr_navigations right).1) inScope visible plain.1 left given all joined
    have second := expr_grows leads progress.inScope visible' (plain.2.1 a u left) right
      (given_grown visible all given first) joined all'
    -- a frame that the left operand loses cannot come back, so both operands are read in those that remain
    have both := first.expr visible all (fun f member g => element_grown seen joined member) second
    refine (both.map (fun (x, y) => .scalar (Element.comparison m op x y (nulls l) (nulls r)))
      fun g _ => ?_).congr fun f _ => ?_
    · refine congrArg Element.scalar (shapeOperator_comparison applied fun equality => ?_)
      rw [expr_isNullAt l left, expr_isNullAt r right]
      exact plain.2.2 equality
    · simp only [Client.Expr.result?]
      cases l.result? m db env.parameters nulls (Shape.fieldElements m env f scope) <;>
        cases r.result? m db env.parameters nulls (Shape.fieldElements m env f scope) <;> rfl
  | .not operand =>
    obtain ⟨c, run, rfl⟩ := not_yields.1 h
    unfold ReadsAs at plain
    have first := expr_grows leads inScope visible plain run given all all'
    refine (first.map (fun x => .scalar (x.value?.bind fun v => v.negation.toOption)) fun g _ => ?_).congr
      fun f _ => ?_
    · exact congrArg Element.scalar (valueOf_not c)
    · simp only [Client.Expr.result?]
      cases operand.result? m db env.parameters nulls (Shape.fieldElements m env f scope) <;> rfl
  | .conditional test a b =>
    obtain ⟨c, u, ca, v, cb, tested, left, right, rfl⟩ := conditional_yields.1 h
    unfold ReadsAs at plain
    obtain ⟨plain', later⟩ := plain.2 _ _ tested
    obtain ⟨progress, seen⟩ := expr_progress test inScope visible tested
    have visible' := visible.later progress
    obtain ⟨progress', seen'⟩ := expr_progress a progress.inScope visible' left
    have visible'' := visible'.later progress'
    obtain ⟨middle', joined'⟩ := earlier_joined (expr_progress b progress'.inScope visible'' right).1 all'
    obtain ⟨middle, joined⟩ := earlier_joined progress' joined'
    have leads' := leads.earlier (expr_navigations right).1
    have first := expr_grows (leads'.earlier (expr_navigations left).1) inScope visible plain.1 tested given
      all joined
    have given' := given_grown visible all given first
    have second := expr_grows leads' progress.inScope visible' plain' left given' joined joined'
    have third := expr_grows leads progress'.inScope visible'' (later _ _ left) right
      (given_grown visible' joined given' second) joined' all'
    have both := first.expr visible all (fun f member g => element_grown seen joined member) second
    have every := both.expr visible all (fun f member g more => ?_) third
    · refine (every.map (fun ((x, y), z) =>
        .scalar (x.value?.bind fun v => if v.isTrue then y.value? else z.value?)) fun g _ => ?_).congr fun f _ => ?_
      · exact congrArg Element.scalar (valueOf_case c ca cb)
      · simp only [Client.Expr.result?]
        cases test.result? m db env.parameters nulls (Shape.fieldElements m env f scope) <;>
          cases a.result? m db env.parameters nulls (Shape.fieldElements m env f scope) <;>
          cases b.result? m db env.parameters nulls (Shape.fieldElements m env f scope) <;> rfl
    · rw [element_grown (fun l here => progress'.labels (seen l here)) joined' member more,
        element_grown seen' joined' member more]
  | .new type args bindings =>
    obtain ⟨-, fs, fields, rfl⟩ := new_yields.1 h
    unfold ReadsAs at plain
    have first := fieldList_grows leads inScope visible plain fields given all all'
    refine (first.map Element.record fun g _ => rfl).congr fun f _ => ?_
    simp only [Client.Expr.result?]
    cases fieldResults? m db env.parameters nulls (Shape.fieldElements m env f scope) bindings <;> rfl

theorem fieldList_grows {bs : List (Binding Expr)} {whole : Expr} {fs : List (String × Shape)} {w w' : Workspace}
    {frames later : List Frame} (leads : w'.Leads m db K) (inScope : Scoped w (w.select source))
    (visible : scope.Reads (w.select source).labels) (plain : BindingsReadAs m nulls scope bs w)
    (h : Step.Yields (fieldList m scope whole bs) w fs w')
    (given : ∀ f ∈ frames, ∀ p ∈ Shape.fieldElements m env f scope, p.2.Within K)
    (all : joinedFrames db env (w.select source) = .ok frames)
    (all' : joinedFrames db env (w'.select source) = .ok later) :
    Returns frames later (fun g => Shape.fieldElements m env g fs) fun f =>
      fieldResults? m db env.parameters nulls (Shape.fieldElements m env f scope) bs := by
  match bs with
  | [] =>
    obtain ⟨rfl, rfl⟩ := noFields_yields.1 h
    obtain rfl := Except.ok.inj (all.symm.trans all')
    exact .refl fun f member => rfl
  | .assign member value :: rest =>
    unfold fieldList at h
    obtain ⟨f, v, here, h⟩ := Step.yields_bind.1 h
    obtain ⟨others, _, behind, h⟩ := Step.yields_bind.1 h
    obtain ⟨rfl, rfl⟩ := Step.yields_pure.1 h
    obtain ⟨plain, later⟩ := plain
    have plain' := later whole f v here
    unfold field at here
    obtain ⟨s, _, planned, h⟩ := Step.yields_bind.1 here
    obtain ⟨rfl, rfl⟩ := Step.yields_pure.1 h
    obtain ⟨progress, seen⟩ := expr_progress value inScope visible planned
    have visible' := visible.later progress
    obtain ⟨after, -⟩ :=
      (carries_progress m source).fieldList rest (fun _ _ => trivial) progress.inScope visible' behind
    obtain ⟨middle, joined⟩ := earlier_joined after all'
    have first := expr_grows (leads.earlier (fieldList_navigations behind)) inScope visible plain planned given
      all joined
    have second := fieldList_grows leads progress.inScope visible' plain' behind
      (given_grown visible all given first) joined all'
    -- the later fields are evaluated in frames that the joins of the first have grown
    have both := first.both second (fun f here g more => ?_) fun f here g => element_grown seen joined here
    · refine (both.map (fun (x, fs) => (member, x) :: fs) fun g _ => rfl).congr fun f _ => ?_
      simp only [fieldResults?, fieldResult?]
      cases value.result? m db env.parameters nulls (Shape.fieldElements m env f scope) <;>
        cases fieldResults? m db env.parameters nulls (Shape.fieldElements m env f scope) rest <;> rfl
    · rw [fieldElements_grown visible all here more]
  | .items .. :: rest => exact absurd h not_items_yields

end

end Planning

end Setwise
