import Setwise.Proofs.ReplayedRuns
import Setwise.Proofs.VisibleShapes

/-!
Where visible shapes are planned.

A select stands on its tables when its joins are well scoped, every remembered navigation from one of its labels
has been joined to a source with the columns of the target, and the elements at hand can be read behind its
sources (`Stands`). Planning an expression keeps that up (`Stands.against`), and so does what is planned in between
or elsewhere.
-/

set_option autoImplicit false

namespace Setwise

open Client Relational Execution

/-! ## Contexts of selects -/

namespace Relational

variable {I : Interface}

theorem entry_label (s : Source) : (Source.entry I s).1 = s.label := by
  cases s <;> rfl

theorem labels_context (s : Select) : (s.context I).map Prod.fst = s.labels := by
  simp only [Select.context, Join.entries, Select.labels, joinLabels, List.map_cons, List.map_map]
  refine List.cons_eq_cons.2 ⟨entry_label _, List.map_congr_left fun j _ => entry_label j.source⟩

theorem entries_append (js ks : List (Join Select)) :
    Join.entries I (js ++ ks) = Join.entries I js ++ Join.entries I ks :=
  List.map_append

theorem context_joined (s : Select) (js : List (Join Select)) :
    ({ s with joins := s.joins ++ js } : Select).context I = s.context I ++ Join.entries I js := by
  simp only [Select.context, entries_append, List.cons_append]

theorem Outlook.within_of_prefix {Γ Δ : Context} (more : Γ <+: Δ) (incoming : List String) :
    (I.view Γ incoming).Within (I.view Δ incoming) := by
  obtain ⟨rest, rfl⟩ := more
  exact Outlook.within_append Γ rest incoming I.scalars

theorem Outlook.within_last {Γ : Context} {entry : String × List String} (new : entry.1 ∉ Γ.map Prod.fst)
    (incoming : List String) : (I.view [entry] incoming).Within (I.view (Γ ++ [entry]) incoming) where
  columns := by
    rintro label column ⟨columns, found, member⟩
    obtain ⟨rfl, rfl⟩ := Prod.mk.inj (List.mem_singleton.1 (Planning.mem_of_lookup found))
    exact Context.shows_last new member
  incoming := List.Subset.refl _
  scalars := fun _ => id

theorem Join.WellScoped.append {Γ : Context} {js : List (Join Select)} (h : Join.WellScoped I Γ js)
    {j : Join Select} (source : Source.WellScoped I j.source)
    (on : ∀ e ∈ j.on, e.Visible (I.view (Γ ++ Join.entries I js ++ [Source.entry I j.source]) [])) :
    Join.WellScoped I Γ (js ++ [j]) := by
  induction js generalizing Γ with
  | nil =>
    rw [Join.entries, List.map_nil, List.append_nil] at on
    exact .cons source on (.nil _)
  | cons k rest ih =>
    cases h with
    | cons source' on' later =>
      refine .cons source' on' (ih later ?_)
      rwa [List.append_assoc _ _ (Join.entries I rest)]

end Relational

namespace Planning

/-! ## Models on tables -/

def Refers (m : Model) (name target : String) : Prop :=
  ∃ e ∈ m.entities, ∃ n ∈ e.navigations, n.isOwned = false ∧ n.name = name ∧ n.target = target

/-- The entity types have tables with all their columns, and references of one name have one target. -/
structure Tabled (m : Model) (I : Interface) : Prop where
  finite : Finite m
  tables : ∀ name e, m.entity? name = some e →
    ∃ columns, I.tables e.table = some columns ∧ m.columnsOf name ⊆ columns
  targets : ∀ name a b, Refers m name a → Refers m name b → a = b

/-! ## Navigations and their joins -/

/-- The sources of a select are well scoped, and a navigation that is remembered from one of its labels has been
joined to a source with the columns of the target. -/
structure Grounded (I : Interface) (m : Model) (w : Workspace) (s : Select) : Prop where
  source : Source.WellScoped I s.source
  joins : Join.WellScoped I [Source.entry I s.source] s.joins
  targets : ∀ entry ∈ w.navigations, entry.1.1 ∈ s.labels → ∀ target, Refers m entry.1.2 target →
    ∀ c ∈ m.columnsOf target, (s.context I).Shows entry.2 c

section

variable {I : Interface} {m : Model} {incoming : List String} {w w' : Workspace} {s t : Select}

theorem Grounded.of_sources (grounded : Grounded I m w s) (source : t.source = s.source)
    (joins : t.joins = s.joins) : Grounded I m w t := by
  have context : t.context I = s.context I := by simp only [Select.context, source, joins]
  have labels : t.labels = s.labels := by simp only [Select.labels, source, joins]
  refine ⟨by rw [source]; exact grounded.source, by rw [source, joins]; exact grounded.joins, ?_⟩
  rw [context, labels]
  exact grounded.targets

theorem Grounded.meanwhile {own : List String} (grounded : Grounded I m w s) (inScope : Scoped w s)
    (grows : w.Grows own w') (apart : ∀ l ∈ s.labels, l ∉ own) : Grounded I m w' s where
  source := grounded.source
  joins := grounded.joins
  targets := fun entry member inside => by
    rcases grows.navigations entry member with before | there | new
    · exact grounded.targets entry before inside
    · exact absurd there (apart _ inside)
    · exact absurd (inScope.known _ inside) new

/-- A source without navigations joins a select. -/
theorem Grounded.join (grounded : Grounded I m w s) {j : Join Select} (source : Source.WellScoped I j.source)
    (on : ∀ e ∈ j.on, e.Visible (I.view (s.context I ++ [Source.entry I j.source]) []))
    (unread : ∀ entry ∈ w.navigations, entry.1.1 ≠ j.source.label) :
    Grounded I m w { s with joins := s.joins ++ [j] } where
  source := grounded.source
  joins := grounded.joins.append source on
  targets := fun entry member inside => by
    simp only [Select.labels, joinLabels_append, ← List.cons_append, List.mem_append] at inside
    rw [context_joined]
    rcases inside with old | new
    · exact fun target refers c column => (grounded.targets entry member old target refers c column).append _
    · exact absurd (List.mem_singleton.1 new) (unread entry member)

theorem follow_grounded (tabled : Tabled m I) {owner : Entity} {r : EntityView} {n : Navigation}
    {foreignKey principalKey : List String} {required : Bool} {source : Source} {shape : Shape}
    (inScope : Scoped w (w.select source)) (grounded : Grounded I m w (w.select source))
    (entity : m.entity? r.entity = some owner) (refers : Refers m n.name n.target)
    (label : r.label ∈ (w.select source).labels)
    (visible : (Shape.entity r).Visible m (I.view ((w.select source).context I) []))
    (h : Step.Yields (follow m owner r n foreignKey principalKey required) w shape w') :
    Grounded I m w' (w'.select source) ∧
      shape.Visible m (I.view ((w'.select source).context I) incoming) := by
  obtain ⟨new, rfl, ⟨found, rfl⟩ | ⟨fresh, target, on, known, condition, rfl⟩⟩ := follow_yields h
  · exact ⟨grounded, grounded.targets _ (mem_of_lookup found) label n.target refers⟩
  · obtain ⟨columns, stored, own⟩ := tabled.tables n.target target known
    have entry : Source.entry I (referenceJoin target new required on).source = (new, columns) := by
      simp only [referenceJoin, Source.entry, stored, Option.getD_some]
    -- the target is shown under a label that the context does not have yet
    have apart : new ∉ ((w.select source).context I).map Prod.fst := by
      rw [labels_context]
      exact fun inside => fresh (inScope.known _ inside)
    have reads : ∀ c ∈ m.columnsOf n.target,
        Context.Shows ((w.select source).context I ++ [(new, columns)]) new c :=
      fun c column => Context.shows_last apart (own column)
    have wider := Outlook.within_append ((w.select source).context I) [(new, columns)] [] I.scalars
    have nothing : ∀ c ∈ (none : Option Scalar), c.Visible (I.view ((w.select source).context I ++
        [(new, columns)]) []) := by simp
    have joined := referenceCondition_visible entity (visible.mono wider) known reads nothing condition
    have unread : ∀ e ∈ w.navigations, e.1.1 ≠ new := fun e member same =>
      fresh (same ▸ (inScope.sound e member).1)
    have grown := grounded.join (j := referenceJoin target new required on) (.table stored) (by rwa [entry]) unread
    have context := context_joined (I := I) (w.select source) [referenceJoin target new required on]
    rw [Join.entries, List.map_singleton, entry] at context
    rw [← context] at reads
    refine ⟨⟨grown.source, grown.joins, fun e member inside => ?_⟩, reads⟩
    -- a remembered navigation is the new one or an old one, and every label has one type
    rcases List.mem_cons.1 member with rfl | old
    · intro other refers' c column
      exact reads c (tabled.targets _ _ _ refers' refers ▸ column)
    · exact grown.targets e old inside

theorem readMember_grounded (tabled : Tabled m I) {source : Source} {shape result : Shape} {name : String}
    {whole : Expr} (inScope : Scoped w (w.select source)) (grounded : Grounded I m w (w.select source))
    (labels : ∀ l ∈ shape.labels, l ∈ (w.select source).labels)
    (visible : shape.Visible m (I.view ((w.select source).context I) incoming))
    (h : Step.Yields (readMember m shape name whole) w result w') :
    Grounded I m w' (w'.select source) ∧
      result.Visible m (I.view ((w'.select source).context I) incoming) := by
  obtain ⟨member, rfl⟩ | ⟨r, owner, n, foreignKey, principalKey, required, reference, run⟩ := readMember_yields h
  · exact ⟨grounded, Shape.staticMember?_visible tabled.finite visible member⟩
  · obtain ⟨rfl, entity, -, navigation, kind⟩ := reference
    have refers : Refers m n.name n.target :=
      ⟨owner, List.mem_of_find?_eq_some entity, n, List.mem_of_find?_eq_some navigation,
        by simp [Navigation.isOwned, kind], rfl, rfl⟩
    exact follow_grounded tabled inScope grounded entity refers (labels _ (List.mem_singleton_self _)) visible run

/-! ## Planning expressions -/

theorem Progress.context {source : Source} (progress : Progress source w w') :
    (w.select source).context I <+: (w'.select source).context I := by
  obtain ⟨more, joins, -⟩ := progress.joins
  refine ⟨Join.entries I more, ?_⟩
  simp only [Workspace.select, Select.context, joins, entries_append, List.cons_append]

theorem carries_visible (tabled : Tabled m I) (incoming : List String) (source : Source) :
    Carries m I.scalars (fun w => Scoped w (w.select source) ∧ Grounded I m w (w.select source))
      (fun w w' => Progress source w w' ∧ Grounded I m w' (w'.select source))
      (fun w s => (∀ l ∈ s.labels, l ∈ (w.select source).labels) ∧
        s.Visible m (I.view ((w.select source).context I) incoming)) :=
  have labels := carries_progress m source
  { refl := fun ⟨inScope, grounded⟩ => ⟨.refl inScope, grounded⟩
    trans := fun ⟨first, _⟩ ⟨second, grounded⟩ => ⟨first.trans second, grounded⟩
    stays := fun ⟨progress, grounded⟩ => ⟨progress.inScope, grounded⟩
    keeps := fun ⟨progress, _⟩ ⟨reads, visible⟩ =>
      ⟨labels.keeps progress reads, visible.mono (Outlook.within_of_prefix progress.context incoming)⟩
    constant := fun v => ⟨labels.constant v, trivial⟩
    runtime := fun known => ⟨labels.runtime trivial, known⟩
    member := fun ⟨inScope, grounded⟩ ⟨reads, visible⟩ h => by
      obtain ⟨progress, reads'⟩ := labels.member inScope reads h
      obtain ⟨grounded', visible'⟩ := readMember_grounded tabled inScope grounded reads visible h
      exact ⟨⟨progress, grounded'⟩, reads', visible'⟩
    operator := fun ⟨reads, left⟩ ⟨reads', right⟩ h =>
      ⟨labels.operator reads reads' h, (ofOperands_visible m _).operator left right h⟩
    not := id
    case := fun ⟨reads, tested⟩ ⟨reads', left⟩ ⟨reads'', right⟩ =>
      ⟨labels.case reads reads' reads'', tested, left, right⟩
    record := fun fields => ⟨labels.record fun f member => (fields f member).1,
      Shape.visible_record.2 fun f member => (fields f member).2⟩ }

theorem closed_sources {e : Expr} {shape : Shape} (h : Step.Yields (expr m [] e) w shape w') :
    shape.labels = [] := by
  -- without parameters in scope there is no row to read, so no label ever appears
  have closed : Carries m (fun _ => True) (fun _ => True) (fun _ _ => True) fun _ s => s.labels = [] :=
    { refl := fun _ => trivial
      trans := fun _ _ => trivial
      stays := fun _ => trivial
      keeps := fun _ none => none
      constant := fun _ => rfl
      runtime := fun _ => rfl
      member := fun {_ _ s t name _} _ none h => by
        refine ⟨trivial, ?_⟩
        obtain ⟨member, -⟩ | ⟨r, _, _, _, _, _, ⟨rfl, -⟩, -⟩ := readMember_yields h
        · exact List.eq_nil_iff_forall_not_mem.2 fun l inside => by
            simpa [none] using staticMember?_labels member l inside
        · cases none
      operator := fun left right h => List.eq_nil_iff_forall_not_mem.2 fun l inside => by
        simpa [left, right] using shapeOperator_sources h inside
      not := id
      case := fun tested left right => by
        simp only [Shape.labels, Scalar.sources] at tested left right ⊢
        simp [tested, left, right]
      record := fun fields => List.eq_nil_iff_forall_not_mem.2 fun l inside => by
        obtain ⟨f, member, here⟩ := Shape.mem_fieldsLabels.1 inside
        simp [fields f member] at here }
  exact (closed.expr e (fun _ _ => trivial) trivial (by simp) h).2

theorem visible_of_closed {Γ : Context} {e : Scalar} (none : e.sources = [])
    (h : e.Visible (I.view Γ [])) : e.Visible (I.view [] []) := by
  induction e with
  | column source name => cases none
  | constant v => trivial
  | parameter name => exact h
  | binary l op r ihl ihr =>
    obtain ⟨left, right⟩ := List.append_eq_nil_iff.1 none
    exact ⟨ihl left h.1, ihr right h.2⟩
  | not e ih | isNull e ih | isNotNull e ih => exact ih none h
  | case test a b iht iha ihb =>
    simp only [Scalar.sources, List.append_eq_nil_iff] at none
    exact ⟨iht none.1.1 h.1, iha none.1.2 h.2.1, ihb none.2 h.2.2⟩
  | excluded name => exact absurd h List.not_mem_nil

end

/-! ## Selects and the elements at hand -/

/-- A select stands on its tables, and elements of the given shapes can be read behind its sources. -/
structure Stands (I : Interface) (m : Model) (incoming : List String) (w : Workspace) (s : Select)
    (shapes : List Shape) : Prop where
  inScope : Scoped w s
  grounded : Grounded I m w s
  labels : ∀ σ ∈ shapes, ∀ l ∈ σ.labels, l ∈ s.labels
  visible : ∀ σ ∈ shapes, σ.Visible m (I.view (s.context I) incoming)

section

variable {I : Interface} {m : Model} {incoming : List String} {w w' : Workspace} {s s' : Select}
  {shapes : List Shape}

theorem Stands.subset (stands : Stands I m incoming w s shapes) {some : List Shape} (among : some ⊆ shapes) :
    Stands I m incoming w s some :=
  ⟨stands.inScope, stands.grounded, fun σ member => stands.labels σ (among member),
    fun σ member => stands.visible σ (among member)⟩

theorem Stands.of_sources (stands : Stands I m incoming w s shapes) (source : s'.source = s.source)
    (joins : s'.joins = s.joins) : Stands I m incoming w s' shapes := by
  have context : s'.context I = s.context I := by simp only [Select.context, source, joins]
  have labels : s'.labels = s.labels := by simp only [Select.labels, source, joins]
  refine ⟨stands.inScope.of_sources source joins, stands.grounded.of_sources source joins, ?_, ?_⟩
  · rw [labels]
    exact stands.labels
  · rw [context]
    exact stands.visible

theorem Stands.meanwhile {own : List String} (stands : Stands I m incoming w s shapes) (grows : w.Grows own w')
    (sound : w'.Sound) (apart : ∀ l ∈ s.labels, l ∉ own) : Stands I m incoming w' s shapes :=
  ⟨stands.inScope.meanwhile grows sound apart, stands.grounded.meanwhile stands.inScope grows apart,
    stands.labels, stands.visible⟩

theorem Stands.aside (stands : Stands I m incoming w s shapes) (js : List (Join Select)) :
    Stands I m incoming { w with joins := js } s shapes :=
  have grows : w.Grows [] { w with joins := js } := ⟨fun _ => id, fun _ => .inl⟩
  stands.meanwhile grows stands.inScope.sound fun _ _ h => absurd h List.not_mem_nil

theorem Stands.single (sound : w.Sound) {source : Source} (wellScoped : Source.WellScoped I source)
    (fresh : source.label ∉ w.labels) {shape : Shape} (labels : ∀ l ∈ shape.labels, l = source.label)
    (visible : shape.Visible m (I.view [Source.entry I source] [])) :
    Stands I m [] { w with labels := w.labels ++ [source.label] } { source } [shape] where
  inScope := scoped_single sound fresh
  grounded := by
    refine ⟨wellScoped, .nil _, fun entry member inside => ?_⟩
    have same : entry.1.1 = source.label := List.mem_singleton.1 inside
    exact absurd (same ▸ (sound entry member).1) fresh
  labels := List.forall_mem_singleton.2 fun l member => List.mem_singleton.2 (labels l member)
  visible := List.forall_mem_singleton.2 visible

theorem Stands.with_incoming (stands : Stands I m [] w s shapes) (type : String) (columns : List String) :
    Stands I m columns w s (.excluded type columns :: shapes) where
  inScope := stands.inScope
  grounded := stands.grounded
  labels := List.forall_mem_cons.2 ⟨fun _ h => absurd h List.not_mem_nil, stands.labels⟩
  visible := by
    have within : (I.view (s.context I) []).Within (I.view (s.context I) columns) :=
      ⟨fun _ _ => id, List.nil_subset _, fun _ => id⟩
    exact List.forall_mem_cons.2 ⟨List.Subset.refl _, fun σ member => (stands.visible σ member).mono within⟩

theorem Stands.beside {source : Source} {others : List Shape} (outer : Stands I m [] w s shapes)
    (inner : Stands I m [] w { source } others) (apart : source.label ∉ s.labels) :
    ∀ σ ∈ shapes ++ others, σ.Visible m (I.view (s.context I ++ [Source.entry I source]) []) := by
  refine List.forall_mem_append.2 ⟨fun σ here => ?_, fun σ there => ?_⟩
  · exact (outer.visible σ here).mono (Outlook.within_append _ _ _ _)
  · refine (inner.visible σ there).mono (Outlook.within_last ?_ [])
    rwa [labels_context, entry_label]

theorem Stands.joined {source : Source} {others : List Shape} (outer : Stands I m [] w s shapes)
    (inner : Stands I m [] w { source } others) (apart : source.label ∉ s.labels) (kind : JoinKind)
    (on : Option Scalar) (condition : ∀ e ∈ on, e.Visible (I.view (s.context I ++ [Source.entry I source]) [])) :
    Stands I m [] w { s with joins := s.joins ++ [⟨kind, source, on⟩] } (shapes ++ others) where
  inScope := outer.inScope.join ⟨kind, source, on⟩ (inner.inScope.known _ (List.mem_singleton_self _)) apart
    inner.inScope.unread
  grounded := outer.grounded.join (j := ⟨kind, source, on⟩) inner.grounded.source condition inner.inScope.unread
  labels := fun σ member l inside => by
    simp only [Select.labels, joinLabels_append, ← List.cons_append, List.mem_append]
    rcases List.mem_append.1 member with here | there
    · exact .inl (outer.labels σ here l inside)
    · exact .inr (inner.labels σ there l inside)
  visible := by
    rw [context_joined]
    exact outer.beside inner apart

/-! ## Planning against a select that stands -/

def Bound (I : Interface) (e : Expr) : Prop :=
  ∀ name, Expr.runtime name ∈ e.parts → I.scalars name

/-- A select stands on what it stood on before, beside the shape of an expression that has been planned. -/
theorem Stands.against (tabled : Tabled m I) (stands : Stands I m incoming w s shapes) {scope : Scope} {e : Expr}
    (bound : Bound I e) (inside : ∀ p ∈ scope, p.2 ∈ shapes) {t : Shape}
    (h : Step.Yields (against s (expr m scope e)) w (t, s') w') :
    Stands I m incoming w' s' (t :: shapes) ∧ s.context I <+: s'.context I := by
  obtain ⟨run, rfl⟩ := against_yields.1 h
  let start : Workspace := { w with joins := s.joins }
  have aside := stands.aside s.joins
  have begun : Stands I m incoming start (start.select s.source) shapes := aside.of_sources rfl rfl
  obtain ⟨⟨progress, grounded⟩, labels, visible⟩ := (carries_visible tabled incoming s.source).expr e bound
    ⟨begun.inScope, begun.grounded⟩
    (fun p member => ⟨begun.labels _ (inside p member), begun.visible _ (inside p member)⟩) run
  have more : (start.select s.source).context I <+: (w'.select s.source).context I := progress.context
  have ended : Stands I m incoming w' (w'.select s.source) (t :: shapes) := by
    refine ⟨progress.inScope, grounded, List.forall_mem_cons.2 ⟨labels, fun σ member l here => ?_⟩,
      List.forall_mem_cons.2 ⟨visible, fun σ member => ?_⟩⟩
    · exact progress.labels (begun.labels σ member l here)
    · exact (begun.visible σ member).mono (Outlook.within_of_prefix more incoming)
  exact ⟨ended.of_sources rfl rfl, more⟩

theorem Stands.scalar (tabled : Tabled m I) (stands : Stands I m incoming w s shapes) {scope : Scope} {e : Expr}
    (bound : Bound I e) (inside : ∀ p ∈ scope, p.2 ∈ shapes) {c : Scalar}
    (h : Step.Yields (Planning.against s (scalar m scope e)) w (c, s') w') :
    Stands I m incoming w' s' (.scalar c :: shapes) ∧ s.context I <+: s'.context I := by
  obtain ⟨run, rfl⟩ := against_yields.1 h
  exact stands.against tabled bound inside (against_yields.2 ⟨scalar_yields.1 run, rfl⟩)

theorem Stands.standalone (tabled : Tabled m I) (stands : Stands I m incoming w s shapes) {scope : Scope}
    {e : Expr} {subject : Subject} (bound : Bound I e) (inside : ∀ p ∈ scope, p.2 ∈ shapes) {t : Shape}
    (h : Step.Yields (standalone m scope subject e) w t w') :
    Stands I m incoming w s (t :: shapes) ∧ w' = { w with joins := [] } := by
  obtain ⟨run, rfl⟩ := against_of_standalone h s
  obtain ⟨beside, -⟩ := stands.against tabled bound inside run
  exact ⟨beside.aside w.joins, rfl⟩

end

end Planning

end Setwise
