import Setwise.Proofs.Exposure
import Setwise.Proofs.KeyEquality

/-!
Labels during planning.

The sources of a select have different labels, all of which are in use, and what is planned against the
select reads no others. Navigations that are remembered from one of these labels have been joined behind the
source with that label. Reading an expression keeps all that and adds joins under labels that were not in
use (`expr_progress`).
-/

set_option autoImplicit false

namespace Setwise

open Relational Execution

namespace Planning

open Client

/-! ## Labels of keys -/

theorem sources_both {condition : Option Scalar} {e : Scalar} {l : String}
    (h : l ∈ (Scalar.both condition e).sources) : (∃ c ∈ condition, l ∈ c.sources) ∨ l ∈ e.sources := by
  cases condition with
  | none => exact .inr h
  | some c => simpa [Scalar.both, Scalar.sources] using h

namespace Shape

theorem scalars_sources {subject : Subject} {s : Shape} {es : List Scalar}
    (h : scalars subject s = .ok es) {e : Scalar} (inside : e ∈ es) {l : String} (member : l ∈ e.sources) :
    l ∈ s.labels := by
  induction s using Shape.induction generalizing es with
  | scalar a =>
    obtain rfl := Except.ok.inj h
    obtain rfl := List.mem_singleton.1 inside
    exact member
  | record fields ih =>
    unfold scalars at h
    unfold labels
    -- the leaves of a record are those of its fields in turn
    induction fields generalizing es with
    | nil =>
      obtain rfl := Except.ok.inj h
      cases inside
    | cons f rest later =>
      obtain ⟨name, s⟩ := f
      obtain ⟨first, others⟩ := List.forall_mem_cons.1 ih
      obtain ⟨here, hs, h⟩ := bind_eq_ok.1 h
      obtain ⟨behind, hr, h⟩ := bind_eq_ok.1 h
      obtain rfl := pure_eq_ok.1 h
      unfold fieldsLabels fieldLabels
      rcases List.mem_append.1 inside with inside | inside
      · exact List.mem_append_left _ (first hs inside)
      · exact List.mem_append_right _ (later others inside hr)
  | grouping key ih => exact ih h inside
  | entity r => exact absurd h (not_fail_eq_ok _ _)
  | excluded name columns => exact absurd h (not_fail_eq_ok _ _)

end Shape

/-! ## What planning keeps -/

/-- All labels that the workspace remembers are in use. -/
def Workspace.Sound (w : Workspace) : Prop :=
  ∀ entry ∈ w.navigations, entry.1.1 ∈ w.labels ∧ entry.2 ∈ w.labels

/-- The sources of a select have different labels, which are in use, and every navigation that is remembered
from one of them has been joined behind it. -/
structure Scoped (w : Workspace) (s : Select) : Prop where
  sound : w.Sound
  distinct : s.labels.Nodup
  known : ∀ l ∈ s.labels, l ∈ w.labels
  joined : ∀ entry ∈ w.navigations, entry.1.1 ∈ s.labels →
    ∃ before j after, s.joins = before ++ j :: after ∧ j.source.label = entry.2 ∧
      entry.1.1 ∈ s.source.label :: joinLabels before

/-- From one workspace to another, labels are added, and navigations from the given labels or from labels
that were not in use. -/
structure Workspace.Grows (own : List String) (w w' : Workspace) : Prop where
  labels : ∀ l ∈ w.labels, l ∈ w'.labels
  navigations : ∀ entry ∈ w'.navigations,
    entry ∈ w.navigations ∨ entry.1.1 ∈ own ∨ entry.1.1 ∉ w.labels

theorem Workspace.Grows.refl (own : List String) (w : Workspace) : w.Grows own w :=
  ⟨fun _ h => h, fun _ h => .inl h⟩

theorem Workspace.Grows.trans {own later : List String} {u v w : Workspace} (first : u.Grows own v)
    (second : v.Grows later w) (h : ∀ l ∈ later, l ∈ own ∨ l ∉ u.labels) : u.Grows own w where
  labels := fun l member => second.labels l (first.labels l member)
  navigations := fun entry member => by
    rcases second.navigations entry member with before | inside | new
    · exact first.navigations entry before
    · exact .inr (h _ inside)
    · exact .inr (.inr fun old => new (first.labels _ old))

theorem Scoped.meanwhile {w w' : Workspace} {s : Select} {own : List String} (inScope : Scoped w s)
    (grows : w.Grows own w') (sound : w'.Sound) (apart : ∀ l ∈ s.labels, l ∉ own) : Scoped w' s where
  sound := sound
  distinct := inScope.distinct
  known := fun l member => grows.labels l (inScope.known l member)
  joined := fun entry member inside => by
    rcases grows.navigations entry member with before | there | new
    · exact inScope.joined entry before inside
    · exact absurd there (apart _ inside)
    · exact absurd (inScope.known _ inside) new

theorem Scoped.of_sources {w : Workspace} {s t : Select} (inScope : Scoped w s) (source : t.source = s.source)
    (joins : t.joins = s.joins) : Scoped w t := by
  obtain ⟨sound, distinct, known, joined⟩ := inScope
  simp only [Select.labels] at distinct known joined
  rw [← source, ← joins] at distinct known joined
  exact ⟨sound, distinct, known, joined⟩

/-- A source under a label without navigations joins a select. -/
theorem Scoped.join {w : Workspace} {s : Select} (inScope : Scoped w s) (j : Join Select)
    (known : j.source.label ∈ w.labels) (apart : j.source.label ∉ s.labels)
    (unread : ∀ entry ∈ w.navigations, entry.1.1 ≠ j.source.label) :
    Scoped w { s with joins := s.joins ++ [j] } where
  sound := inScope.sound
  distinct := by
    have old := inScope.distinct
    simp only [Select.labels, joinLabels_append] at old apart ⊢
    rw [← List.cons_append, List.nodup_append]
    refine ⟨old, List.pairwise_singleton _ _, fun a ha b hb => ?_⟩
    obtain rfl : b = j.source.label := List.mem_singleton.1 hb
    rintro rfl
    exact apart ha
  known := fun l member => by
    simp only [Select.labels, joinLabels_append, ← List.cons_append, List.mem_append] at member
    rcases member with old | new
    · exact inScope.known l old
    · exact List.mem_singleton.1 new ▸ known
  joined := fun entry member inside => by
    simp only [Select.labels, joinLabels_append, ← List.cons_append, List.mem_append] at inside
    rcases inside with old | new
    · obtain ⟨before, k, after, split, same, visible⟩ := inScope.joined entry member old
      exact ⟨before, k, after ++ [j], by simp [split], same, visible⟩
    · exact absurd (List.mem_singleton.1 new) (unread entry member)

def Workspace.select (w : Workspace) (source : Source) : Select :=
  { source, joins := w.joins }

structure Progress (source : Source) (w w' : Workspace) : Prop where
  inScope : Scoped w' (w'.select source)
  joins : ∃ more, w'.joins = w.joins ++ more ∧ ∀ l ∈ joinLabels more, l ∉ w.labels
  grows : w.Grows (w.select source).labels w'
  still : w'.joins = w.joins → w' = w

theorem Progress.refl {source : Source} {w : Workspace} (inScope : Scoped w (w.select source)) :
    Progress source w w where
  inScope := inScope
  joins := ⟨[], by simp, fun _ h => nomatch h⟩
  grows := .refl _ _
  still := fun _ => rfl

theorem Progress.labels {source : Source} {w w' : Workspace} (h : Progress source w w') {l : String}
    (member : l ∈ (w.select source).labels) : l ∈ (w'.select source).labels := by
  obtain ⟨more, joins, -⟩ := h.joins
  simp only [Workspace.select, Select.labels, joins, joinLabels_append, List.mem_cons,
    List.mem_append] at member ⊢
  exact member.imp_right .inl

theorem Progress.trans {source : Source} {u v w : Workspace} (first : Progress source u v)
    (second : Progress source v w) : Progress source u w := by
  obtain ⟨more, joins, fresh⟩ := first.joins
  obtain ⟨others, joins', fresh'⟩ := second.joins
  refine ⟨second.inScope, ⟨more ++ others, by rw [joins', joins, List.append_assoc], ?_⟩, ?_, ?_⟩
  · intro l member
    rw [joinLabels_append] at member
    rcases List.mem_append.1 member with here | later
    · exact fresh l here
    · exact fun old => fresh' l later (first.grows.labels l old)
  · refine first.grows.trans second.grows fun l member => ?_
    simp only [Workspace.select, Select.labels, joins, joinLabels_append, List.mem_cons,
      List.mem_append] at member ⊢
    rcases member with rfl | old | new
    · exact .inl (.inl rfl)
    · exact .inl (.inr old)
    · exact .inr (fresh l new)
  · intro same
    obtain ⟨rfl, rfl⟩ : more = [] ∧ others = [] := by simpa [joins', joins] using same
    rw [second.still (by simp [joins']), first.still (by simp [joins])]

/-! ## Expressions -/

theorem follow_progress {m : Model} {owner : Entity} {r : EntityView} {n : Navigation}
    {foreignKey principalKey : List String} {required : Bool} {source : Source} {w w' : Workspace}
    {t : Shape} (inScope : Scoped w (w.select source)) (visible : r.label ∈ (w.select source).labels)
    (h : Step.Yields (follow m owner r n foreignKey principalKey required) w t w') :
    Progress source w w' ∧ ∀ l ∈ t.labels, l ∈ (w'.select source).labels := by
  obtain ⟨label, rfl, ⟨found, rfl⟩ | ⟨fresh, target, on, -, -, rfl⟩⟩ := follow_yields h
  · refine ⟨.refl inScope, fun l member => ?_⟩
    obtain rfl := List.mem_singleton.1 member
    obtain ⟨before, j, after, split, same, -⟩ := inScope.joined _ (mem_of_lookup found) visible
    refine List.mem_cons_of_mem _ (List.mem_map.2 ⟨j, ?_, same⟩)
    simp [split]
  -- the target is joined under a new label, from which nothing has been navigated yet
  · have apart : label ∉ (w.select source).labels := fun inside => fresh (inScope.known _ inside)
    have unread : ∀ entry ∈ w.navigations, entry.1.1 ≠ label := fun entry member same =>
      fresh (same ▸ (inScope.sound entry member).1)
    have grows : w.Grows [] { w with labels := w.labels ++ [label] } :=
      ⟨fun _ => List.mem_append_left _, fun _ old => .inl old⟩
    have sound : ({ w with labels := w.labels ++ [label] } : Workspace).Sound := fun entry member =>
      (inScope.sound entry member).imp (List.mem_append_left _) (List.mem_append_left _)
    have grown := (inScope.meanwhile grows sound fun _ _ h => nomatch h).join
      (referenceJoin target label required on) (List.mem_append_right _ (List.mem_singleton_self _)) apart
      unread
    refine ⟨⟨?_, ⟨[_], rfl, ?_⟩, ?_, fun same => by simp at same⟩, ?_⟩
    · refine ⟨fun entry member => ?_, grown.distinct, grown.known, fun entry member inside => ?_⟩
      · rcases List.mem_cons.1 member with rfl | old
        · exact ⟨List.mem_append_left _ (inScope.known _ visible),
            List.mem_append_right _ (List.mem_singleton_self _)⟩
        · exact grown.sound entry old
      · rcases List.mem_cons.1 member with rfl | old
        · exact ⟨w.joins, _, [], rfl, rfl, visible⟩
        · exact grown.joined entry old inside
    · intro l member
      obtain rfl := List.mem_singleton.1 member
      exact fresh
    · refine ⟨fun l member => List.mem_append_left _ member, fun entry member => ?_⟩
      rcases List.mem_cons.1 member with rfl | old
      · exact .inr (.inl visible)
      · exact .inl old
    · intro l member
      obtain rfl := List.mem_singleton.1 member
      simp [Workspace.select, Select.labels, joinLabels, referenceJoin, RowSource.label]

theorem staticMember?_labels {m : Model} {s t : Shape} {name : String}
    (h : s.staticMember? m name = some t) : ∀ l ∈ t.labels, l ∈ s.labels := by
  cases Shape.StaticMember.of_found h with
  | property | part | key | proposed | proposedPart => exact fun _ => id
  | field found => exact fun l member => Shape.mem_fieldsLabels.2 ⟨_, mem_of_lookup found, member⟩

theorem readMember_progress {m : Model} {s t : Shape} {name : String} {whole : Expr} {source : Source}
    {w w' : Workspace} (inScope : Scoped w (w.select source))
    (visible : ∀ l ∈ s.labels, l ∈ (w.select source).labels)
    (h : Step.Yields (readMember m s name whole) w t w') :
    Progress source w w' ∧ ∀ l ∈ t.labels, l ∈ (w'.select source).labels := by
  obtain ⟨member, rfl⟩ | ⟨r, owner, n, foreignKey, principalKey, required, ⟨rfl, -⟩, run⟩ :=
    readMember_yields h
  · exact ⟨.refl inScope, fun l inside => visible l (staticMember?_labels member l inside)⟩
  · exact follow_progress inScope (visible _ (List.mem_singleton_self _)) run

theorem ofOperands_sources (m : Model) (labels : List String) :
    OfOperands m (fun s => s.labels ⊆ labels) (fun s => s.labels ⊆ labels) (fun c => c.sources ⊆ labels) where
  binary := fun _ left right => List.append_subset.2 ⟨left, right⟩
  testLeft := fun h => ⟨h, h⟩
  testRight := fun h => ⟨h, h⟩
  columns := fun left right _ _ _ => List.append_subset.2 ⟨left, right⟩
  leftFields := fun h f member _ inside => h (Shape.mem_fieldsLabels.2 ⟨f, member, inside⟩)
  rightFields := fun h f member _ inside => h (Shape.mem_fieldsLabels.2 ⟨f, member, inside⟩)
  both := fun left right => List.append_subset.2 ⟨left, right⟩
  not := id

theorem shapeOperator_sources {m : Model} {s t : Shape} {op : Operator} {whole : Expr} {e : Scalar}
    (h : shapeOperator m s op t whole = .ok e) {l : String} (member : l ∈ e.sources) :
    l ∈ s.labels ∨ l ∈ t.labels := by
  have closed := ofOperands_sources m (s.labels ++ t.labels)
  have inside := closed.operator (List.subset_append_left _ _) (List.subset_append_right _ _) h
  exact List.mem_append.1 (inside member)

def Scope.Reads (scope : Scope) (visible : List String) : Prop :=
  ∀ p ∈ scope, ∀ l ∈ p.2.labels, l ∈ visible

theorem Scope.Reads.later {scope : Scope} {source : Source} {w w' : Workspace}
    (reads : scope.Reads (w.select source).labels) (progress : Progress source w w') :
    scope.Reads (w'.select source).labels :=
  fun p member l inside => progress.labels (reads p member l inside)

theorem carries_progress (m : Model) (source : Source) :
    Carries m (fun _ => True) (fun w => Scoped w (w.select source)) (Progress source)
      (fun w s => ∀ l ∈ s.labels, l ∈ (w.select source).labels) where
  refl := .refl
  trans := .trans
  stays := Progress.inScope
  keeps := fun progress reads l member => progress.labels (reads l member)
  constant := fun _ _ h => nomatch h
  runtime := fun _ _ h => nomatch h
  member := readMember_progress
  operator := fun left right applied l member => (shapeOperator_sources applied member).elim (left l) (right l)
  not := id
  case := fun tested left right l member => by
    simp only [Shape.labels, Scalar.sources, List.mem_append] at member
    rcases member with (test | first) | second
    · exact tested l test
    · exact left l first
    · exact right l second
  record := fun fields l member => by
    obtain ⟨f, inside, here⟩ := Shape.mem_fieldsLabels.1 member
    exact fields f inside l here

/-- Planning an expression keeps the labels of the select in scope, and what is planned reads no others. -/
theorem expr_progress {m : Model} {scope : Scope} {source : Source} {w w' : Workspace} {s : Shape}
    (e : Expr) (inScope : Scoped w (w.select source)) (visible : scope.Reads (w.select source).labels)
    (h : Step.Yields (expr m scope e) w s w') :
    Progress source w w' ∧ ∀ l ∈ s.labels, l ∈ (w'.select source).labels :=
  (carries_progress m source).expr e (fun _ _ => trivial) inScope visible h

end Planning

end Setwise
