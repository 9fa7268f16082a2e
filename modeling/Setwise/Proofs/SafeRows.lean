import Mathlib.Data.List.Forall2
import Setwise.Proofs.Carrying
import Setwise.Proofs.Integrity
import Setwise.Proofs.WellScoped

/-!
Well-scoped selects read what is there.

A computation is safe when it fails with no error about a table, column, parameter or row that is not there
(`Safe`). A well-scoped expression is safe in every frame whose rows are as wide as their columns
(`eval_safe`), and by the recursion of the executor so is a well-scoped select, whose rows are again as
wide as its projection says (`selectRows_safe`).
-/

set_option autoImplicit false

namespace Setwise.Execution

open Relational

/-! ## Safe computations -/

/-- The error is about a table, column, parameter or row that is not there. -/
def Error.isOutOfScope : Error → Bool
  | table _ | parameter _ | unknownColumn .. | missingValue .. | unbound _ => true
  | row (.unknownColumn ..) | row (.noSuchRow ..) => true
  | row _ | evaluation _ | ambiguousMatch _ | invalidPaging _ => false

/-- The computation fails with no error out of scope, and what it gives has the property. -/
def Safe {α : Type} (x : Except Error α) (P : α → Prop) : Prop :=
  match x with
  | .ok a => P a
  | .error e => e.isOutOfScope = false

namespace Safe

variable {α β : Type} {P : α → Prop} {Q : β → Prop}

theorem pure {a : α} (h : P a) : Safe (Pure.pure a) P :=
  h

theorem bind {x : Except Error α} {f : α → Except Error β} (first : Safe x P)
    (rest : ∀ a, P a → Safe (f a) Q) : Safe (x >>= f) Q := by
  cases x with
  | error e => exact first
  | ok a => exact rest a first

theorem mono {x : Except Error α} {R : α → Prop} (h : Safe x P) (implies : ∀ a, P a → R a) : Safe x R := by
  cases x with
  | error e => exact h
  | ok a => exact implies a h

theorem and_ok {x : Except Error α} {R : α → Prop} (h : Safe x P) (result : ∀ a, x = .ok a → R a) :
    Safe x R := by
  cases x with
  | error e => exact h
  | ok a => exact result a rfl

theorem evaluation (x : Except Value.Error Value) : Safe (x.mapError .evaluation) fun _ => True := by
  cases x with
  | error e => exact rfl
  | ok v => trivial

end Safe

/-! ## What rows show -/

/-- A row is as wide as the columns that it shows, and shows those of an entry, unless the entry has none. -/
structure Fits (b : Visible) (entry : String × List String) : Prop where
  label : b.label = entry.1
  columns : entry.2 ≠ [] → b.columns = entry.2 ∧ b.values.length = entry.2.length

def FrameFits (Γ : Context) (f : Frame) : Prop :=
  List.Forall₂ Fits f Γ

theorem FrameFits.append {Γ Δ : Context} {f g : Frame} (first : FrameFits Γ f) (second : FrameFits Δ g) :
    FrameFits (Γ ++ Δ) (f ++ g) :=
  List.rel_append first second

theorem FrameFits.single {b : Visible} {entry : String × List String} (h : Fits b entry) :
    FrameFits [entry] [b] :=
  .cons h .nil

/-- The rows of a source are as wide as its columns, which are those of an entry, unless the entry has none. -/
structure RowsFit (rs : RowSet) (entry : String × List String) : Prop where
  label : rs.label = entry.1
  columns : entry.2 ≠ [] → rs.columns = entry.2 ∧ ∀ r ∈ rs.rows, r.length = entry.2.length

theorem RowsFit.visible {rs : RowSet} {entry : String × List String} (h : RowsFit rs entry) {r : Row}
    (member : r ∈ rs.rows) : Fits (rs.visible r) entry where
  label := h.label
  columns := fun named => ⟨(h.columns named).1, (h.columns named).2 r member⟩

theorem RowsFit.absent {rs : RowSet} {entry : String × List String} (h : RowsFit rs entry) :
    Fits rs.absent entry where
  label := h.label
  columns := fun named => by
    obtain ⟨columns, -⟩ := h.columns named
    exact ⟨columns, by rw [RowSet.absent, List.length_replicate, columns]⟩

/-- The rows of a source on their own, as frames. -/
theorem RowsFit.frames {rs : RowSet} {entry : String × List String} (h : RowsFit rs entry) :
    ∀ f ∈ rs.rows.map (fun r => [rs.visible r]), FrameFits [entry] f := by
  intro f member
  obtain ⟨r, inside, rfl⟩ := List.mem_map.1 member
  exact .single (h.visible inside)

theorem FrameFits.find? {Γ : Context} {f : Frame} (h : FrameFits Γ f) {label : String} {columns : List String}
    (found : Γ.lookup label = some columns) :
    ∃ b, f.find? (fun b => b.label == label) = some b ∧ Fits b (label, columns) := by
  induction h with
  | nil => cases found
  | @cons b entry f Γ first _ ih =>
    obtain ⟨other, names⟩ := entry
    have same : b.label = other := first.label
    rw [List.lookup_cons] at found
    rw [List.find?_cons, same, BEq.comm]
    cases here : label == other with
    | true =>
      obtain rfl : names = columns := by simpa [here] using found
      obtain rfl : label = other := beq_iff_eq.1 here
      exact ⟨b, rfl, first⟩
    | false => exact ih (by simpa [here] using found)

/-- An environment holds the parameters and the incoming columns that a view shows. -/
structure Environment.Serves (env : Environment) (V : Outlook) : Prop where
  scalars : ∀ name, V.scalars name → ∃ v, env.parameters.scalar name = .ok v
  incoming : V.incoming ≠ [] → ∃ values, env.incoming = some (V.incoming, values) ∧
    values.length = V.incoming.length

/-! ## Expressions -/

theorem columnValue_safe (source : String) {columns : List String} {values : Row} {name : String}
    (member : name ∈ columns) (wide : values.length = columns.length) :
    Safe (columnValue source columns values name) fun _ => True := by
  unfold columnValue
  cases found : columns.findIdx? fun c => c == name with
  | none =>
    have missing := List.findIdx?_eq_none_iff.1 found name member
    simp at missing
  | some i =>
    obtain ⟨inside, -⟩ := List.findIdx?_eq_some_iff_getElem.1 found
    dsimp only
    rw [List.getElem?_eq_getElem (wide ▸ inside)]
    trivial

section

variable {env : Environment} {V : Outlook} {f : Frame}

/-- A visible expression has a value, or fails for want of a value that its operands can give. -/
theorem eval_safe (serves : env.Serves V) (fits : FrameFits V.context f) {e : Scalar}
    (h : e.Visible V) : Safe (eval env f e) fun _ => True := by
  induction e with
  | column source name =>
    obtain ⟨columns, found, member⟩ := h
    obtain ⟨b, here, fit⟩ := fits.find? found
    -- the block of the label shows all columns that the scope promises
    obtain ⟨same, wide⟩ := fit.columns (List.ne_nil_of_mem member)
    unfold eval
    rw [here]
    dsimp only
    rw [same]
    exact columnValue_safe source member wide
  | constant v => trivial
  | parameter name =>
    obtain ⟨v, found⟩ := serves.scalars name h
    unfold eval
    rw [found]
    trivial
  | binary l op r ihl ihr =>
    exact .bind (ihl h.1) fun _ _ => .bind (ihr h.2) fun _ _ => .evaluation _
  | not e ih => exact .bind (ih h) fun _ _ => .evaluation _
  | isNull e ih | isNotNull e ih => exact .bind (ih h) fun _ _ => .pure trivial
  | case test a b iht iha ihb =>
    refine .bind (iht h.1) fun v _ => ?_
    split
    next => exact iha h.2.1
    next => exact ihb h.2.2
  | excluded name =>
    have member : name ∈ V.incoming := h
    obtain ⟨values, incoming, wide⟩ := serves.incoming (List.ne_nil_of_mem member)
    unfold eval
    rw [incoming]
    exact columnValue_safe "excluded" member wide

theorem holdsOption_safe (serves : env.Serves V) (fits : FrameFits V.context f) {condition : Option Scalar}
    (visible : ∀ e ∈ condition, e.Visible V) : Safe (holdsOption env f condition) fun _ => True := by
  cases condition with
  | none => trivial
  | some e => exact .bind (eval_safe serves fits (visible e rfl)) fun _ _ => .pure trivial

theorem evalAll_safe (serves : env.Serves V) (fits : FrameFits V.context f) {es : List Scalar}
    (visible : ∀ e ∈ es, e.Visible V) : Safe (evalAll env f es) fun row => row.length = es.length := by
  induction es with
  | nil => exact rfl
  | cons e rest ih =>
    obtain ⟨first, others⟩ := List.forall_mem_cons.1 visible
    refine .bind (eval_safe serves fits first) fun v _ => .bind (ih others) fun row length => ?_
    exact .pure (congrArg (· + 1) length)

theorem project_safe (serves : env.Serves V) (fits : FrameFits V.context f) {ps : List Projection}
    (visible : ∀ p ∈ ps, p.value.Visible V) : Safe (project env f ps) fun row => row.length = ps.length := by
  refine (evalAll_safe serves fits ?_).mono fun row length => by rw [length, List.length_map]
  exact List.forall_mem_map.2 visible

/-! ## Frames -/

variable {frames : List Frame}

theorem filterFrames_safe (serves : env.Serves V) (fits : ∀ f ∈ frames, FrameFits V.context f)
    {condition : Option Scalar} (visible : ∀ e ∈ condition, e.Visible V) :
    Safe (filterFrames env condition frames) fun found => found ⊆ frames := by
  induction frames with
  | nil => exact List.Subset.refl []
  | cons f rest ih =>
    obtain ⟨first, others⟩ := List.forall_mem_cons.1 fits
    refine .bind (holdsOption_safe serves first visible) fun keep _ => .bind (ih others) fun found kept => ?_
    refine .pure ?_
    split
    next => exact List.cons_subset_cons f kept
    next => exact List.subset_cons_of_subset f kept

theorem firstOfGroups_safe (serves : env.Serves V) (fits : ∀ f ∈ frames, FrameFits V.context f)
    {keys : List Scalar} (visible : ∀ e ∈ keys, e.Visible V) (seen : List Row) :
    Safe (firstOfGroups env keys seen frames) fun found => found ⊆ frames := by
  induction frames generalizing seen with
  | nil => exact List.Subset.refl []
  | cons f rest ih =>
    obtain ⟨first, others⟩ := List.forall_mem_cons.1 fits
    refine .bind (evalAll_safe serves first visible) fun key _ => ?_
    split
    next => exact (ih others seen).mono fun found kept => List.subset_cons_of_subset f kept
    next => exact .bind (ih others _) fun found kept => .pure (List.cons_subset_cons f kept)

theorem groupFrames_safe (serves : env.Serves V) (fits : ∀ f ∈ frames, FrameFits V.context f)
    {keys : List Scalar} (visible : ∀ e ∈ keys, e.Visible V) :
    Safe (groupFrames env keys frames) fun found => found ⊆ frames := by
  unfold groupFrames
  split
  next => exact List.Subset.refl frames
  next => exact firstOfGroups_safe serves fits visible []

theorem withKeys_safe (serves : env.Serves V) (fits : ∀ f ∈ frames, FrameFits V.context f)
    {items : List OrderItem} (visible : ∀ item ∈ items, item.key.Visible V) :
    Safe (withKeys env items frames) fun _ => True := by
  induction frames with
  | nil => trivial
  | cons f rest ih =>
    obtain ⟨first, others⟩ := List.forall_mem_cons.1 fits
    exact .bind (evalAll_safe serves first (List.forall_mem_map.2 visible)) fun _ _ => .bind (ih others) fun _ _ => trivial

theorem sortFrames_safe (serves : env.Serves V) (fits : ∀ f ∈ frames, FrameFits V.context f)
    {items : List OrderItem} (visible : ∀ item ∈ items, item.key.Visible V) :
    Safe (sortFrames env items frames) fun found => found ⊆ frames := by
  have runs : Safe (sortFrames env items frames) fun _ => True := by
    unfold sortFrames
    split
    next => trivial
    next => exact .bind (withKeys_safe serves fits visible) fun _ _ => trivial
  exact runs.and_ok fun _ sorted _ => mem_of_sortFrames sorted

theorem pageCount_safe {scalars : String → Prop} (serves : env.Serves ⟨[], [], scalars⟩)
    {count : Option Scalar} (visible : ∀ e ∈ count, e.Visible ⟨[], [], scalars⟩) :
    Safe (pageCount env count) fun _ => True := by
  cases count with
  | none => trivial
  | some e =>
    refine .bind (eval_safe serves .nil (visible e rfl)) fun v _ => ?_
    split
    next =>
      split
      next => trivial
      next => exact rfl
    next => exact rfl

theorem page_safe {α : Type} {scalars : String → Prop} (serves : env.Serves ⟨[], [], scalars⟩)
    {limit offset : Option Scalar} (visible : ∀ e ∈ limit, e.Visible ⟨[], [], scalars⟩)
    (visible' : ∀ e ∈ offset, e.Visible ⟨[], [], scalars⟩) (items : List α) :
    Safe (page env limit offset items) fun found => found ⊆ items := by
  have runs : Safe (page env limit offset items) fun _ => True :=
    .bind (pageCount_safe serves visible') fun _ _ => .bind (pageCount_safe serves visible) fun _ _ => trivial
  exact runs.and_ok fun _ paged _ => mem_of_page paged

theorem projectAll_safe (serves : env.Serves V) (fits : ∀ f ∈ frames, FrameFits V.context f)
    {ps : List Projection} (visible : ∀ p ∈ ps, p.value.Visible V) :
    Safe (projectAll env ps frames) fun rows => ∀ r ∈ rows, r.length = ps.length := by
  induction frames with
  | nil => exact fun r member => nomatch member
  | cons f rest ih =>
    obtain ⟨first, others⟩ := List.forall_mem_cons.1 fits
    refine .bind (project_safe serves first visible) fun row length => .bind (ih others) fun rows lengths => ?_
    exact .pure (List.forall_mem_cons.2 ⟨length, lengths⟩)

end

/-! ## Joins -/

section

variable {env : Environment} {scalars : String → Prop} {Γ : Context} {entry : String × List String} {rs : RowSet}
  {on : Option Scalar}

theorem joinRows_safe (serves : env.Serves ⟨Γ ++ [entry], [], scalars⟩) (rows : RowsFit rs entry)
    (visible : ∀ e ∈ on, e.Visible ⟨Γ ++ [entry], [], scalars⟩) (kind : JoinKind) {f : Frame}
    (fits : FrameFits Γ f) {some : List Row} (among : some ⊆ rs.rows) :
    Safe (joinRows env kind on rs f some) fun found => ∀ g ∈ found, FrameFits (Γ ++ [entry]) g := by
  induction some with
  | nil => exact fun g member => nomatch member
  | cons r rest ih =>
    obtain ⟨here, others⟩ := List.cons_subset.1 among
    have extended : FrameFits (Γ ++ [entry]) (f ++ [rs.visible r]) := fits.append (.single (rows.visible here))
    have rest_safe (keep : Bool) : Safe (do
        let others ← joinRows env kind on rs f rest
        return if keep then (f ++ [rs.visible r]) :: others else others) fun found =>
          ∀ g ∈ found, FrameFits (Γ ++ [entry]) g := by
      refine .bind (ih others) fun found fitting => .pure ?_
      split
      next => exact List.forall_mem_cons.2 ⟨extended, fitting⟩
      next => exact fitting
    unfold joinRows
    dsimp only
    split
    next => exact .bind (P := fun _ => True) trivial fun keep _ => rest_safe keep
    next => exact .bind (holdsOption_safe serves extended visible) fun keep _ => rest_safe keep

theorem extendFrame_safe (serves : env.Serves ⟨Γ ++ [entry], [], scalars⟩) (rows : RowsFit rs entry)
    (visible : ∀ e ∈ on, e.Visible ⟨Γ ++ [entry], [], scalars⟩) (kind : JoinKind) {f : Frame}
    (fits : FrameFits Γ f) :
    Safe (extendFrame env kind on rs f) fun found => ∀ g ∈ found, FrameFits (Γ ++ [entry]) g := by
  refine .bind (joinRows_safe serves rows visible kind fits (List.Subset.refl _)) fun found fitting => .pure ?_
  split
  next => exact List.forall_mem_singleton.2 (fits.append (.single rows.absent))
  next => exact fitting

theorem extendFrames_safe (serves : env.Serves ⟨Γ ++ [entry], [], scalars⟩) (rows : RowsFit rs entry)
    (visible : ∀ e ∈ on, e.Visible ⟨Γ ++ [entry], [], scalars⟩) (kind : JoinKind) {frames : List Frame}
    (fits : ∀ f ∈ frames, FrameFits Γ f) :
    Safe (extendFrames env kind on rs frames) fun found => ∀ g ∈ found, FrameFits (Γ ++ [entry]) g := by
  induction frames with
  | nil => exact fun g member => nomatch member
  | cons f rest ih =>
    obtain ⟨first, others⟩ := List.forall_mem_cons.1 fits
    refine .bind (extendFrame_safe serves rows visible kind first) fun here fitting => ?_
    exact .bind (ih others) fun more fitting' => .pure (List.forall_mem_append.2 ⟨fitting, fitting'⟩)

end

/-! ## Selects -/

structure Provides (db : Database) (ps : Parameters) (I : Interface) : Prop where
  tables : ∀ name columns, I.tables name = some columns →
    ∃ t, db.find? name = some t ∧ t.columnNames = columns ∧ ∀ r ∈ t.rows, r.length = columns.length
  scalars : ∀ name, I.scalars name → ∃ v, ps.scalar name = .ok v
  literals : ∀ v, I.literals v → ∃ parameter count rows, v.rows = .resolved parameter count ∧
    ps.rows parameter = .ok rows ∧ ∀ r ∈ rows, r.length = v.columns.length

theorem Provides.serves {db : Database} {ps : Parameters} {I : Interface} (provides : Provides db ps I)
    (Γ : Context) : Environment.Serves { parameters := ps } (I.view Γ []) :=
  ⟨provides.scalars, fun h => absurd rfl h⟩

structure OutputFits (names : List String) (o : Output) : Prop where
  columns : names ≠ [] → o.columns = names ∧ ∀ r ∈ o.rows, r.length = names.length

section

variable {db : Database} {ps : Parameters} {I : Interface} (provides : Provides db ps I)
include provides

theorem literalRows_safe {v : LiteralTable} (held : I.literals v) :
    Safe (literalRows { parameters := ps } v) fun rs => RowsFit rs (v.label, v.columns) := by
  obtain ⟨parameter, count, rows, resolved, found, wide⟩ := provides.literals v held
  unfold literalRows
  rw [resolved]
  dsimp only
  rw [found]
  refine ⟨rfl, fun _ => ⟨rfl, fun r member => wide r ?_⟩⟩
  exact List.mem_of_mem_take member

theorem restrict_safe {s : Select} (clauses : ∀ e ∈ Planning.clauses s, e.Visible (I.view (s.context I) []))
    {frames : List Frame} (fits : ∀ f ∈ frames, FrameFits (s.context I) f) :
    Safe (restrict { parameters := ps } s.predicate s.groupBy s.having frames) fun found => found ⊆ frames := by
  have serves := provides.serves (s.context I)
  simp only [Planning.mem_clauses] at clauses
  refine .bind (filterFrames_safe serves fits fun e here => clauses e (.inl here)) fun first kept => ?_
  have fits₁ : ∀ f ∈ first, FrameFits (s.context I) f := fun f member => fits f (kept member)
  refine .bind (groupFrames_safe serves fits₁ fun e here => clauses e (.inr (.inl here))) fun second kept' => ?_
  have fits₂ : ∀ f ∈ second, FrameFits (s.context I) f := fun f member => fits₁ f (kept' member)
  refine (filterFrames_safe serves fits₂ fun e here => clauses e (.inr (.inr (.inl here)))).mono ?_
  exact fun third kept'' => List.Subset.trans kept'' (List.Subset.trans kept' kept)

theorem outputOf_safe {s : Select} (visible : ∀ p ∈ s.projection, p.value.Visible (I.view (s.context I) []))
    {frames : List Frame} (fits : ∀ f ∈ frames, FrameFits (s.context I) f) (columns : List String) :
    Safe (outputOf { parameters := ps } s.projection columns frames) fun o =>
      OutputFits (s.projection.map Projection.name) o := by
  unfold outputOf
  split
  next empty =>
    refine ⟨fun named => absurd ?_ named⟩
    rw [List.isEmpty_iff.1 empty]
    rfl
  next =>
    refine .bind (projectAll_safe (provides.serves _) fits visible) fun rows wide => .pure ⟨fun _ => ⟨rfl, ?_⟩⟩
    exact fun r member => by rw [wide r member, List.length_map]

theorem unitedRows_safe {limit offset : Option Scalar} (visible : ∀ e ∈ limit, e.Visible (I.view [] []))
    (visible' : ∀ e ∈ offset, e.Visible (I.view [] [])) (label : String) (columns : List String)
    (rows : List Row) :
    Safe (unitedRows { parameters := ps } label columns [] limit offset rows) fun found => found ⊆ rows := by
  have safe : Safe (unitedRows { parameters := ps } label columns [] limit offset rows) fun _ => True := by
    refine .bind (P := fun _ => True) trivial fun frames _ => ?_
    exact .bind (page_safe (provides.serves []) visible visible' _) fun _ _ => .pure trivial
  exact safe.and_ok fun found united r member => mem_of_unitedRows united member

end

section

variable {db : Database} {ps : Parameters} {I : Interface}

mutual

/-- A well-scoped select is safe, and its rows are as wide as its projection says. -/
theorem selectRows_safe {s : Select} (h : Select.WellScoped I s) (provides : Provides db ps I) :
    Safe (selectRows db { parameters := ps } s) (OutputFits (s.projection.map Projection.name)) := by
  match h with
  | @Select.WellScoped.intro _ s source joins clauses projection paging union alike =>
    have first := sourceRows_safe source provides
    have later (frames : List Frame) (fits : ∀ f ∈ frames, FrameFits [Source.entry I s.source] f) :=
      joinAll_safe joins provides fits
    have other := union_safe union provides
    have restricted (frames : List Frame) (fits : ∀ f ∈ frames, FrameFits (s.context I) f) :=
      restrict_safe provides clauses fits
    have output (frames : List Frame) (fits : ∀ f ∈ frames, FrameFits (s.context I) f) :=
      outputOf_safe provides projection fits
    have sorting : ∀ item ∈ s.orderBy, item.key.Visible (I.view (s.context I) []) := fun item member =>
      clauses item.key (Planning.mem_clauses.2 (.inr (.inr (.inr ⟨item, member, rfl⟩))))
    have limit : ∀ e ∈ s.limit, e.Visible (I.view [] []) := fun e found =>
      paging e (List.mem_append_left _ (Option.mem_toList.2 found))
    have offset : ∀ e ∈ s.offset, e.Visible (I.view [] []) := fun e found =>
      paging e (List.mem_append_right _ (Option.mem_toList.2 found))
    have context : s.context I = [Source.entry I s.source] ++ Join.entries I s.joins := rfl
    rw [← context] at later
    obtain ⟨from_, js, predicate, groupBy, having, ps', union', orderBy, limit', offset'⟩ := s
    unfold selectRows
    refine .bind first fun rs rows => .bind (later _ rows.frames) fun ⟨frames, columns⟩ fits => ?_
    refine .bind (restricted _ fits) fun found kept => ?_
    have fits₁ : ∀ f ∈ found, FrameFits _ f := fun f member => fits f (kept member)
    cases union' with
    | none =>
      refine .bind (sortFrames_safe (provides.serves _) fits₁ sorting) fun sorted kept₁ => ?_
      refine .bind (page_safe (provides.serves []) limit offset sorted) fun paged kept₂ => ?_
      exact output _ (fun f member => fits₁ f (kept₁ (kept₂ member))) _
    | some t =>
      obtain ⟨unordered, names⟩ := alike t rfl
      -- a select that is united with another one has no ordering of its own
      obtain rfl : orderBy = [] := unordered
      refine .bind (output _ fits₁ _) fun o fit => .bind (other t rfl) fun more fit' => ?_
      refine .bind (unitedRows_safe provides limit offset _ _ _) fun united kept₁ => .pure ⟨fun named => ?_⟩
      obtain ⟨same, wide⟩ := fit.columns named
      obtain ⟨-, wide'⟩ := fit'.columns (names ▸ named)
      refine ⟨same, fun r member => ?_⟩
      rcases List.mem_append.1 (kept₁ member) with left | right
      · exact wide r left
      · rw [wide' r right, names]

theorem sourceRows_safe {s : Source} (h : Source.WellScoped I s) (provides : Provides db ps I) :
    Safe (sourceRows db { parameters := ps } s) fun rs => RowsFit rs (Source.entry I s) := by
  match h with
  | @Source.WellScoped.table _ ref columns stored =>
    obtain ⟨t, found, same, wide⟩ := provides.tables _ columns stored
    refine .bind (P := fun u => u = t) ?_ fun u here => ?_
    · rw [Database.get_eq_ok.2 found]
      rfl
    · subst here
      refine .pure ⟨rfl, fun _ => ?_⟩
      simp only [Source.entry, stored, Option.getD_some]
      exact ⟨same, wide⟩
  | .literal held => exact literalRows_safe provides held
  | .subquery label inner =>
    have rows := selectRows_safe inner provides
    exact .bind rows fun o fit => .pure ⟨rfl, fit.columns⟩

theorem joinAll_safe {Γ : Context} {js : List (Join Select)} {frames : List Frame}
    (h : Join.WellScoped I Γ js) (provides : Provides db ps I) (fits : ∀ f ∈ frames, FrameFits Γ f) :
    Safe (joinAll db { parameters := ps } js frames) fun found =>
      ∀ f ∈ found.1, FrameFits (Γ ++ Join.entries I js) f := by
  match h with
  | .nil Γ => exact fun f member => (List.append_nil Γ).symm ▸ fits f member
  | @Join.WellScoped.cons _ Γ j rest source on later =>
    have first := sourceRows_safe source provides
    have others (frames : List Frame) (fits : ∀ f ∈ frames, FrameFits (Γ ++ [Source.entry I j.source]) f) :=
      joinAll_safe later provides fits
    obtain ⟨kind, from_, condition⟩ := j
    refine .bind (P := fun found => ∀ f ∈ found.1, FrameFits (Γ ++ [Source.entry I from_]) f) ?_ ?_
    · refine .bind first fun rs rows => ?_
      exact .bind (extendFrames_safe (provides.serves _) rows on kind fits) fun found fitting => .pure fitting
    · rintro ⟨extended, here⟩ fitting
      refine .bind (others _ fitting) fun ⟨found, columns⟩ fitting' => .pure fun f member => ?_
      have same : Γ ++ Join.entries I (⟨kind, from_, condition⟩ :: rest) =
          Γ ++ [Source.entry I from_] ++ Join.entries I rest := by simp [Join.entries]
      rw [same]
      exact fitting' f member

theorem union_safe {s : Option Select} (h : Union.WellScoped I s) (provides : Provides db ps I) :
    ∀ t ∈ s, Safe (selectRows db { parameters := ps } t) (OutputFits (t.projection.map Projection.name)) := by
  match h with
  | .none => exact fun t found => nomatch found
  | .some select =>
    have rows := selectRows_safe select provides
    intro t found
    obtain rfl := Option.some.inj found
    exact rows

end

theorem selectFrames_safe {s : Select} (h : Select.WellScoped I s) (provides : Provides db ps I) :
    Safe (selectFrames db { parameters := ps } s) fun frames => ∀ f ∈ frames, FrameFits (s.context I) f := by
  cases h with
  | intro source joins clauses projection paging union alike =>
    refine .bind (sourceRows_safe source provides) fun rs rows => ?_
    refine .bind (joinAll_safe joins provides rows.frames) fun ⟨frames, columns⟩ fits => ?_
    exact (restrict_safe provides clauses fits).mono fun found kept f member => fits f (kept member)

end

end Setwise.Execution
