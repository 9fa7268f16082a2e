import Setwise.Execution.Selection
import Setwise.Proofs.Results

/-!
Frames of a select.

Joining sources makes frames longer, and an expression keeps its value when a frame grows behind the
labels that it reads (`eval_append`). What joining and filtering compute, once they succeed, is a nested
loop and a filter over conditions without errors (`extendFrames_eq_ok`, `filterFrames_eq_ok`); every joined
frame takes apart into its frame before a join, the row joined there, and the rows joined later
(`joinAll_split`).
-/

set_option autoImplicit false

namespace Setwise

namespace Relational

def joinLabels (js : List (Join Select)) : List String :=
  js.map fun j => j.source.label

theorem joinLabels_append (js ks : List (Join Select)) :
    joinLabels (js ++ ks) = joinLabels js ++ joinLabels ks :=
  List.map_append

def Select.labels (s : Select) : List String :=
  s.source.label :: joinLabels s.joins

end Relational

namespace Execution

open Relational

def Frame.labels (f : Frame) : List String :=
  f.map Visible.label

/-! ## Values in longer frames -/

theorem find?_append_of_mem {f : Frame} {label : String} (h : label ∈ Frame.labels f) (g : Frame) :
    (f ++ g).find? (fun b => b.label == label) = f.find? fun b => b.label == label := by
  obtain ⟨b, member, rfl⟩ := List.mem_map.1 h
  rw [List.find?_append]
  cases found : f.find? fun c => c.label == b.label with
  | some c => rfl
  | none => simpa using List.find?_eq_none.1 found b member

/-- An expression keeps its value when rows are added behind the labels that it reads. -/
theorem eval_append {env : Environment} {f : Frame} {e : Scalar}
    (h : ∀ l ∈ e.sources, l ∈ Frame.labels f) (g : Frame) : eval env (f ++ g) e = eval env f e := by
  induction e with
  | column source name =>
    unfold eval
    rw [find?_append_of_mem (h source (by simp [Scalar.sources])) g]
  | constant v => rfl
  | parameter name => rfl
  | excluded column => rfl
  | binary l op r ihl ihr =>
    simp only [Scalar.sources, List.mem_append] at h
    unfold eval
    rw [ihl fun s hs => h s (.inl hs), ihr fun s hs => h s (.inr hs)]
  | not e ih | isNull e ih | isNotNull e ih =>
    unfold eval
    rw [ih h]
  | case test a b iht iha ihb =>
    simp only [Scalar.sources, List.mem_append] at h
    unfold eval
    rw [iht fun s hs => h s (.inl (.inl hs)), iha fun s hs => h s (.inl (.inr hs)),
      ihb fun s hs => h s (.inr hs)]

theorem eval_column_last {env : Environment} {f : Frame} {b : Visible} (new : b.label ∉ Frame.labels f)
    (name : String) :
    eval env (f ++ [b]) (.column b.label name) = columnValue b.label b.columns b.values name := by
  have missing : f.find? (fun c => c.label == b.label) = none := by
    refine List.find?_eq_none.2 fun c member => ?_
    simpa using fun same : c.label = b.label => new (same ▸ List.mem_map_of_mem member)
  unfold eval
  simp [List.find?_append, missing]

/-! ## Conditions -/

def passes (env : Environment) (condition : Option Scalar) (f : Frame) : Bool :=
  match holdsOption env f condition with
  | .ok keep => keep
  | .error _ => false

theorem passes_of_eq_ok {env : Environment} {condition : Option Scalar} {f : Frame} {keep : Bool}
    (h : holdsOption env f condition = .ok keep) : passes env condition f = keep := by
  simp [passes, h]

theorem filterFrames_eq_ok {env : Environment} {condition : Option Scalar} {frames found : List Frame}
    (h : filterFrames env condition frames = .ok found) :
    found = frames.filter (passes env condition) ∧
      ∀ f ∈ frames, holdsOption env f condition = .ok (passes env condition f) := by
  induction frames generalizing found with
  | nil =>
    obtain rfl := Except.ok.inj h
    simp
  | cons f rest ih =>
    obtain ⟨keep, here, h⟩ := bind_eq_ok.1 h
    obtain ⟨others, later, h⟩ := bind_eq_ok.1 h
    obtain rfl := pure_eq_ok.1 h
    obtain ⟨rfl, all⟩ := ih later
    have same := passes_of_eq_ok here
    refine ⟨?_, List.forall_mem_cons.2 ⟨same ▸ here, all⟩⟩
    cases keep <;> simp [same]

theorem filterFrames_of_holds {env : Environment} {condition : Option Scalar} {frames : List Frame}
    (h : ∀ f ∈ frames, ∃ keep, holdsOption env f condition = .ok keep) :
    filterFrames env condition frames = .ok (frames.filter (passes env condition)) := by
  induction frames with
  | nil => rfl
  | cons f rest ih =>
    obtain ⟨⟨keep, here⟩, others⟩ := List.forall_mem_cons.1 h
    refine bind_eq_ok.2 ⟨keep, here, bind_eq_ok.2 ⟨_, ih others, ?_⟩⟩
    rw [List.filter_cons, passes_of_eq_ok here]
    cases keep <;> rfl

theorem filter_passes_none {env : Environment} (frames : List Frame) : frames.filter (passes env none) = frames :=
  List.filter_eq_self.2 fun _ _ => rfl

theorem filterFrames_none {env : Environment} (frames : List Frame) : filterFrames env none frames = .ok frames :=
  (filterFrames_of_holds fun _ _ => ⟨true, rfl⟩).trans (congrArg Except.ok (filter_passes_none frames))

/-! ## Joins -/

section

variable (env : Environment) (kind : JoinKind) (on : Option Scalar) (rs : RowSet)

def matchesRow (f : Frame) (r : Row) : Bool :=
  kind == .cross || passes env on (f ++ [rs.visible r])

def extensions (f : Frame) : List Frame :=
  let found := (rs.rows.filter (matchesRow env kind on rs f)).map fun r => f ++ [rs.visible r]
  if found.isEmpty && kind == .leftOuter then [f ++ [rs.absent]] else found

end

section

variable {env : Environment} {kind : JoinKind} {on : Option Scalar} {rs : RowSet}

theorem joinRows_eq_ok {f : Frame} {rows : List Row} {found : List Frame}
    (h : joinRows env kind on rs f rows = .ok found) :
    found = (rows.filter (matchesRow env kind on rs f)).map (fun r => f ++ [rs.visible r]) ∧
      ∀ r ∈ rows, kind ≠ .cross →
        holdsOption env (f ++ [rs.visible r]) on = .ok (matchesRow env kind on rs f r) := by
  induction rows generalizing found with
  | nil =>
    obtain rfl := Except.ok.inj h
    simp
  | cons r rest ih =>
    unfold joinRows at h
    dsimp only at h
    split at h
    next cross =>
      obtain ⟨keep, here, h⟩ := bind_eq_ok.1 h
      obtain rfl := Except.ok.inj here
      obtain ⟨others, later, h⟩ := bind_eq_ok.1 h
      obtain rfl := pure_eq_ok.1 h
      obtain ⟨rfl, all⟩ := ih later
      refine ⟨by simp [matchesRow, cross], List.forall_mem_cons.2 ⟨fun inner => ?_, all⟩⟩
      exact absurd cross inner
    -- outside a cross join the condition is evaluated for every row, so it has a truth value there
    next inner =>
      obtain ⟨keep, here, h⟩ := bind_eq_ok.1 h
      obtain ⟨others, later, h⟩ := bind_eq_ok.1 h
      obtain rfl := pure_eq_ok.1 h
      obtain ⟨rfl, all⟩ := ih later
      have same : matchesRow env kind on rs f r = keep := by
        simp [matchesRow, inner, passes_of_eq_ok here]
      refine ⟨?_, List.forall_mem_cons.2 ⟨fun _ => same ▸ here, all⟩⟩
      cases keep <;> simp [same]

theorem extendFrame_eq_ok {f : Frame} {found : List Frame} (h : extendFrame env kind on rs f = .ok found) :
    found = extensions env kind on rs f ∧
      ∀ r ∈ rs.rows, kind ≠ .cross →
        holdsOption env (f ++ [rs.visible r]) on = .ok (matchesRow env kind on rs f r) := by
  obtain ⟨matching, all, h⟩ := bind_eq_ok.1 h
  obtain rfl := pure_eq_ok.1 h
  obtain ⟨rfl, evaluated⟩ := joinRows_eq_ok all
  exact ⟨rfl, evaluated⟩

/-- A join that succeeds is a nested loop, whose condition has a value wherever the loop comes. -/
theorem extendFrames_eq_ok {frames found : List Frame} (h : extendFrames env kind on rs frames = .ok found) :
    found = frames.flatMap (extensions env kind on rs) ∧
      ∀ f ∈ frames, ∀ r ∈ rs.rows, kind ≠ .cross →
        holdsOption env (f ++ [rs.visible r]) on = .ok (matchesRow env kind on rs f r) := by
  induction frames generalizing found with
  | nil =>
    obtain rfl := Except.ok.inj h
    simp
  | cons f rest ih =>
    obtain ⟨here, first, h⟩ := bind_eq_ok.1 h
    obtain ⟨others, later, h⟩ := bind_eq_ok.1 h
    obtain rfl := pure_eq_ok.1 h
    obtain ⟨rfl, evaluated⟩ := extendFrame_eq_ok first
    obtain ⟨rfl, all⟩ := ih later
    exact ⟨rfl, List.forall_mem_cons.2 ⟨evaluated, all⟩⟩

theorem mem_extensions {f g : Frame} :
    g ∈ extensions env kind on rs f ↔
      (∃ r ∈ rs.rows, matchesRow env kind on rs f r = true ∧ g = f ++ [rs.visible r]) ∨
        (kind = .leftOuter ∧ (∀ r ∈ rs.rows, matchesRow env kind on rs f r = false) ∧
          g = f ++ [rs.absent]) := by
  unfold extensions
  cases found : rs.rows.filter (matchesRow env kind on rs f) with
  | nil =>
    have none : ∀ r ∈ rs.rows, matchesRow env kind on rs f r = false := by
      simpa using List.filter_eq_nil_iff.1 found
    cases kind <;> grind
  | cons r rest =>
    have matching : r ∈ rs.rows ∧ matchesRow env kind on rs f r = true :=
      List.mem_filter.1 (found ▸ List.mem_cons_self)
    have all : ∀ s, s ∈ r :: rest ↔ s ∈ rs.rows ∧ matchesRow env kind on rs f s = true :=
      fun s => found ▸ List.mem_filter
    simp only [List.map_cons, List.isEmpty_cons, Bool.false_and, Bool.false_eq_true, if_false]
    rw [← List.map_cons (f := fun r => f ++ [rs.visible r]), List.mem_map]
    grind

theorem exists_of_mem_extensions {f g : Frame} (member : g ∈ extensions env kind on rs f) : ∃ rest, g = f ++ rest := by
  rcases mem_extensions.1 member with ⟨r, -, -, rfl⟩ | ⟨-, -, rfl⟩ <;> exact ⟨_, rfl⟩

end

/-! ## Frames of a list of joins -/

section

variable {db : Database} {env : Environment}

theorem label_of_sourceRows {s : Source} {rs : RowSet} (h : sourceRows db env s = .ok rs) :
    rs.label = s.label := by
  cases s with
  | table ref =>
    unfold sourceRows at h
    obtain ⟨t, -, h⟩ := bind_eq_ok.1 h
    obtain rfl := pure_eq_ok.1 h
    rfl
  | literal v =>
    unfold sourceRows literalRows at h
    dsimp only at h
    split at h
    next rows _ =>
      obtain ⟨rows, -, h⟩ := bind_eq_ok.1 h
      obtain rfl := pure_eq_ok.1 h
      rfl
    next =>
      obtain ⟨rows, -, h⟩ := bind_eq_ok.1 h
      obtain ⟨taken, -, h⟩ := bind_eq_ok.1 h
      obtain rfl := pure_eq_ok.1 h
      rfl
    next => cases h
  | subquery select label =>
    unfold sourceRows at h
    obtain ⟨output, -, h⟩ := bind_eq_ok.1 h
    obtain rfl := pure_eq_ok.1 h
    rfl

theorem literalRows_resolved {env : Environment} {label : String} {columns : List String} {name : String}
    {rows : List Row} (held : env.parameters.rows name = .ok rows) :
    literalRows env ⟨label, columns, .resolved name rows.length⟩ = .ok ⟨label, columns, rows⟩ := by
  unfold literalRows
  refine bind_eq_ok.2 ⟨rows, mapError_eq_ok.2 held, ?_⟩
  rw [List.take_length]
  rfl

theorem sourceRows_table {db : Database} {env : Environment} {ref : StoredTable} {rs : RowSet}
    (h : sourceRows db env (.table ref) = .ok rs) :
    ∃ t, db.find? ref.name = some t ∧ rs = .ofTable t ref.label := by
  unfold sourceRows at h
  obtain ⟨t, found, h⟩ := bind_eq_ok.1 h
  obtain rfl := pure_eq_ok.1 h
  have found := mapError_eq_ok.1 found
  unfold Database.get at found
  split at found
  next u known =>
    obtain rfl := Except.ok.inj found
    exact ⟨_, known, rfl⟩
  next => cases found

theorem joinAll_nil_eq_ok {frames found : List Frame} {columns : List String} :
    joinAll db env [] frames = .ok (found, columns) ↔ found = frames ∧ columns = [] := by
  unfold joinAll
  simp [eq_comm]

theorem joinAll_cons_eq_ok {j : Join Select} {rest : List (Join Select)} {frames found : List Frame}
    {columns : List String} :
    joinAll db env (j :: rest) frames = .ok (found, columns) ↔
      ∃ rs middle others, sourceRows db env j.source = .ok rs ∧
        extendFrames env j.kind j.on rs frames = .ok middle ∧
        joinAll db env rest middle = .ok (found, others) ∧ columns = rs.columns ++ others := by
  conv => lhs; unfold joinAll joinOne
  simp only [bind_eq_ok, pure_eq_ok, Prod.exists, Prod.mk.injEq]
  grind

theorem joinAll_append {js ks : List (Join Select)} {frames found : List Frame} {columns : List String}
    (h : joinAll db env (js ++ ks) frames = .ok (found, columns)) :
    ∃ middle before after, joinAll db env js frames = .ok (middle, before) ∧
      joinAll db env ks middle = .ok (found, after) ∧ columns = before ++ after := by
  induction js generalizing frames columns with
  | nil => exact ⟨frames, [], columns, joinAll_nil_eq_ok.2 ⟨rfl, rfl⟩, h, rfl⟩
  | cons j rest ih =>
    obtain ⟨rs, extended, others, rows, joined, tail, rfl⟩ := joinAll_cons_eq_ok.1 h
    obtain ⟨middle, before, after, first, last, rfl⟩ := ih tail
    exact ⟨middle, rs.columns ++ before, after,
      joinAll_cons_eq_ok.2 ⟨rs, extended, before, rows, joined, first, rfl⟩, last,
      (List.append_assoc ..).symm⟩

theorem exists_extension {kind : JoinKind} {on : Option Scalar} {rs : RowSet} {frames found : List Frame}
    (h : extendFrames env kind on rs frames = .ok found) {g : Frame} (member : g ∈ found) :
    ∃ f ∈ frames, ∃ b : Visible, g = f ++ [b] ∧ b.label = rs.label := by
  obtain ⟨rfl, -⟩ := extendFrames_eq_ok h
  obtain ⟨f, before, member⟩ := List.mem_flatMap.1 member
  rcases mem_extensions.1 member with ⟨r, -, -, rfl⟩ | ⟨-, -, rfl⟩
  · exact ⟨f, before, rs.visible r, rfl, rfl⟩
  · exact ⟨f, before, rs.absent, rfl, rfl⟩

theorem joinAll_mem {js : List (Join Select)} {frames found : List Frame} {columns : List String}
    (h : joinAll db env js frames = .ok (found, columns)) {g : Frame} (member : g ∈ found) :
    ∃ f ∈ frames, ∃ rest : Frame, g = f ++ rest ∧ Frame.labels rest = joinLabels js := by
  induction js generalizing frames columns with
  | nil =>
    obtain ⟨rfl, -⟩ := joinAll_nil_eq_ok.1 h
    exact ⟨g, member, [], by simp, rfl⟩
  | cons j rest ih =>
    obtain ⟨rs, extended, others, rows, joined, tail, rfl⟩ := joinAll_cons_eq_ok.1 h
    obtain ⟨e, inside, after, rfl, labels⟩ := ih tail
    obtain ⟨f, before, b, rfl, label⟩ := exists_extension joined inside
    refine ⟨f, before, b :: after, by simp, ?_⟩
    simp only [Frame.labels, joinLabels, List.map_cons] at labels ⊢
    rw [labels, label, label_of_sourceRows rows]

/-- A joined frame consists of a frame before one of the joins, the row joined there, and rows that are
joined later. The condition of that join has a value for every row of its source. -/
theorem joinAll_split {before after : List (Join Select)} {j : Join Select} {frames found : List Frame}
    {columns : List String} (h : joinAll db env (before ++ j :: after) frames = .ok (found, columns))
    {g : Frame} (member : g ∈ found) :
    ∃ rs f extension rest middle seen, sourceRows db env j.source = .ok rs ∧
      joinAll db env before frames = .ok (middle, seen) ∧ f ∈ middle ∧
      extension ∈ extensions env j.kind j.on rs f ∧ g = extension ++ rest ∧
      ∀ r ∈ rs.rows, j.kind ≠ .cross →
        holdsOption env (f ++ [rs.visible r]) j.on = .ok (matchesRow env j.kind j.on rs f r) := by
  obtain ⟨middle, seen, others, first, tail, rfl⟩ := joinAll_append h
  obtain ⟨rs, extended, later, rows, joined, last, rfl⟩ := joinAll_cons_eq_ok.1 tail
  obtain ⟨extension, inside, rest, rfl, -⟩ := joinAll_mem last member
  obtain ⟨rfl, evaluated⟩ := extendFrames_eq_ok joined
  obtain ⟨f, there, inside⟩ := List.mem_flatMap.1 inside
  exact ⟨rs, f, extension, rest, middle, seen, rows, first, there, inside, rfl, evaluated f there⟩

end

/-! ## Frames of a select -/

section

variable (db : Database) (env : Environment)

/-- The frames of a select before any clause but its joins. -/
def joinedFrames (s : Select) : Except Error (List Frame) := do
  let first ← sourceRows db env s.source
  let (frames, _) ← joinAll db env s.joins (first.rows.map fun r => [first.visible r])
  return frames

/-- The frames of a select without a union, in the order and number in which it delivers them. -/
def deliveredFrames (s : Select) : Except Error (List Frame) := do
  let frames ← selectFrames db env s
  let frames ← sortFrames env s.orderBy frames
  page env s.limit s.offset frames

end

section

variable {db : Database} {env : Environment}

theorem joinedFrames_eq_ok {s : Select} {frames : List Frame} :
    joinedFrames db env s = .ok frames ↔
      ∃ first columns, sourceRows db env s.source = .ok first ∧
        joinAll db env s.joins (first.rows.map fun r => [first.visible r]) = .ok (frames, columns) := by
  simp only [joinedFrames, bind_eq_ok, pure_eq_ok, Prod.exists]
  grind

theorem selectFrames_eq_ok {s : Select} {frames : List Frame} :
    selectFrames db env s = .ok frames ↔
      ∃ all, joinedFrames db env s = .ok all ∧
        restrict env s.predicate s.groupBy s.having all = .ok frames := by
  simp only [selectFrames, joinedFrames_eq_ok, bind_eq_ok, Prod.exists]
  grind

theorem joinedFrames_snoc {s : Select} {j : Join Select} {all : List Frame}
    (h : joinedFrames db env { s with joins := s.joins ++ [j] } = .ok all) :
    ∃ before rs, joinedFrames db env s = .ok before ∧ sourceRows db env j.source = .ok rs ∧
      all = before.flatMap (extensions env j.kind j.on rs) ∧
      ∀ f ∈ before, ∀ r ∈ rs.rows, j.kind ≠ .cross →
        holdsOption env (f ++ [rs.visible r]) j.on = .ok (matchesRow env j.kind j.on rs f r) := by
  obtain ⟨first, columns, rows, joined⟩ := joinedFrames_eq_ok.1 h
  obtain ⟨before, seen, others, joinedBefore, last, -⟩ := joinAll_append joined
  obtain ⟨rs, middle, _, joinedRows, extended, nothing, -⟩ := joinAll_cons_eq_ok.1 last
  obtain ⟨rfl, -⟩ := joinAll_nil_eq_ok.1 nothing
  obtain ⟨all, evaluated⟩ := extendFrames_eq_ok extended
  exact ⟨before, rs, joinedFrames_eq_ok.2 ⟨first, seen, rows, joinedBefore⟩, joinedRows, all, evaluated⟩

theorem labels_of_joinedFrames {s : Select} {frames : List Frame} (h : joinedFrames db env s = .ok frames)
    {f : Frame} (member : f ∈ frames) : Frame.labels f = s.labels := by
  obtain ⟨first, columns, rows, joined⟩ := joinedFrames_eq_ok.1 h
  obtain ⟨g, inside, rest, rfl, labels⟩ := joinAll_mem joined member
  obtain ⟨r, -, rfl⟩ := List.mem_map.1 inside
  simp only [Frame.labels, List.singleton_append, List.map_cons, Select.labels] at labels ⊢
  rw [labels, ← label_of_sourceRows rows]
  rfl

theorem selectRows_eq_ok {s : Select} {output : Output} (union : s.union = none)
    (h : selectRows db env s = .ok output) :
    ∃ frames columns, deliveredFrames db env s = .ok frames ∧
      outputOf env s.projection columns frames = .ok output := by
  obtain ⟨source, joins, predicate, groupBy, having, projection, _, orderBy, limit, offset⟩ := s
  obtain rfl : _ = none := union
  unfold selectRows at h
  obtain ⟨first, rows, h⟩ := bind_eq_ok.1 h
  obtain ⟨⟨all, columns⟩, joined, h⟩ := bind_eq_ok.1 h
  obtain ⟨kept, restricted, h⟩ := bind_eq_ok.1 h
  obtain ⟨sorted, ordered, h⟩ := bind_eq_ok.1 h
  obtain ⟨frames, paged, h⟩ := bind_eq_ok.1 h
  refine ⟨frames, first.columns ++ columns, ?_, h⟩
  refine bind_eq_ok.2 ⟨kept, selectFrames_eq_ok.2 ⟨all, ?_, restricted⟩, bind_eq_ok.2 ⟨sorted, ordered, paged⟩⟩
  exact joinedFrames_eq_ok.2 ⟨first, columns, rows, joined⟩

end

end Execution

end Setwise
