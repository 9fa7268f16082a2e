import Setwise.Proofs.ChangedRows
import Setwise.Proofs.PrunedRuns
import Setwise.Proofs.StableSorting
import Setwise.Sql.Statement

/-!
Updates with all conditions behind the joins.

SQLite writes the sources of an update crosswise behind FROM and asks for the conditions of the joins together with the
predicate. A condition that has a truth when its source is joined keeps it when other rows are joined behind (`eval_grown`),
so that asking one condition after the other of growing frames leaves, of the complete frames, those that satisfy the
conjunction, in their order (`joinAll_crossed`). Where every condition has a truth for every combination of rows, both
forms find the same rows, each with the same first frame (`crossed_updates_find_the_same_rows`).
-/

set_option autoImplicit false

namespace Setwise

namespace Relational

/-! ## The crossed form -/

def Join.crossed (j : Join Select) : Join Select :=
  { j with kind := .cross, on := none }

/-- An inner join, or a cross join without a condition. -/
def Join.IsPlain (j : Join Select) : Prop :=
  j.kind = .inner ∨ j.kind = .cross ∧ j.on = none

def bothOption (condition : Option Scalar) : Option Scalar → Option Scalar
  | some e => some (.both condition e)
  | none => condition

def joinConditions (joins : List (Join Select)) (condition : Option Scalar) : Option Scalar :=
  joins.foldl (fun c j => bothOption c j.on) condition

/-- The conjunction of the conditions of some joins, and of a predicate behind them. -/
def crossedPredicate (joins : List (Join Select)) (predicate : Option Scalar) : Option Scalar :=
  bothOption (joinConditions joins none) predicate

end Relational

namespace Execution

open Relational

variable {db : Database} {env : Environment} {f : Frame}

/-! ## Conditions that have a truth -/

/-- An expression that has a value keeps it when rows are joined behind. -/
theorem eval_grown {e : Scalar} {v : Value} (h : eval env f e = .ok v) (g : Frame) : eval env (f ++ g) e = .ok v := by
  induction e generalizing v with
  | column source name =>
    unfold eval at h ⊢
    -- the block of the label is found in front
    rw [List.find?_append]
    split at h
    next => cases h
    next found =>
      rw [found]
      exact h
  | constant c => exact h
  | parameter name => exact h
  | excluded column => exact h
  | binary l op r ihl ihr =>
    obtain ⟨a, left, h⟩ := bind_eq_ok.1 h
    obtain ⟨b, right, h⟩ := bind_eq_ok.1 h
    exact bind_eq_ok.2 ⟨a, ihl left, bind_eq_ok.2 ⟨b, ihr right, h⟩⟩
  | not e ih | isNull e ih | isNotNull e ih =>
    obtain ⟨a, operand, h⟩ := bind_eq_ok.1 h
    exact bind_eq_ok.2 ⟨a, ih operand, h⟩
  | case test a b iht iha ihb =>
    obtain ⟨t, tested, h⟩ := bind_eq_ok.1 h
    refine bind_eq_ok.2 ⟨t, iht tested, ?_⟩
    split at h
    next true => rw [if_pos true]; exact iha h
    next false => rw [if_neg false]; exact ihb h

/-- The condition, unless it is missing, is a boolean, an integer or NULL in a frame. -/
def HasTruth (env : Environment) (f : Frame) (condition : Option Scalar) : Prop :=
  ∀ e ∈ condition, ∃ v t, eval env f e = .ok v ∧ v.truth? = some t

theorem hasTruth_none (env : Environment) (f : Frame) : HasTruth env f none :=
  fun _ missing => nomatch missing

namespace HasTruth

variable {c o : Option Scalar}

theorem holds (h : HasTruth env f c) : holdsOption env f c = .ok (passes env c f) := by
  cases c with
  | none => rfl
  | some e =>
    obtain ⟨v, -, value, -⟩ := h e rfl
    have decided := holds_eq_ok.2 ⟨v, value, rfl⟩
    rw [decided, passes_of_eq_ok decided]

theorem grown (h : HasTruth env f c) (g : Frame) : HasTruth env (f ++ g) c := by
  intro e here
  obtain ⟨v, t, value, truth⟩ := h e here
  exact ⟨v, t, eval_grown value g, truth⟩

theorem passes_grown (h : HasTruth env f c) (g : Frame) : passes env c (f ++ g) = passes env c f := by
  cases c with
  | none => rfl
  | some e =>
    obtain ⟨v, -, value, -⟩ := h e rfl
    rw [passes_of_eq_ok (holds_eq_ok.2 ⟨v, value, rfl⟩), passes_of_eq_ok (holds_eq_ok.2 ⟨v, eval_grown value g, rfl⟩)]

theorem both (first : HasTruth env f c) (second : HasTruth env f o) : HasTruth env f (bothOption c o) := by
  cases o with
  | none => exact first
  | some e =>
    rintro _ ⟨⟩
    obtain ⟨w, b, right, truthRight⟩ := second e rfl
    cases c with
    | none => exact ⟨w, b, right, truthRight⟩
    | some d =>
      obtain ⟨v, a, left, truthLeft⟩ := first d rfl
      refine ⟨_, _, ?_, Value.truth?_ofTruth (Value.conjunction a b)⟩
      refine bind_eq_ok.2 ⟨v, left, bind_eq_ok.2 ⟨w, right, mapError_eq_ok.2 ?_⟩⟩
      exact Value.apply_and_eq_ok.2 ⟨a, b, truthLeft, truthRight, rfl⟩

end HasTruth

theorem passes_bothOption (c o : Option Scalar) (f : Frame) :
    passes env (bothOption c o) f = (passes env c f && passes env o f) := by
  cases o with
  | none => exact (Bool.and_true _).symm
  | some e => exact passes_both c e f

/-! ## One join -/

section

variable {kind : JoinKind} {on : Option Scalar} {rs : RowSet} {frames : List Frame}

def crossing (rs : RowSet) (f : Frame) : List Frame :=
  rs.rows.map fun r => f ++ [rs.visible r]

theorem mem_crossing {g : Frame} : g ∈ crossing rs f ↔ ∃ r ∈ rs.rows, g = f ++ [rs.visible r] := by
  simp only [crossing, List.mem_map, eq_comm]

theorem joinRows_of_holds {rows : List Row}
    (h : ∀ r ∈ rows, kind ≠ .cross → holdsOption env (f ++ [rs.visible r]) on = .ok (passes env on (f ++ [rs.visible r]))) :
    joinRows env kind on rs f rows =
      .ok ((rows.filter (matchesRow env kind on rs f)).map fun r => f ++ [rs.visible r]) := by
  induction rows with
  | nil => rfl
  | cons r rest ih =>
    obtain ⟨here, others⟩ := List.forall_mem_cons.1 h
    unfold joinRows
    dsimp only
    split
    next cross =>
      have keeps : matchesRow env kind on rs f r = true := by simp [matchesRow, cross]
      refine bind_eq_ok.2 ⟨true, rfl, bind_eq_ok.2 ⟨_, ih others, ?_⟩⟩
      rw [List.filter_cons_of_pos keeps]
      rfl
    next inner =>
      have keeps : matchesRow env kind on rs f r = passes env on (f ++ [rs.visible r]) := by simp [matchesRow, inner]
      refine bind_eq_ok.2 ⟨_, here inner, bind_eq_ok.2 ⟨_, ih others, ?_⟩⟩
      rw [List.filter_cons, keeps]
      cases passes env on (f ++ [rs.visible r]) <;> rfl

theorem extendFrames_of_holds
    (h : ∀ f ∈ frames, ∀ g ∈ crossing rs f, kind ≠ .cross → holdsOption env g on = .ok (passes env on g)) :
    extendFrames env kind on rs frames = .ok (frames.flatMap (extensions env kind on rs)) := by
  induction frames with
  | nil => rfl
  | cons f rest ih =>
    obtain ⟨here, others⟩ := List.forall_mem_cons.1 h
    have joined : joinRows env kind on rs f rs.rows =
        .ok ((rs.rows.filter (matchesRow env kind on rs f)).map fun r => f ++ [rs.visible r]) :=
      joinRows_of_holds fun r member => here _ (mem_crossing.2 ⟨r, member, rfl⟩)
    exact bind_eq_ok.2 ⟨_, bind_eq_ok.2 ⟨_, joined, rfl⟩, bind_eq_ok.2 ⟨_, ih others, rfl⟩⟩

theorem extensions_of_plain (plain : kind = .inner ∨ kind = .cross ∧ on = none) (f : Frame) :
    extensions env kind on rs f = (crossing rs f).filter (passes env on) := by
  have inner : (kind == .leftOuter) = false := by rcases plain with rfl | ⟨rfl, -⟩ <;> rfl
  have same : matchesRow env kind on rs f = fun r => passes env on (f ++ [rs.visible r]) := by
    funext r
    rcases plain with rfl | ⟨rfl, rfl⟩ <;> rfl
  unfold extensions crossing
  rw [inner, same, List.filter_map]
  simp only [Bool.and_false, Bool.false_eq_true, if_false, Function.comp_def]

theorem extendFrames_cross : extendFrames env .cross none rs frames = .ok (frames.flatMap (crossing rs)) := by
  rw [extendFrames_of_holds fun _ _ _ _ inner => absurd rfl inner]
  have all : extensions env .cross none rs = crossing rs := by
    funext f
    rw [extensions_of_plain (.inr ⟨rfl, rfl⟩), filter_passes_none]
  rw [all]

theorem extendFrames_crossed (plain : kind = .inner ∨ kind = .cross ∧ on = none) {c : Option Scalar}
    (known : ∀ f ∈ frames, HasTruth env f c) (decided : ∀ f ∈ frames, ∀ g ∈ crossing rs f, HasTruth env g on) :
    extendFrames env kind on rs (frames.filter (passes env c)) =
      .ok ((frames.flatMap (crossing rs)).filter (passes env (bothOption c on))) := by
  rw [extendFrames_of_holds fun f member g crossed _ => (decided f (List.mem_of_mem_filter member) g crossed).holds]
  have alike : ∀ f ∈ frames, ∀ g ∈ crossing rs f, passes env c g = passes env c f := by
    intro f member g crossed
    obtain ⟨r, -, rfl⟩ := mem_crossing.1 crossed
    exact (known f member).passes_grown _
  congr 1
  calc (frames.filter (passes env c)).flatMap (extensions env kind on rs)
      = (frames.filter (passes env c)).flatMap fun f => (crossing rs f).filter (passes env on) := by
        rw [funext (extensions_of_plain plain)]
    _ = ((frames.filter (passes env c)).flatMap (crossing rs)).filter (passes env on) := List.filter_flatMap.symm
    _ = ((frames.flatMap (crossing rs)).filter (passes env c)).filter (passes env on) := by
        rw [Sorting.filter_flatMap alike]
    _ = (frames.flatMap (crossing rs)).filter (passes env (bothOption c on)) := by
        rw [List.filter_filter]
        exact List.filter_congr fun g _ => by rw [passes_bothOption, Bool.and_comm]

end

/-! ## All joins -/

def Combines (db : Database) (env : Environment) (joins : List (Join Select)) (rows : Frame) : Prop :=
  List.Forall₂ (fun j b => ∃ rs, sourceRows db env j.source = .ok rs ∧ ∃ r ∈ rs.rows, b = rs.visible r) joins rows

def ConditionsHaveTruth (db : Database) (env : Environment) (joins : List (Join Select)) (f : Frame) : Prop :=
  ∀ before j after rows, joins = before ++ j :: after → Combines db env (before ++ [j]) rows →
    HasTruth env (f ++ rows) j.on

variable {joins : List (Join Select)}

theorem conditionsHaveTruth_nil (db : Database) (env : Environment) (f : Frame) : ConditionsHaveTruth db env [] f :=
  fun _ _ _ _ none => by simp at none

theorem conditionsHaveTruth_cons {j : Join Select} {rs : RowSet} (read : sourceRows db env j.source = .ok rs) :
    ConditionsHaveTruth db env (j :: joins) f ↔
      ∀ g ∈ crossing rs f, HasTruth env g j.on ∧ ConditionsHaveTruth db env joins g := by
  constructor
  · intro h g crossed
    obtain ⟨r, member, rfl⟩ := mem_crossing.1 crossed
    have head : ∃ rs', sourceRows db env j.source = .ok rs' ∧ ∃ s ∈ rs'.rows, rs.visible r = rs'.visible s :=
      ⟨rs, read, r, member, rfl⟩
    refine ⟨h [] j joins _ rfl (.cons head .nil), fun before k after rows same combined => ?_⟩
    rw [List.append_assoc]
    exact h (j :: before) k after _ (by rw [same]; rfl) (.cons head combined)
  · intro h before k after rows same combined
    cases before with
    | nil =>
      obtain ⟨rfl, rfl⟩ := List.cons.inj same
      obtain ⟨b, rest, ⟨rs', read', r, member, rfl⟩, last, rfl⟩ := List.forall₂_cons_left_iff.1 combined
      obtain rfl := Except.ok.inj (read.symm.trans read')
      obtain rfl := List.forall₂_nil_left_iff.1 last
      exact (h _ (mem_crossing.2 ⟨r, member, rfl⟩)).1
    | cons j' before =>
      obtain ⟨rfl, others⟩ := List.cons.inj same
      obtain ⟨b, rest, ⟨rs', read', r, member, rfl⟩, later, rfl⟩ := List.forall₂_cons_left_iff.1 combined
      obtain rfl := Except.ok.inj (read.symm.trans read')
      have behind := (h _ (mem_crossing.2 ⟨r, member, rfl⟩)).2 before k after rest others later
      rwa [List.append_assoc] at behind

theorem crossed_combines {frames all : List Frame} {columns : List String}
    (h : joinAll db env (joins.map Join.crossed) frames = .ok (all, columns)) {g : Frame} (member : g ∈ all) :
    ∃ f ∈ frames, ∃ rows, Combines db env joins rows ∧ g = f ++ rows := by
  induction joins generalizing frames columns with
  | nil =>
    obtain ⟨rfl, -⟩ := joinAll_nil_eq_ok.1 h
    exact ⟨g, member, [], .nil, (List.append_nil g).symm⟩
  | cons j rest ih =>
    obtain ⟨rs, middle, others, read, extended, tail, -⟩ := joinAll_cons_eq_ok.1 h
    obtain ⟨f', inside, rows, combined, rfl⟩ := ih tail
    obtain rfl := Except.ok.inj (extendFrames_cross.symm.trans extended)
    obtain ⟨f, before, crossed⟩ := List.mem_flatMap.1 inside
    obtain ⟨r, stored, rfl⟩ := mem_crossing.1 crossed
    exact ⟨f, before, _ :: rows, .cons ⟨rs, read, r, stored, rfl⟩ combined, List.append_assoc ..⟩

theorem joinConditions_truth {rows : Frame} (combined : Combines db env joins rows) {c : Option Scalar}
    (known : HasTruth env f c) (decided : ConditionsHaveTruth db env joins f) :
    HasTruth env (f ++ rows) (joinConditions joins c) := by
  induction combined generalizing f c with
  | nil => rwa [List.append_nil]
  | @cons j b joins rows here _ ih =>
    obtain ⟨rs, read, r, member, rfl⟩ := here
    obtain ⟨first, later⟩ := (conditionsHaveTruth_cons read).1 decided _ (mem_crossing.2 ⟨r, member, rfl⟩)
    have grown := ih ((known.grown _).both first) later
    rwa [List.append_assoc] at grown

/-- Plain joins give, of the crossed frames, those that satisfy all conditions, in the same order. -/
theorem joinAll_crossed {frames : List Frame} {c : Option Scalar} (plain : ∀ j ∈ joins, j.IsPlain)
    (known : ∀ f ∈ frames, HasTruth env f c) (decided : ∀ f ∈ frames, ConditionsHaveTruth db env joins f) :
    joinAll db env joins (frames.filter (passes env c)) =
      (joinAll db env (joins.map Join.crossed) frames).map fun (all, columns) =>
        (all.filter (passes env (joinConditions joins c)), columns) := by
  induction joins generalizing frames c with
  | nil => rfl
  | cons j rest ih =>
    obtain ⟨first, others⟩ := List.forall_mem_cons.1 plain
    rw [List.map_cons]
    unfold joinAll joinOne
    cases read : sourceRows db env j.source with
    | error e => simp [Join.crossed, read, bind, Except.bind, Except.map]
    | ok rs =>
      have here : ∀ f ∈ frames, ∀ g ∈ crossing rs f, HasTruth env g j.on ∧ ConditionsHaveTruth db env rest g :=
        fun f member => (conditionsHaveTruth_cons read).1 (decided f member)
      have joined := extendFrames_crossed first known fun f member g crossed => (here f member g crossed).1
      -- the conditions so far are asked of the crossed frames, which the other joins extend
      have soFar : ∀ g ∈ frames.flatMap (crossing rs), HasTruth env g (bothOption c j.on) := by
        intro g member
        obtain ⟨f, inside, crossed⟩ := List.mem_flatMap.1 member
        have own := (here f inside g crossed).1
        obtain ⟨r, -, rfl⟩ := mem_crossing.1 crossed
        exact ((known f inside).grown _).both own
      have later : ∀ g ∈ frames.flatMap (crossing rs), ConditionsHaveTruth db env rest g := by
        intro g member
        obtain ⟨f, inside, crossed⟩ := List.mem_flatMap.1 member
        exact (here f inside g crossed).2
      simp only [Join.crossed, read, joined, extendFrames_cross, bind, Except.bind, pure, Except.pure]
      rw [ih others soFar later]
      unfold joinConditions
      rw [List.foldl_cons]
      cases joinAll db env (rest.map Join.crossed) (frames.flatMap (crossing rs)) <;> rfl

/-! ## Rows that are found -/

section

variable {table : StoredTable} {predicate : Option Scalar}

/-- Every condition of the joins and the predicate is a boolean, an integer or NULL for every combination of a row of the
table and rows of the sources; the condition of a join reads the sources up to its own. -/
structure Truthful (db : Database) (env : Environment) (table : StoredTable) (joins : List (Join Select))
    (predicate : Option Scalar) : Prop where
  conditions : ∀ t, db.find? table.name = some t → ∀ row ∈ t.rows,
    ConditionsHaveTruth db env joins [(RowSet.ofTable t table.label).visible row]
  predicate : ∀ t, db.find? table.name = some t → ∀ row ∈ t.rows, ∀ rows, Combines db env joins rows →
    HasTruth env ((RowSet.ofTable t table.label).visible row :: rows) predicate

theorem satisfyingFrom_crossed {rs : RowSet} (plain : ∀ j ∈ joins, j.IsPlain) {position : Nat} {rows : List Row}
    (conditions : ∀ row ∈ rows, ConditionsHaveTruth db env joins [rs.visible row])
    (predicates : ∀ row ∈ rows, ∀ joined, Combines db env joins joined →
      HasTruth env (rs.visible row :: joined) predicate) :
    satisfyingFrom db env rs joins predicate position rows =
      satisfyingFrom db env rs (joins.map Join.crossed) (crossedPredicate joins predicate) position rows := by
  induction rows generalizing position with
  | nil => rfl
  | cons row rest ih =>
    obtain ⟨here, others⟩ := List.forall_mem_cons.1 conditions
    obtain ⟨asks, othersAsk⟩ := List.forall_mem_cons.1 predicates
    have known : ∀ f ∈ [[rs.visible row]], HasTruth env f none := fun f _ => hasTruth_none env f
    have joined := joinAll_crossed plain known (List.forall_mem_singleton.2 here)
    rw [filter_passes_none] at joined
    unfold satisfyingFrom
    rw [joined, ih others othersAsk]
    cases crossed : joinAll db env (joins.map Join.crossed) [[rs.visible row]] with
    | error e => rfl
    | ok out =>
      obtain ⟨all, columns⟩ := out
      -- in a frame of the product, every condition has a truth value, so the conjunction fails nowhere
      have truths : ∀ g ∈ all, HasTruth env g (joinConditions joins none) ∧ HasTruth env g predicate := by
        intro g member
        obtain ⟨f, first, joined, combined, rfl⟩ := crossed_combines crossed member
        obtain rfl := List.mem_singleton.1 first
        exact ⟨joinConditions_truth combined (hasTruth_none env _) here, asks joined combined⟩
      have found : firstFrame? env predicate (all.filter (passes env (joinConditions joins none))) =
          firstFrame? env (crossedPredicate joins predicate) all := by
        unfold crossedPredicate
        rw [firstFrame?_eq_find? fun g member => (truths g (List.mem_of_mem_filter member)).2.holds,
          firstFrame?_eq_find? fun g member => ((truths g member).1.both (truths g member).2).holds, List.find?_filter]
        congr 2
        funext g
        simp [passes_bothOption]
      dsimp only [Except.map, bind, Except.bind]
      rw [found]

theorem satisfyingRows_crossed (plain : ∀ j ∈ joins, j.IsPlain) (truthful : Truthful db env table joins predicate) :
    satisfyingRows db env table joins predicate =
      satisfyingRows db env table (joins.map Join.crossed) (crossedPredicate joins predicate) := by
  unfold satisfyingRows
  cases stored : db.find? table.name with
  | none =>
    have missing : db.get table.name = .error (.unknownTable table.name) := by
      unfold Database.get
      rw [stored]
    rw [missing]
    rfl
  | some t =>
    rw [Database.get_eq_ok.2 stored]
    exact satisfyingFrom_crossed plain (truthful.conditions t stored) (truthful.predicate t stored)

end

end Execution

/-! ## The command -/

namespace Sql

open Relational

def Writer.joinedSources (ps : Parameters) : List (Join Select) → Writer (List Fragment)
  | [] => pure []
  | j :: rest => do
    let f ← source .sqlite ps j.source
    let rest ← joinedSources ps rest
    return f :: rest

theorem Writer.joinedSources_crossed (ps : Parameters) (joins : List (Join Select)) :
    joinedSources ps (joins.map Join.crossed) = joinedSources ps joins := by
  induction joins with
  | nil => rfl
  | cons j rest ih =>
    rw [List.map_cons]
    unfold joinedSources
    rw [ih]
    rfl

theorem Writer.updateSources_eq (ps : Parameters) {joins : List (Join Select)}
    (inner : ∀ j ∈ joins, j.kind ≠ .leftOuter) (condition : Option Scalar) :
    updateSources ps joins condition = do
      let sources ← joinedSources ps joins
      return (sources, joinConditions joins condition) := by
  induction joins generalizing condition with
  | nil => rfl
  | cons j rest ih =>
    obtain ⟨first, others⟩ := List.forall_mem_cons.1 inner
    unfold updateSources joinedSources joinConditions
    rw [if_neg first, List.foldl_cons]
    simp only [ih others, bind_assoc, pure_bind]
    rfl

/-- The command of an update whose sources stand behind FROM and whose conditions all stand behind WHERE. -/
def Writer.crossedUpdate (ps : Parameters) (table : StoredTable) (set : List Projection) (predicate : Option Scalar)
    (joins : List (Join Select)) : Writer Fragment := do
  let set ← assignments .sqlite ps none set
  let sources ← joinedSources ps joins
  let filter ← conditionLine .sqlite ps "WHERE " predicate
  let from' := if sources.isEmpty then [] else [.word "FROM " ++ Fragment.list sources]
  return .lines ([.word "UPDATE " ++ (Fragment.table table).labelled table.label,
    .word "SET " ++ .list set] ++ from' ++ filter)

theorem Writer.sqliteStatement_update (ps : Parameters) (table : StoredTable) (set : List Projection)
    (predicate : Option Scalar) {joins : List (Join Select)} (inner : ∀ j ∈ joins, j.kind ≠ .leftOuter) :
    sqliteStatement ps (.update table set predicate joins) =
      crossedUpdate ps table set (crossedPredicate joins predicate) joins := by
  unfold sqliteStatement crossedUpdate
  simp only [updateSources_eq ps inner, bind_assoc, pure_bind]
  cases predicate <;> rfl

end Sql

namespace Execution

open Relational

/-- An update with plain joins whose conditions and predicate have a truth for every combination of rows finds the same
rows of its table, each with the same first frame, as one that joins its sources crosswise and asks for all conditions,
and then the predicate, of the complete frames. That is the update that SQLite is given. -/
theorem crossed_updates_find_the_same_rows {db : Database} {env : Environment} {table : StoredTable}
    {joins : List (Join Select)} {predicate : Option Scalar} (plain : ∀ j ∈ joins, j.IsPlain)
    (truthful : Truthful db env table joins predicate) :
    satisfyingRows db env table joins predicate =
        satisfyingRows db env table (joins.map Join.crossed) (crossedPredicate joins predicate) ∧
      ∀ ps set, Sql.Writer.sqliteStatement ps (.update table set predicate joins) =
        Sql.Writer.crossedUpdate ps table set (crossedPredicate joins predicate) (joins.map Join.crossed) := by
  refine ⟨satisfyingRows_crossed plain truthful, fun ps set => ?_⟩
  have inner : ∀ j ∈ joins, j.kind ≠ .leftOuter := by
    intro j member outer
    rcases plain j member with kind | ⟨kind, -⟩ <;> cases kind.symm.trans outer
  rw [Sql.Writer.sqliteStatement_update ps table set predicate inner]
  unfold Sql.Writer.crossedUpdate
  rw [Sql.Writer.joinedSources_crossed]

def days : Join Select :=
  { kind := .cross, source := .literal ⟨"t", ["Day"], .immediate [[.constant .null], [.constant (.int 5)]]⟩, on := none }

def exceedsDay : Scalar :=
  .binary (.column "d" "Amount") .greater (.column "t" "Day")

/-- The first item is found with its first delivery and the second day; for the first day the predicate is unknown. -/
theorem delivered_item_found_crosswise :
    satisfyingRows twoItems { parameters := {} } ⟨"Items", none, "i"⟩ ([deliveries, days].map Join.crossed)
        (crossedPredicate [deliveries, days] (some exceedsDay)) =
      .ok [(0, [⟨"i", ["Id", "Value"], [.int 1, .int 10]⟩, ⟨"d", ["Item", "Amount"], [.int 1, .int 7]⟩,
        ⟨"t", ["Day"], [.int 5]⟩])] := by
  -- one item, three deliveries and two days: every condition has a truth value in each combination
  have truthful : Truthful twoItems { parameters := {} } ⟨"Items", none, "i"⟩ [deliveries, days] (some exceedsDay) := by
    constructor
    · intro t stored row member
      obtain rfl : itemsTable = t := Option.some.inj stored
      refine (conditionsHaveTruth_cons rfl).2 fun g crossed => ⟨?_, ?_⟩
      · obtain ⟨r, delivered, rfl⟩ := mem_crossing.1 crossed
        simp only [itemsTable, List.mem_cons, List.not_mem_nil, or_false] at member delivered
        rintro _ ⟨⟩
        rcases member with rfl | rfl <;> rcases delivered with rfl | rfl | rfl <;> exact ⟨_, _, rfl, rfl⟩
      · exact (conditionsHaveTruth_cons rfl).2 fun _ _ => ⟨hasTruth_none _ _, conditionsHaveTruth_nil _ _ _⟩
    · intro t stored row member rows combined
      obtain rfl : itemsTable = t := Option.some.inj stored
      obtain ⟨_, _, ⟨rs, read, r, delivered, rfl⟩, others, rfl⟩ := List.forall₂_cons_left_iff.1 combined
      obtain ⟨_, _, ⟨rs', read', r', day, rfl⟩, last, rfl⟩ := List.forall₂_cons_left_iff.1 others
      obtain rfl := List.forall₂_nil_left_iff.1 last
      obtain rfl := Except.ok.inj read
      obtain rfl := Except.ok.inj read'
      simp only [itemsTable, List.mem_cons, List.not_mem_nil, or_false] at member delivered day
      rintro _ ⟨⟩
      rcases member with rfl | rfl <;> rcases delivered with rfl | rfl | rfl <;> rcases day with rfl | rfl <;>
        exact ⟨_, _, rfl, rfl⟩
  have plain : ∀ j ∈ [deliveries, days], j.IsPlain :=
    List.forall_mem_cons.2 ⟨.inl rfl, List.forall_mem_singleton.2 (.inr ⟨rfl, rfl⟩)⟩
  exact (crossed_updates_find_the_same_rows plain truthful).1.symm.trans (by decide)

end Execution

end Setwise
