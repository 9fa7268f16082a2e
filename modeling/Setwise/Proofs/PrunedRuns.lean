import Setwise.Proofs.AgreeingWrites
import Setwise.Proofs.PlannedMutations

/-!
Runs of pruned plans.

A condition and what pruning leaves of it have the same truth (`eval_prune`). So a pruned filter lets the same frames
pass, a pruned select has the same rows, and a pruned statement makes the same writes; binding finds the same literal
tables in a pruned block. Whatever a plan does when it succeeds, the pruned plan does (`pruning_keeps_runs`).
-/

set_option autoImplicit false

namespace Setwise

namespace Value

theorem truth?_ofTruth (t : Option Bool) : (ofTruth t).truth? = some t := by
  cases t <;> rfl

theorem isTrue_eq (v : Value) : v.isTrue = (v.truth? == some (some true)) := by
  cases truth : v.truth? with
  | none => cases v <;> first | rfl | cases truth
  | some t =>
    rw [isTrue_of_truth? truth]
    cases t <;> rfl

theorem conjunction_true (t : Option Bool) : conjunction t (some true) = t := by
  rcases t with _ | _ | _ <;> rfl

theorem true_conjunction (t : Option Bool) : conjunction (some true) t = t := by
  rcases t with _ | _ | _ <;> rfl

theorem apply_and_eq_ok {v w u : Value} :
    v.apply .and w = .ok u ↔ ∃ a b, v.truth? = some a ∧ w.truth? = some b ∧ u = ofTruth (conjunction a b) := by
  unfold apply
  simp only [true_or, if_true]
  cases v.truth? with
  | none => simp
  | some a =>
    cases w.truth? with
    | none => simp
    | some b => simp [eq_comm]

end Value

/-! ## Conditions -/

namespace Execution

open Relational

variable {env : Environment}

/-- A condition that has a value is true if pruning drops it, and has the truth of what pruning leaves otherwise. -/
theorem eval_prune {f : Frame} {e : Scalar} {v : Value} (h : eval env f e = .ok v) :
    match e.prune with
    | none => v.truth? = some (some true)
    | some rest => ∃ w, eval env f rest = .ok w ∧ w.truth? = v.truth? := by
  induction e generalizing v with
  | constant c =>
    obtain rfl := Except.ok.inj h
    cases constantTrue : c.isTrue with
    | true =>
      rw [Value.isTrue_eq, beq_iff_eq] at constantTrue
      simp [Scalar.prune, Scalar.isConstantTrue, Value.isTrue_eq, constantTrue]
    | false => simpa [Scalar.prune, Scalar.isConstantTrue, constantTrue] using ⟨c, rfl, rfl⟩
  | binary l op r ihl ihr =>
    by_cases conjunction : op = .and
    case neg => simpa [Scalar.prune, conjunction] using ⟨v, h, rfl⟩
    case pos =>
      subst conjunction
      unfold eval at h
      obtain ⟨vl, left, h⟩ := bind_eq_ok.1 h
      obtain ⟨vr, right, h⟩ := bind_eq_ok.1 h
      obtain ⟨a, b, truthLeft, truthRight, rfl⟩ := Value.apply_and_eq_ok.1 (mapError_eq_ok.1 h)
      have leftPart := ihl left
      have rightPart := ihr right
      rw [truthLeft] at leftPart
      rw [truthRight] at rightPart
      unfold Scalar.prune
      rw [if_pos rfl, Value.truth?_ofTruth]
      -- a conjunct that is always true falls away; of the others the truth is kept, though perhaps not the value
      cases restLeft : l.prune with
      | none =>
        rw [restLeft] at leftPart
        obtain rfl := Option.some.inj leftPart
        rw [Value.true_conjunction]
        exact rightPart
      | some l' =>
        rw [restLeft] at leftPart
        obtain ⟨wl, valueLeft, sameLeft⟩ := leftPart
        cases restRight : r.prune with
        | none =>
          rw [restRight] at rightPart
          obtain rfl := Option.some.inj rightPart
          rw [Value.conjunction_true]
          exact ⟨wl, valueLeft, sameLeft⟩
        | some r' =>
          rw [restRight] at rightPart
          obtain ⟨wr, valueRight, sameRight⟩ := rightPart
          refine ⟨Value.ofTruth (Value.conjunction a b), ?_, Value.truth?_ofTruth _⟩
          unfold eval
          refine bind_eq_ok.2 ⟨wl, valueLeft, bind_eq_ok.2 ⟨wr, valueRight, mapError_eq_ok.2 ?_⟩⟩
          exact Value.apply_and_eq_ok.2 ⟨a, b, sameLeft, sameRight, rfl⟩
  | _ => exact ⟨v, h, rfl⟩

theorem holdsOption_prune {f : Frame} {condition : Option Scalar} {keep : Bool}
    (h : holdsOption env f condition = .ok keep) : holdsOption env f (condition.bind Scalar.prune) = .ok keep := by
  cases condition with
  | none => exact h
  | some e =>
    obtain ⟨v, value, rfl⟩ := holds_eq_ok.1 h
    have pruned := eval_prune value
    rw [Option.bind_some, Value.isTrue_eq]
    cases rest : e.prune with
    | none =>
      rw [rest] at pruned
      rw [pruned]
      rfl
    | some e' =>
      rw [rest] at pruned
      obtain ⟨w, here, same⟩ := pruned
      exact holds_eq_ok.2 ⟨w, here, by rw [Value.isTrue_eq, same]⟩

theorem filterFrames_prune {condition : Option Scalar} {frames found : List Frame}
    (h : filterFrames env condition frames = .ok found) :
    filterFrames env (condition.bind Scalar.prune) frames = .ok found := by
  induction frames generalizing found with
  | nil => exact h
  | cons f rest ih =>
    obtain ⟨keep, here, h⟩ := bind_eq_ok.1 h
    obtain ⟨others, later, h⟩ := bind_eq_ok.1 h
    exact bind_eq_ok.2 ⟨keep, holdsOption_prune here, bind_eq_ok.2 ⟨others, ih later, h⟩⟩

theorem restrict_prune {predicate having : Option Scalar} {groupBy : List Scalar} {frames found : List Frame}
    (h : restrict env predicate groupBy having frames = .ok found) :
    restrict env (predicate.bind Scalar.prune) groupBy (having.bind Scalar.prune) frames = .ok found := by
  obtain ⟨kept, filtered, h⟩ := bind_eq_ok.1 h
  obtain ⟨groups, grouped, last⟩ := bind_eq_ok.1 h
  exact bind_eq_ok.2 ⟨kept, filterFrames_prune filtered, bind_eq_ok.2 ⟨groups, grouped, filterFrames_prune last⟩⟩

theorem firstFrame?_prune {predicate : Option Scalar} {frames : List Frame} {found : Option Frame}
    (h : firstFrame? env predicate frames = .ok found) :
    firstFrame? env (predicate.bind Scalar.prune) frames = .ok found := by
  induction frames with
  | nil => exact h
  | cons f rest ih =>
    obtain ⟨keep, here, h⟩ := bind_eq_ok.1 h
    refine bind_eq_ok.2 ⟨keep, holdsOption_prune here, ?_⟩
    cases keep with
    | true => exact h
    | false => exact ih h

/-! ## Selects -/

section

variable {db : Database}

mutual

theorem selectRows_prune {s : Select} {output : Output} (h : selectRows db env s = .ok output) :
    selectRows db env s.prune = .ok output := by
  match s with
  | { source, joins, predicate, groupBy, having, projection, union, orderBy, limit, offset } =>
    unfold selectRows at h
    obtain ⟨first, rows, h⟩ := bind_eq_ok.1 h
    obtain ⟨⟨all, columns⟩, joined, h⟩ := bind_eq_ok.1 h
    obtain ⟨kept, restricted, h⟩ := bind_eq_ok.1 h
    unfold Select.prune selectRows
    refine bind_eq_ok.2 ⟨first, sourceRows_prune rows, bind_eq_ok.2 ⟨(all, columns), joinAll_prune joined, ?_⟩⟩
    refine bind_eq_ok.2 ⟨kept, restrict_prune restricted, ?_⟩
    match union with
    | none => exact h
    | some other =>
      obtain ⟨own, here, h⟩ := bind_eq_ok.1 h
      obtain ⟨more, there, h⟩ := bind_eq_ok.1 h
      exact bind_eq_ok.2 ⟨own, here, bind_eq_ok.2 ⟨more, selectRows_prune there, h⟩⟩

theorem sourceRows_prune {s : Source} {rs : RowSet} (h : sourceRows db env s = .ok rs) :
    sourceRows db env (Source.prune s) = .ok rs := by
  match s with
  | .table ref => exact h
  | .literal v => exact h
  | .subquery select label =>
    unfold sourceRows at h
    obtain ⟨output, rows, h⟩ := bind_eq_ok.1 h
    unfold Source.prune sourceRows
    exact bind_eq_ok.2 ⟨output, selectRows_prune rows, h⟩

theorem joinAll_prune {js : List (Join Select)} {frames : List Frame} {found : List Frame × List String}
    (h : joinAll db env js frames = .ok found) : joinAll db env (Join.pruneAll js) frames = .ok found := by
  match js with
  | [] => exact h
  | { kind, source, on } :: rest =>
    obtain ⟨others, columns⟩ := found
    obtain ⟨rs, middle, behind, rows, extended, later, rfl⟩ := joinAll_cons_eq_ok.1 h
    unfold Join.pruneAll
    exact joinAll_cons_eq_ok.2 ⟨rs, middle, behind, sourceRows_prune rows, extended, joinAll_prune later, rfl⟩

end

theorem selectFrames_prune {s : Select} {frames : List Frame} (h : selectFrames db env s = .ok frames) :
    selectFrames db env s.prune = .ok frames := by
  obtain ⟨all, joined, restricted⟩ := selectFrames_eq_ok.1 h
  obtain ⟨first, columns, rows, joined⟩ := joinedFrames_eq_ok.1 joined
  cases s
  refine selectFrames_eq_ok.2 ⟨all, ?_, restrict_prune restricted⟩
  exact joinedFrames_eq_ok.2 ⟨first, columns, sourceRows_prune rows, joinAll_prune joined⟩

/-! ## Statements -/

theorem satisfyingRows_prune {table : StoredTable} {joins : List (Join Select)} {predicate : Option Scalar}
    {found : List (Nat × Frame)} (h : satisfyingRows db env table joins predicate = .ok found) :
    satisfyingRows db env table (Join.pruneAll joins) (predicate.bind Scalar.prune) = .ok found := by
  have walk {rs : RowSet} {rows : List Row} {position : Nat} {found : List (Nat × Frame)}
      (h : satisfyingFrom db env rs joins predicate position rows = .ok found) :
      satisfyingFrom db env rs (Join.pruneAll joins) (predicate.bind Scalar.prune) position rows = .ok found := by
    induction rows generalizing position found with
    | nil => exact h
    | cons r rest ih =>
      obtain ⟨all, joined, h⟩ := bind_eq_ok.1 h
      obtain ⟨first, here, h⟩ := bind_eq_ok.1 h
      obtain ⟨others, later, h⟩ := bind_eq_ok.1 h
      refine bind_eq_ok.2 ⟨all, joinAll_prune joined, bind_eq_ok.2 ⟨first, firstFrame?_prune here, ?_⟩⟩
      exact bind_eq_ok.2 ⟨others, ih later, h⟩
  obtain ⟨t, stored, h⟩ := bind_eq_ok.1 h
  exact bind_eq_ok.2 ⟨t, stored, walk h⟩

theorem incomingRows_prune {source : Option Select} {inserted : List Projection} {rows : List Row}
    (h : incomingRows db env source inserted = .ok rows) :
    incomingRows db env (Select.pruneOption source) inserted = .ok rows := by
  cases source with
  | none => exact h
  | some s =>
    obtain ⟨frames, selected, h⟩ := bind_eq_ok.1 h
    exact bind_eq_ok.2 ⟨frames, selectFrames_prune selected, h⟩

theorem write_prune {s : Statement} {t u : Table} {n : Nat} (h : (write db env s).run t = (.ok n, u)) :
    (write db env s.prune).run t = (.ok n, u) := by
  cases s with
  | delete table predicate joins | update table set predicate joins =>
    unfold write at h
    obtain ⟨found, _, first, rest⟩ := Write.bind_eq_ok.1 h
    obtain ⟨satisfying, rfl⟩ := Write.ofResult_eq_ok.1 first
    unfold Statement.prune write
    exact Write.bind_eq_ok.2 ⟨found, _, Write.ofResult_eq_ok.2 ⟨satisfyingRows_prune satisfying, rfl⟩, rest⟩
  | insertInto table schema select =>
    unfold write at h
    obtain ⟨output, _, first, rest⟩ := Write.bind_eq_ok.1 h
    obtain ⟨selected, rfl⟩ := Write.ofResult_eq_ok.1 first
    unfold Statement.prune write
    exact Write.bind_eq_ok.2 ⟨output, _, Write.ofResult_eq_ok.2 ⟨selectRows_prune selected, rfl⟩, rest⟩
  | upsert table source inserted updated constraint columns =>
    unfold write at h
    obtain ⟨rows, _, first, rest⟩ := Write.bind_eq_ok.1 h
    obtain ⟨incoming, rfl⟩ := Write.ofResult_eq_ok.1 first
    unfold Statement.prune write
    exact Write.bind_eq_ok.2 ⟨rows, _, Write.ofResult_eq_ok.2 ⟨incomingRows_prune incoming, rfl⟩, rest⟩
  | merge target source on matched inserted deleteUnmatched =>
    -- the condition of the merge and what it assigns stay as they are; only the source is pruned
    unfold write merge at h
    obtain ⟨stored, _, here, h⟩ := Write.bind_eq_ok.1 h
    obtain ⟨rs, _, first, rest⟩ := Write.bind_eq_ok.1 h
    obtain ⟨rows, rfl⟩ := Write.ofResult_eq_ok.1 first
    unfold Statement.prune write merge
    refine Write.bind_eq_ok.2 ⟨stored, _, here, ?_⟩
    exact Write.bind_eq_ok.2 ⟨rs, _, Write.ofResult_eq_ok.2 ⟨sourceRows_prune rows, rfl⟩, rest⟩
  | truncate table => exact h
  | noop => exact h

end

theorem run_prune {db after : Database} {b : Block} {ps : Parameters} {outcome : Outcome}
    (h : run db b ps = (.ok outcome, after)) : run db b.prune ps = (.ok outcome, after) := by
  cases b with
  | select s =>
    obtain ⟨delivered, rfl⟩ := Prod.mk.inj h
    obtain ⟨output, rows, rfl⟩ := map_eq_ok.1 delivered
    exact Prod.ext (map_eq_ok.2 ⟨output, selectRows_prune rows, rfl⟩) rfl
  | affected s =>
    have target : targetTable? s.prune = targetTable? s := by cases s <;> rfl
    obtain ⟨n, written, rfl⟩ := run_affected_eq_ok.1 h
    refine run_affected_eq_ok.2 ⟨n, ?_, rfl⟩
    rcases runWrite_eq_ok written with ⟨none, rfl, rfl⟩ | ⟨name, before, t, some, stored, checked, rfl⟩
    · unfold runWrite
      rw [target, none]
    · obtain ⟨changed, unique⟩ := writeChecked_eq_ok.1 checked
      have pruned := writeChecked_eq_ok.2 ⟨write_prune changed, unique⟩
      unfold runWrite
      rw [target, some]
      dsimp only
      rw [stored]
      dsimp only
      rw [pruned]

end Execution

/-! ## Binding -/

namespace Relational

open Execution

section

variable {ε : Type} {f : LiteralTable → Except ε LiteralTable}

mutual

theorem Select.mapLiteralTables_prune {s t : Select} (h : s.mapLiteralTables f = .ok t) :
    s.prune.mapLiteralTables f = .ok t.prune := by
  match s with
  | { source, joins, predicate, groupBy, having, projection, union, orderBy, limit, offset } =>
    unfold Select.mapLiteralTables at h
    obtain ⟨source', first, h⟩ := bind_eq_ok.1 h
    obtain ⟨joins', second, h⟩ := bind_eq_ok.1 h
    obtain ⟨union', third, h⟩ := bind_eq_ok.1 h
    obtain rfl := pure_eq_ok.1 h
    unfold Select.prune Select.mapLiteralTables
    refine bind_eq_ok.2 ⟨_, Source.mapLiteralTables_prune first, ?_⟩
    refine bind_eq_ok.2 ⟨_, Join.mapLiteralTablesAll_prune second, ?_⟩
    exact bind_eq_ok.2 ⟨_, Select.mapLiteralTablesOption_prune third, rfl⟩
termination_by structural s

theorem Source.mapLiteralTables_prune {s t : Source} (h : Source.mapLiteralTables f s = .ok t) :
    Source.mapLiteralTables f (Source.prune s) = .ok (Source.prune t) := by
  match s with
  | .table ref =>
    obtain rfl := Except.ok.inj h
    rfl
  | .literal v =>
    unfold Source.mapLiteralTables at h
    obtain ⟨v', mapped, h⟩ := bind_eq_ok.1 h
    obtain rfl := pure_eq_ok.1 h
    unfold Source.prune Source.mapLiteralTables
    exact bind_eq_ok.2 ⟨v', mapped, rfl⟩
  | .subquery select label =>
    unfold Source.mapLiteralTables at h
    obtain ⟨select', mapped, h⟩ := bind_eq_ok.1 h
    obtain rfl := pure_eq_ok.1 h
    unfold Source.prune Source.mapLiteralTables
    exact bind_eq_ok.2 ⟨_, Select.mapLiteralTables_prune mapped, rfl⟩
termination_by structural s

theorem Join.mapLiteralTablesAll_prune {js ks : List (Join Select)} (h : Join.mapLiteralTablesAll f js = .ok ks) :
    Join.mapLiteralTablesAll f (Join.pruneAll js) = .ok (Join.pruneAll ks) := by
  match js with
  | [] =>
    obtain rfl := Except.ok.inj h
    rfl
  | j :: rest =>
    obtain ⟨k, here, h⟩ := bind_eq_ok.1 h
    obtain ⟨others, later, h⟩ := bind_eq_ok.1 h
    obtain rfl := pure_eq_ok.1 h
    unfold Join.pruneAll Join.mapLiteralTablesAll
    refine bind_eq_ok.2 ⟨_, Join.mapLiteralTables_prune here, ?_⟩
    exact bind_eq_ok.2 ⟨_, Join.mapLiteralTablesAll_prune later, rfl⟩
termination_by structural js

theorem Join.mapLiteralTables_prune {j k : Join Select} (h : Join.mapLiteralTables f j = .ok k) :
    Join.mapLiteralTables f (Join.prune j) = .ok (Join.prune k) := by
  match j with
  | { kind, source, on } =>
    obtain ⟨source', mapped, h⟩ := bind_eq_ok.1 h
    obtain rfl := pure_eq_ok.1 h
    unfold Join.prune Join.mapLiteralTables
    exact bind_eq_ok.2 ⟨_, Source.mapLiteralTables_prune mapped, rfl⟩
termination_by structural j

theorem Select.mapLiteralTablesOption_prune {s t : Option Select} (h : Select.mapLiteralTablesOption f s = .ok t) :
    Select.mapLiteralTablesOption f (Select.pruneOption s) = .ok (Select.pruneOption t) := by
  match s with
  | none =>
    obtain rfl := Except.ok.inj h
    rfl
  | some select =>
    unfold Select.mapLiteralTablesOption at h
    obtain ⟨select', mapped, h⟩ := bind_eq_ok.1 h
    obtain rfl := pure_eq_ok.1 h
    unfold Select.pruneOption Select.mapLiteralTablesOption
    exact bind_eq_ok.2 ⟨_, Select.mapLiteralTables_prune mapped, rfl⟩
termination_by structural s

end

theorem Statement.mapLiteralTables_prune {s t : Statement} (h : s.mapLiteralTables f = .ok t) :
    s.prune.mapLiteralTables f = .ok t.prune := by
  cases s with
  | delete table predicate joins | update table set predicate joins =>
    obtain ⟨js, mapped, h⟩ := bind_eq_ok.1 h
    obtain rfl := pure_eq_ok.1 h
    exact bind_eq_ok.2 ⟨_, Join.mapLiteralTablesAll_prune mapped, rfl⟩
  | insertInto table schema select =>
    obtain ⟨select', mapped, h⟩ := bind_eq_ok.1 h
    obtain rfl := pure_eq_ok.1 h
    exact bind_eq_ok.2 ⟨_, Select.mapLiteralTables_prune mapped, rfl⟩
  | upsert table source inserted updated constraint columns =>
    obtain ⟨source', mapped, h⟩ := bind_eq_ok.1 h
    obtain rfl := pure_eq_ok.1 h
    exact bind_eq_ok.2 ⟨_, Select.mapLiteralTablesOption_prune mapped, rfl⟩
  | merge target source on matched inserted deleteUnmatched =>
    obtain ⟨source', mapped, h⟩ := bind_eq_ok.1 h
    obtain rfl := pure_eq_ok.1 h
    exact bind_eq_ok.2 ⟨_, Source.mapLiteralTables_prune mapped, rfl⟩
  | truncate table | noop =>
    obtain rfl := Except.ok.inj h
    rfl

theorem Block.mapLiteralTables_prune {b c : Block} (h : b.mapLiteralTables f = .ok c) :
    b.prune.mapLiteralTables f = .ok c.prune := by
  cases b with
  | select s =>
    obtain ⟨s', mapped, h⟩ := bind_eq_ok.1 h
    obtain rfl := pure_eq_ok.1 h
    exact bind_eq_ok.2 ⟨_, Select.mapLiteralTables_prune mapped, rfl⟩
  | affected s =>
    obtain ⟨s', mapped, h⟩ := bind_eq_ok.1 h
    obtain rfl := pure_eq_ok.1 h
    exact bind_eq_ok.2 ⟨_, Statement.mapLiteralTables_prune mapped, rfl⟩

end

theorem Fallback.prune_statement (fallback : Fallback) : fallback.statement.prune = fallback.statement := by
  cases fallback <;> rfl

theorem Plan.bind_prune {plan : Plan} {ps : Parameters} {b : Block} (h : plan.bind ps = .ok b) :
    Plan.bind { plan with root := plan.root.prune } ps = .ok b.prune := by
  obtain ⟨empty, found, h⟩ := bind_eq_ok.1 h
  refine bind_eq_ok.2 ⟨empty, found, ?_⟩
  cases empty with
  | none => exact Block.mapLiteralTables_prune h
  | some statement =>
    obtain rfl := pure_eq_ok.1 h
    obtain ⟨feed, -, -, rfl⟩ := emptyStatement?_eq_some found
    exact congrArg (fun s => Except.ok (Block.affected s)) (Fallback.prune_statement _).symm

/-- Whatever a plan does when it succeeds, the pruned plan does too. Of a single condition that has a value, pruning
leaves nothing only if the value is true, and otherwise a condition that is satisfied just when the value is. -/
theorem pruning_keeps_runs (plan : Plan) (ps : Parameters) (db : Database) :
    (∀ b outcome after, plan.bind ps = .ok b → run db b ps = (.ok outcome, after) →
      ∃ pruned, Plan.bind { plan with root := plan.root.prune } ps = .ok pruned ∧
        run db pruned ps = (.ok outcome, after)) ∧
    (∀ (env : Environment) (f : Frame) (e : Scalar) (v : Value), eval env f e = .ok v →
      (e.prune = none → v.isTrue = true) ∧
        ∀ rest, e.prune = some rest → ∃ w, eval env f rest = .ok w ∧ w.isTrue = v.isTrue) := by
  refine ⟨fun b outcome after bound ran => ⟨b.prune, Plan.bind_prune bound, run_prune ran⟩, ?_⟩
  intro env f e v value
  have pruned := eval_prune value
  constructor
  · intro dropped
    rw [dropped] at pruned
    rw [Value.isTrue_eq, pruned]
    rfl
  · intro rest left
    rw [left] at pruned
    obtain ⟨w, here, same⟩ := pruned
    exact ⟨w, here, by rw [Value.isTrue_eq, Value.isTrue_eq, same]⟩

def valued (values : List Value) : Database :=
  Database.ofTables [
    { name := "Items"
      columns := [⟨"Id", .integer, false⟩, ⟨"Value", .integer, true⟩]
      rows := values.zipIdx.map fun (v, i) => [.int (i + 1), v] }]

def truthfulItem : Scalar :=
  .binary (.column "i" "Value") .and (.constant (.int 1))

def deleteTruthful : Plan where
  root := .affected (.delete ⟨"Items", none, "i"⟩ (some truthfulItem) [])

/-- Pruning leaves the value of the item as the condition: a number, where the conjunction was a truth value. -/
theorem truthfulItem_pruned :
    (∃ pruned, Plan.bind { deleteTruthful with root := deleteTruthful.root.prune } {} = .ok pruned ∧
      run (valued [.int 0, .null, .int 7]) pruned {} = (.ok (.affected 1), valued [.int 0, .null])) ∧
    ∃ w, eval { parameters := {} } [⟨"i", ["Value"], [.int 7]⟩] (.column "i" "Value") = .ok w ∧
      w.isTrue = (Value.bool true).isTrue :=
  have kept := pruning_keeps_runs deleteTruthful {} (valued [.int 0, .null, .int 7])
  ⟨kept.1 _ _ _ rfl (by decide), (kept.2 _ _ truthfulItem _ rfl).2 _ rfl⟩

end Relational

end Setwise
