import Setwise.Proofs.Contents
import Setwise.Proofs.Writing

/-!
Running blocks whose literal tables are bound.

An error about rows that are not bound comes from a literal table whose rows are pending, and from nothing else. The
executor reaches the literal tables of a block by its own recursion; where none of them is pending at any depth, it
never fails with that error (`run_bound`).
-/

set_option autoImplicit false

namespace Setwise

namespace Relational

def LiteralTable.Bound (v : LiteralTable) : Prop :=
  ∀ parameter, v.rows ≠ .pending parameter

abbrev Select.Bound (s : Select) : Prop :=
  s.Everywhere (fun _ => True) LiteralTable.Bound

abbrev Source.Bound (s : Source) : Prop :=
  Source.Everywhere (fun _ => True) LiteralTable.Bound s

abbrev Join.Bound (js : List (Join Select)) : Prop :=
  Join.Everywhere (fun _ => True) LiteralTable.Bound js

abbrev Statement.Bound (s : Statement) : Prop :=
  s.Everywhere (fun _ => True) LiteralTable.Bound

abbrev Block.Bound (b : Block) : Prop :=
  b.Everywhere (fun _ => True) LiteralTable.Bound

theorem Select.Everywhere.bound_of_same {s t : Select} (bound : s.Bound) (source : t.source = s.source)
    (joins : t.joins = s.joins) (union : t.union = s.union) : t.Bound := by
  obtain ⟨inSource, inJoins, -, -, -, -, -, inUnion, -, -, -⟩ := bound
  rw [← source] at inSource
  rw [← joins] at inJoins
  rw [← union] at inUnion
  exact .intro inSource inJoins (by simp) (by simp) (by simp) (by simp) (by simp) inUnion (by simp) (by simp) (by simp)

end Relational

namespace Execution

open Relational

/-! ## Computations that find their rows -/

def Error.isUnbound : Error → Bool
  | unbound _ => true
  | _ => false

def FindsRows {α : Type} (x : Except Error α) : Prop :=
  ∀ e, x = .error e → e.isUnbound = false

namespace FindsRows

variable {α β : Type}

theorem ok (a : α) : FindsRows (.ok a) := by
  rintro _ ⟨⟩

theorem pure (a : α) : FindsRows (Pure.pure a : Except Error α) :=
  ok a

theorem error {e : Error} (other : e.isUnbound = false) : FindsRows (.error e : Except Error α) := by
  rintro _ ⟨⟩
  exact other

theorem recast {e : Error} (h : FindsRows (.error e : Except Error α)) : FindsRows (.error e : Except Error β) :=
  error (h e rfl)

theorem ne_unbound {x : Except Error α} (h : FindsRows x) (name : String) : x ≠ .error (.unbound name) := by
  intro failed
  cases h _ failed

theorem bind {x : Except Error α} {f : α → Except Error β} (first : FindsRows x) (rest : ∀ a, FindsRows (f a)) :
    FindsRows (x >>= f) := by
  cases x with
  | error e => exact first.recast
  | ok a => exact rest a

theorem map {x : Except Error α} (h : FindsRows x) (f : α → β) : FindsRows (x.map f) := by
  cases x with
  | error e => exact h.recast
  | ok a => exact ok (f a)

theorem mapError {ε : Type} {x : Except ε α} {f : ε → Error} (other : ∀ e, (f e).isUnbound = false) :
    FindsRows (x.mapError f) := by
  cases x with
  | error e => exact error (other e)
  | ok a => exact ok a

end FindsRows

/-! ## Expressions and frames -/

section

variable (env : Environment)

theorem columnValue_findsRows (source : String) (columns : List String) (values : Row) (name : String) :
    FindsRows (columnValue source columns values name) := by
  unfold columnValue
  split
  next => exact .error rfl
  next =>
    split
    next v _ => exact .ok v
    next => exact .error rfl

theorem eval_findsRows (f : Frame) (e : Scalar) : FindsRows (eval env f e) := by
  induction e with
  | column source name =>
    unfold eval
    split
    next => exact .error rfl
    next b _ => exact columnValue_findsRows source b.columns b.values name
  | constant v => exact .ok v
  | parameter name => exact .mapError fun _ => rfl
  | binary l op r ihl ihr => exact .bind ihl fun _ => .bind ihr fun _ => .mapError fun _ => rfl
  | not e ih => exact .bind ih fun _ => .mapError fun _ => rfl
  | isNull e ih | isNotNull e ih => exact .bind ih fun _ => .pure _
  | case test a b iht iha ihb =>
    refine .bind iht fun v => ?_
    split
    next => exact iha
    next => exact ihb
  | excluded column =>
    unfold eval
    split
    next => exact .error rfl
    next columns values _ => exact columnValue_findsRows "excluded" columns values column

theorem holds_findsRows (f : Frame) (condition : Scalar) : FindsRows (holds env f condition) :=
  .bind (eval_findsRows env f condition) fun _ => .pure _

theorem holdsOption_findsRows (f : Frame) (condition : Option Scalar) : FindsRows (holdsOption env f condition) := by
  cases condition with
  | none => exact .ok true
  | some e => exact holds_findsRows env f e

theorem evalAll_findsRows (f : Frame) (es : List Scalar) : FindsRows (evalAll env f es) := by
  induction es with
  | nil => exact .ok []
  | cons e rest ih => exact .bind (eval_findsRows env f e) fun _ => .bind ih fun _ => .pure _

theorem project_findsRows (f : Frame) (ps : List Projection) : FindsRows (project env f ps) :=
  evalAll_findsRows env f _

theorem filterFrames_findsRows (condition : Option Scalar) (frames : List Frame) :
    FindsRows (filterFrames env condition frames) := by
  induction frames with
  | nil => exact .ok []
  | cons f rest ih => exact .bind (holdsOption_findsRows env f condition) fun _ => .bind ih fun _ => .pure _

theorem firstOfGroups_findsRows (keys : List Scalar) (seen : List Row) (frames : List Frame) :
    FindsRows (firstOfGroups env keys seen frames) := by
  induction frames generalizing seen with
  | nil => exact .ok []
  | cons f rest ih =>
    refine .bind (evalAll_findsRows env f keys) fun key => ?_
    split
    next => exact ih seen
    next => exact .bind (ih _) fun _ => .pure _

theorem groupFrames_findsRows (keys : List Scalar) (frames : List Frame) : FindsRows (groupFrames env keys frames) := by
  unfold groupFrames
  split
  next => exact .ok frames
  next => exact firstOfGroups_findsRows env keys [] frames

theorem restrict_findsRows (predicate : Option Scalar) (groupBy : List Scalar) (having : Option Scalar)
    (frames : List Frame) : FindsRows (restrict env predicate groupBy having frames) :=
  .bind (filterFrames_findsRows env predicate frames) fun frames =>
    .bind (groupFrames_findsRows env groupBy frames) fun frames => filterFrames_findsRows env having frames

theorem withKeys_findsRows (items : List OrderItem) (frames : List Frame) : FindsRows (withKeys env items frames) := by
  induction frames with
  | nil => exact .ok []
  | cons f rest ih => exact .bind (evalAll_findsRows env f _) fun _ => .bind ih fun _ => .pure _

theorem sortFrames_findsRows (items : List OrderItem) (frames : List Frame) :
    FindsRows (sortFrames env items frames) := by
  unfold sortFrames
  split
  next => exact .ok frames
  next => exact .bind (withKeys_findsRows env items frames) fun _ => .pure _

theorem pageCount_findsRows (count : Option Scalar) : FindsRows (pageCount env count) := by
  cases count with
  | none => exact .ok none
  | some e =>
    refine .bind (eval_findsRows env [] e) fun v => ?_
    split
    next =>
      split
      next => exact .pure _
      next => exact .error rfl
    next => exact .error rfl

theorem page_findsRows {α : Type} (limit offset : Option Scalar) (items : List α) :
    FindsRows (page env limit offset items) :=
  .bind (pageCount_findsRows env offset) fun _ => .bind (pageCount_findsRows env limit) fun _ => .pure _

theorem projectAll_findsRows (ps : List Projection) (frames : List Frame) : FindsRows (projectAll env ps frames) := by
  induction frames with
  | nil => exact .ok []
  | cons f rest ih => exact .bind (project_findsRows env f ps) fun _ => .bind ih fun _ => .pure _

theorem outputOf_findsRows (projection : List Projection) (columns : List String) (frames : List Frame) :
    FindsRows (outputOf env projection columns frames) := by
  unfold outputOf
  split
  next => exact .ok _
  next => exact .bind (projectAll_findsRows env projection frames) fun _ => .pure _

theorem unitedRows_findsRows (label : String) (columns : List String) (orderBy : List OrderItem)
    (limit offset : Option Scalar) (rows : List Row) :
    FindsRows (unitedRows env label columns orderBy limit offset rows) :=
  .bind (sortFrames_findsRows env orderBy _) fun frames =>
    .bind (page_findsRows env limit offset frames) fun _ => .pure _

/-! ## Joins -/

theorem joinRows_findsRows (kind : JoinKind) (on : Option Scalar) (rs : RowSet) (f : Frame) (rows : List Row) :
    FindsRows (joinRows env kind on rs f rows) := by
  induction rows with
  | nil => exact .ok []
  | cons r rest ih =>
    unfold joinRows
    dsimp only
    split
    next => exact .bind (.ok true) fun _ => .bind ih fun _ => .pure _
    next => exact .bind (holdsOption_findsRows env _ on) fun _ => .bind ih fun _ => .pure _

theorem extendFrames_findsRows (kind : JoinKind) (on : Option Scalar) (rs : RowSet) (frames : List Frame) :
    FindsRows (extendFrames env kind on rs frames) := by
  induction frames with
  | nil => exact .ok []
  | cons f rest ih =>
    have here : FindsRows (extendFrame env kind on rs f) :=
      .bind (joinRows_findsRows env kind on rs f rs.rows) fun _ => .pure _
    exact .bind here fun _ => .bind ih fun _ => .pure _

/-! ## Literal tables -/

theorem immediateRows_findsRows (rows : List (List Scalar)) : FindsRows (immediateRows env rows) := by
  induction rows with
  | nil => exact .ok []
  | cons r rest ih => exact .bind (evalAll_findsRows env [] r) fun _ => .bind ih fun _ => .pure _

theorem literalRows_findsRows {v : LiteralTable} (bound : v.Bound) : FindsRows (literalRows env v) := by
  -- the one place where the error can arise
  unfold literalRows
  split
  next rows _ => exact .bind (immediateRows_findsRows env rows) fun _ => .pure _
  next => exact .bind (.mapError fun _ => rfl) fun _ => .pure _
  next parameter pending => exact absurd pending (bound parameter)

end

/-! ## Selects -/

section

variable (db : Database) (env : Environment)

mutual

theorem selectRows_findsRows {s : Select} (bound : s.Bound) : FindsRows (selectRows db env s) := by
  match s with
  | { source, joins, predicate, groupBy, having, projection, union, orderBy, limit, offset } =>
    obtain ⟨inSource, inJoins, conditions, -, -, -, -, inUnion, -, -, -⟩ := bound
    unfold selectRows
    refine .bind (sourceRows_findsRows inSource) fun first => ?_
    have joined : Join.Bound joins := fun j member => ⟨inJoins j member, conditions j member⟩
    refine .bind (joinAll_findsRows joined _) fun ⟨frames, columns⟩ => ?_
    refine .bind (restrict_findsRows env predicate groupBy having frames) fun frames => ?_
    have other := union_findsRows inUnion
    split
    next =>
      refine .bind (sortFrames_findsRows env orderBy frames) fun frames => ?_
      exact .bind (page_findsRows env limit offset frames) fun frames => outputOf_findsRows env projection _ frames
    next t =>
      refine .bind (outputOf_findsRows env projection _ frames) fun output => .bind (other t rfl) fun more => ?_
      exact .bind (unitedRows_findsRows env _ _ orderBy limit offset _) fun _ => .pure _
termination_by structural s

theorem sourceRows_findsRows {s : Source} (bound : Source.Bound s) : FindsRows (sourceRows db env s) := by
  match s with
  | .table ref => exact .bind (.mapError fun _ => rfl) fun _ => .pure _
  | .literal v =>
    cases bound with
    | literal holds => exact literalRows_findsRows env holds
  | .subquery select label =>
    cases bound with
    | subquery _ inner => exact .bind (selectRows_findsRows inner) fun _ => .pure _
termination_by structural s

theorem joinAll_findsRows {js : List (Join Select)} (bound : Join.Bound js) (frames : List Frame) :
    FindsRows (joinAll db env js frames) := by
  match js with
  | [] => exact .ok _
  | j :: rest =>
    obtain ⟨⟨inSource, -⟩, behind⟩ := List.forall_mem_cons.1 bound
    refine .bind (joinOne_findsRows inSource frames) fun ⟨frames, here⟩ => ?_
    exact .bind (joinAll_findsRows behind frames) fun _ => .pure _
termination_by structural js

theorem joinOne_findsRows {j : Join Select} (bound : Source.Bound j.source) (frames : List Frame) :
    FindsRows (joinOne db env j frames) := by
  match j with
  | { kind, source, on } =>
    refine .bind (sourceRows_findsRows bound) fun rs => ?_
    exact .bind (extendFrames_findsRows env kind on rs frames) fun _ => .pure _
termination_by structural j

theorem union_findsRows {s : Option Select} (bound : ∀ t ∈ s, t.Bound) : ∀ t ∈ s, FindsRows (selectRows db env t) := by
  match s with
  | none => simp
  | some select =>
    rintro _ ⟨⟩
    exact selectRows_findsRows (bound select rfl)
termination_by structural s

end

theorem selectFrames_findsRows {s : Select} (bound : s.Bound) : FindsRows (selectFrames db env s) := by
  obtain ⟨inSource, inJoins, conditions, -, -, -, -, -, -, -, -⟩ := bound
  refine .bind (sourceRows_findsRows db env inSource) fun first => ?_
  have joined : Join.Bound s.joins := fun j member => ⟨inJoins j member, conditions j member⟩
  refine .bind (joinAll_findsRows db env joined _) fun ⟨frames, _⟩ => ?_
  exact restrict_findsRows env s.predicate s.groupBy s.having frames

/-! ## What a statement reads -/

theorem firstFrame?_findsRows (predicate : Option Scalar) (frames : List Frame) :
    FindsRows (firstFrame? env predicate frames) := by
  induction frames with
  | nil => exact .ok none
  | cons f rest ih =>
    refine .bind (holdsOption_findsRows env f predicate) fun keep => ?_
    split
    next => exact .pure _
    next => exact ih

theorem satisfyingFrom_findsRows (rs : RowSet) {js : List (Join Select)} (bound : Join.Bound js)
    (predicate : Option Scalar) (position : Nat) (rows : List Row) :
    FindsRows (satisfyingFrom db env rs js predicate position rows) := by
  induction rows generalizing position with
  | nil => exact .ok []
  | cons r rest ih =>
    refine .bind (joinAll_findsRows db env bound _) fun ⟨frames, _⟩ => ?_
    exact .bind (firstFrame?_findsRows env predicate frames) fun _ => .bind (ih (position + 1)) fun _ => .pure _

theorem satisfyingRows_findsRows (table : StoredTable) {js : List (Join Select)}
    (bound : Join.Bound js) (predicate : Option Scalar) :
    FindsRows (satisfyingRows db env table js predicate) :=
  .bind (.mapError fun _ => rfl) fun _ => satisfyingFrom_findsRows db env _ bound predicate 0 _

theorem changesOf_findsRows (set : List Projection) (found : List (Nat × Frame)) :
    FindsRows (changesOf env set found) := by
  induction found with
  | nil => exact .ok []
  | cons p rest ih => exact .bind (project_findsRows env p.2 set) fun _ => .bind ih fun _ => .pure _

theorem incomingRows_findsRows {source : Option Select} (bound : ∀ s ∈ source, s.Bound) (inserted : List Projection) :
    FindsRows (incomingRows db env source inserted) := by
  cases source with
  | none => exact .bind (project_findsRows env [] inserted) fun _ => .pure _
  | some s =>
    exact .bind (selectFrames_findsRows db env (bound s rfl)) fun frames => projectAll_findsRows env inserted frames

theorem conflictPositions_findsRows (t : Table) (columns names : List String) :
    FindsRows (conflictPositions t columns names) := by
  induction names with
  | nil => exact .ok []
  | cons c rest ih => exact .bind (.mapError fun _ => rfl) fun _ => .bind ih fun _ => .pure _

theorem partners_findsRows (target source : RowSet) (on : Scalar) (row : Row) (position : Nat) (rows : List Row) :
    FindsRows (partners env target source on row position rows) := by
  induction rows generalizing position with
  | nil => exact .ok []
  | cons r rest ih => exact .bind (holds_findsRows env _ on) fun _ => .bind (ih (position + 1)) fun _ => .pure _

theorem mergeChanges_findsRows (target source : RowSet) (on : Scalar) (set : Option (List Projection))
    (deleteUnmatched : Bool) (position : Nat) (rows : List Row) :
    FindsRows (mergeChanges env target source on set deleteUnmatched position rows) := by
  induction rows generalizing position with
  | nil => exact .ok _
  | cons row rest ih =>
    refine .bind (partners_findsRows env target source on row 0 source.rows) fun found => ?_
    have others := ih (position + 1)
    dsimp only
    -- one match, several matches, which is an error of another kind, or nothing to update
    split
    next => exact .bind (project_findsRows env _ _) fun _ => .bind (.pure _) fun _ => .bind others fun _ => .pure _
    next => exact .bind (.error rfl) fun _ => .bind others fun _ => .pure _
    next => exact .bind (.pure _) fun _ => .bind others fun _ => .pure _

theorem mergeInserts_findsRows (source : RowSet) (matched : List Nat) (inserted : List Projection) (position : Nat)
    (rows : List Row) : FindsRows (mergeInserts env source matched inserted position rows) := by
  induction rows generalizing position with
  | nil => exact .ok []
  | cons r rest ih =>
    unfold mergeInserts
    split
    next => exact ih (position + 1)
    next => exact .bind (project_findsRows env _ inserted) fun _ => .bind (ih (position + 1)) fun _ => .pure _

end

/-! ## Writes -/

def Write.FindsRows {α : Type} (x : Write α) : Prop :=
  ∀ t, Execution.FindsRows (x.run t).1

namespace Write.FindsRows

variable {α β : Type}

theorem pure (a : α) : FindsRows (Pure.pure a : Write α) :=
  fun _ => .ok a

theorem bind {x : Write α} {f : α → Write β} (first : FindsRows x) (rest : ∀ a, FindsRows (f a)) :
    FindsRows (x >>= f) := by
  intro t
  have first := first t
  rw [run_bind]
  revert first
  rcases x.run t with ⟨e | a, u⟩
  · exact fun failed => failed.recast
  · exact fun _ => rest a u

theorem get : FindsRows (MonadState.get : Write Table) :=
  fun t => .ok t

theorem modified (f : Table → Table) : FindsRows (modify f : Write PUnit) := by
  intro t
  change Execution.FindsRows (.ok PUnit.unit)
  exact .ok _

theorem ofResult {x : Except Error α} (h : Execution.FindsRows x) : FindsRows (Write.ofResult x) := by
  cases x with
  | error e => exact fun _ => h
  | ok a => exact pure a

theorem change (f : Table → Except Table.Error Table) : FindsRows (Write.change f) := by
  intro t
  rw [run_change]
  cases f t with
  | error e => exact .error rfl
  | ok u => exact .ok _

end Write.FindsRows

theorem insertAll_findsRows (columns : List String) (rows : List Row) : (Write.insertAll columns rows).FindsRows := by
  induction rows with
  | nil => exact .pure ()
  | cons r rest ih => exact .bind (.change _) fun _ => ih

theorem assignAll_findsRows (columns : List String) (changes : List (Nat × Row)) :
    (Write.assignAll columns changes).FindsRows := by
  induction changes with
  | nil => exact .pure ()
  | cons c rest ih => exact .bind (.change _) fun _ => ih

section

variable (db : Database) (env : Environment)

theorem upsertRow_findsRows (label : String) (columns : List String) (updated : Option (List Projection))
    (positions : List ConflictColumn) (incoming : Row) :
    (upsertRow env label columns updated positions incoming).FindsRows := by
  refine .bind .get fun t => ?_
  split
  next => exact .bind (.change _) fun _ => .pure true
  next =>
    split
    next => exact .pure false
    next set =>
      exact .bind (.ofResult (project_findsRows _ _ set)) fun _ => .bind (.change _) fun _ => .pure true

theorem upsertAll_findsRows (label : String) (columns : List String) (updated : Option (List Projection))
    (positions : List ConflictColumn) (incoming : List Row) :
    (upsertAll env label columns updated positions incoming).FindsRows := by
  induction incoming with
  | nil => exact .pure 0
  | cons r rest ih =>
    exact .bind (upsertRow_findsRows env label columns updated positions r) fun _ => .bind ih fun _ => .pure _

theorem merge_findsRows (target : StoredTable) {source : Source} (bound : Source.Bound source)
    (on : Scalar) (matched inserted : Option (List Projection)) (deleteUnmatched : Bool) :
    (merge db env target source on matched inserted deleteUnmatched).FindsRows := by
  refine .bind .get fun t => .bind (.ofResult (sourceRows_findsRows db env bound)) fun rs => ?_
  refine .bind (.ofResult (mergeChanges_findsRows env _ rs on matched deleteUnmatched 0 _)) fun changes => ?_
  refine .bind (.ofResult ?_) fun inserts => ?_
  · split
    next => exact .ok []
    next set => exact mergeInserts_findsRows env rs changes.matched set 0 rs.rows
  · refine .bind (assignAll_findsRows _ _) fun _ => .bind (.modified _) fun _ => ?_
    exact .bind (insertAll_findsRows _ _) fun _ => .pure _

theorem write_findsRows {s : Statement} (bound : s.Bound) : (write db env s).FindsRows := by
  cases bound with
  | delete table filter joined =>
    have found := satisfyingRows_findsRows db env table joined
    exact .bind (.ofResult (found _)) fun _ => .bind (.modified _) fun _ => .pure _
  | update table values filter joined =>
    refine .bind (.ofResult (satisfyingRows_findsRows db env table joined _)) fun found => ?_
    refine .bind (.ofResult (changesOf_findsRows env _ found)) fun _ => .bind (assignAll_findsRows _ _) fun _ => .pure _
  | insertInto table schema rows =>
    exact .bind (.ofResult (selectRows_findsRows db env rows)) fun _ => .bind (insertAll_findsRows _ _) fun _ => .pure _
  | upsert table constraint conflictColumns rows values updates =>
    refine .bind (.ofResult (incomingRows_findsRows db env rows _)) fun incoming => .bind .get fun t => ?_
    refine .bind (.ofResult (conflictPositions_findsRows t _ conflictColumns)) fun positions => ?_
    exact upsertAll_findsRows env _ _ _ positions incoming
  | merge target deleteUnmatched rows condition updates values =>
    exact merge_findsRows db env target rows _ _ _ deleteUnmatched
  | truncate table => exact .bind .get fun t => fun _ => .ok _
  | noop => exact .pure 0

end

/-! ## Blocks -/

theorem writeChecked_findsRows {s : Statement} (bound : s.Bound) (db : Database) (ps : Parameters) :
    (writeChecked db ps s).FindsRows := by
  refine .bind (write_findsRows db _ bound) fun n => .bind .get fun t => ?_
  split
  next => exact .pure n
  next => exact fun _ => .error rfl

theorem runWrite_findsRows {s : Statement} (bound : s.Bound) (db : Database) (ps : Parameters) :
    FindsRows (runWrite db s ps).1 := by
  unfold runWrite
  split
  next => exact .ok 0
  next name _ =>
    split
    next => exact .error rfl
    next before _ =>
      have checked := writeChecked_findsRows bound db ps before
      revert checked
      rcases (writeChecked db ps s).run before with ⟨e | n, u⟩
      · exact id
      · exact id

/-- A block whose literal tables are bound never fails for rows that are not. -/
theorem run_bound {b : Block} (bound : b.Bound) (db : Database) (ps : Parameters) : FindsRows (run db b ps).1 := by
  cases bound with
  | select rows => exact (selectRows_findsRows db _ rows).map _
  | affected write => exact (runWrite_findsRows write db ps).map _

end Execution

end Setwise
