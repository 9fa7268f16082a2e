import Setwise.Execution.Writing

/-!
Reading repeats no key.

What a statement computes before it writes comes from the evaluation of expressions in frames. Whatever fails there,
the error is not that a row repeats a key (`selectRows_reads`, `satisfyingRows_reads`, `incomingRows_reads`,
`mergeChanges_reads`): that one comes from a write alone.
-/

set_option autoImplicit false

namespace Setwise.Execution

open Relational

def Error.isViolation : Error → Bool
  | row (.keyViolation ..) => true
  | _ => false

def Reads {α : Type} (x : Except Error α) : Prop :=
  ∀ e, x = .error e → e.isViolation = false

namespace Reads

variable {α β ε : Type}

theorem ok (a : α) : Reads (.ok a) :=
  fun _ failed => nomatch failed

theorem error {e : Error} (h : e.isViolation = false) : Reads (.error e : Except Error α) := by
  rintro _ ⟨⟩
  exact h

theorem bind {x : Except Error α} {f : α → Except Error β} (first : Reads x) (rest : ∀ a, Reads (f a)) :
    Reads (x >>= f) := by
  cases x with
  | error e => exact error (first e rfl)
  | ok a => exact rest a

theorem mapError {wrap : ε → Error} (h : ∀ e, (wrap e).isViolation = false) (x : Except ε α) :
    Reads (x.mapError wrap) := by
  cases x with
  | error e => exact error (h e)
  | ok a => exact ok a

end Reads

/-! ## Expressions -/

section

variable (env : Environment)

theorem columnValue_reads (source : String) (columns : List String) (values : Row) (name : String) :
    Reads (columnValue source columns values name) := by
  unfold columnValue
  split
  next => exact .error rfl
  next =>
    split
    next => exact .ok _
    next => exact .error rfl

theorem eval_reads (frame : Frame) (e : Scalar) : Reads (eval env frame e) := by
  induction e with
  | column source name =>
    unfold eval
    split
    next => exact .error rfl
    next => exact columnValue_reads _ _ _ _
  | constant v => exact .ok v
  | parameter name => exact .mapError (fun _ => rfl) _
  | binary l op r left right =>
    exact .bind left fun _ => .bind right fun _ => .mapError (fun _ => rfl) _
  | not e operand => exact .bind operand fun _ => .mapError (fun _ => rfl) _
  | isNull e operand => exact .bind operand fun _ => .ok _
  | isNotNull e operand => exact .bind operand fun _ => .ok _
  | case test a b decision first second =>
    refine .bind decision fun t => ?_
    split
    next => exact first
    next => exact second
  | excluded column =>
    unfold eval
    split
    next => exact .error rfl
    next => exact columnValue_reads _ _ _ _

theorem evalAll_reads (frame : Frame) (es : List Scalar) : Reads (evalAll env frame es) := by
  induction es with
  | nil => exact .ok _
  | cons e rest ih => exact .bind (eval_reads env frame e) fun _ => .bind ih fun _ => .ok _

theorem project_reads (frame : Frame) (ps : List Projection) : Reads (project env frame ps) :=
  evalAll_reads env frame _

theorem holds_reads (frame : Frame) (condition : Scalar) : Reads (holds env frame condition) :=
  .bind (eval_reads env frame condition) fun _ => .ok _

theorem holdsOption_reads (frame : Frame) (condition : Option Scalar) :
    Reads (holdsOption env frame condition) := by
  cases condition with
  | none => exact .ok _
  | some condition => exact holds_reads env frame condition

/-! ## The clauses of a select -/

theorem joinRows_reads (kind : JoinKind) (on : Option Scalar) (rs : RowSet) (frame : Frame) (rows : List Row) :
    Reads (joinRows env kind on rs frame rows) := by
  induction rows with
  | nil => exact .ok _
  | cons r rest ih =>
    unfold joinRows
    dsimp only
    split
    next => exact .bind (.ok _) fun _ => .bind ih fun _ => .ok _
    next => exact .bind (holdsOption_reads env _ on) fun _ => .bind ih fun _ => .ok _

theorem extendFrames_reads (kind : JoinKind) (on : Option Scalar) (rs : RowSet) (frames : List Frame) :
    Reads (extendFrames env kind on rs frames) := by
  induction frames with
  | nil => exact .ok _
  | cons f rest ih =>
    exact .bind (.bind (joinRows_reads env kind on rs f rs.rows) fun _ => .ok _) fun _ => .bind ih fun _ => .ok _

theorem filterFrames_reads (condition : Option Scalar) (frames : List Frame) :
    Reads (filterFrames env condition frames) := by
  induction frames with
  | nil => exact .ok _
  | cons f rest ih => exact .bind (holdsOption_reads env f condition) fun _ => .bind ih fun _ => .ok _

theorem firstOfGroups_reads (keys : List Scalar) (seen : List Row) (frames : List Frame) :
    Reads (firstOfGroups env keys seen frames) := by
  induction frames generalizing seen with
  | nil => exact .ok _
  | cons f rest ih =>
    refine .bind (evalAll_reads env f keys) fun key => ?_
    split
    next => exact ih seen
    next => exact .bind (ih _) fun _ => .ok _

theorem restrict_reads (predicate : Option Scalar) (groupBy : List Scalar) (having : Option Scalar)
    (frames : List Frame) : Reads (restrict env predicate groupBy having frames) := by
  refine .bind (filterFrames_reads env predicate frames) fun frames => ?_
  refine .bind ?_ fun frames => filterFrames_reads env having frames
  unfold groupFrames
  split
  next => exact .ok _
  next => exact firstOfGroups_reads env groupBy [] frames

theorem withKeys_reads (items : List OrderItem) (frames : List Frame) : Reads (withKeys env items frames) := by
  induction frames with
  | nil => exact .ok _
  | cons f rest ih => exact .bind (evalAll_reads env f _) fun _ => .bind ih fun _ => .ok _

theorem sortFrames_reads (items : List OrderItem) (frames : List Frame) : Reads (sortFrames env items frames) := by
  unfold sortFrames
  split
  next => exact .ok _
  next => exact .bind (withKeys_reads env items frames) fun _ => .ok _

theorem pageCount_reads (count : Option Scalar) : Reads (pageCount env count) := by
  cases count with
  | none => exact .ok _
  | some e =>
    refine .bind (eval_reads env [] e) fun v => ?_
    cases v with
    | int n =>
      dsimp only
      split
      next => exact .ok _
      next => exact .error rfl
    | null | real | text | blob | bool => exact .error rfl

theorem page_reads {α : Type} (limit offset : Option Scalar) (items : List α) :
    Reads (page env limit offset items) :=
  .bind (pageCount_reads env offset) fun _ => .bind (pageCount_reads env limit) fun _ => .ok _

theorem projectAll_reads (ps : List Projection) (frames : List Frame) : Reads (projectAll env ps frames) := by
  induction frames with
  | nil => exact .ok _
  | cons f rest ih => exact .bind (project_reads env f ps) fun _ => .bind ih fun _ => .ok _

theorem outputOf_reads (projection : List Projection) (columns : List String) (frames : List Frame) :
    Reads (outputOf env projection columns frames) := by
  unfold outputOf
  split
  next => exact .ok _
  next => exact .bind (projectAll_reads env projection frames) fun _ => .ok _

theorem unitedRows_reads (label : String) (columns : List String) (orderBy : List OrderItem)
    (limit offset : Option Scalar) (rows : List Row) :
    Reads (unitedRows env label columns orderBy limit offset rows) :=
  .bind (sortFrames_reads env orderBy _) fun _ => .bind (page_reads env limit offset _) fun _ => .ok _

theorem literalRows_reads (v : LiteralTable) : Reads (literalRows env v) := by
  have immediate (rows : List (List Scalar)) : Reads (immediateRows env rows) := by
    induction rows with
    | nil => exact .ok _
    | cons r rest ih => exact .bind (evalAll_reads env [] r) fun _ => .bind ih fun _ => .ok _
  unfold literalRows
  dsimp only
  split
  next => exact .bind (immediate _) fun _ => .ok _
  next => exact .bind (.mapError (fun _ => rfl) _) fun _ => .ok _
  next => exact .error rfl

end

/-! ## Selects -/

section

variable (db : Database) (env : Environment)

mutual

theorem selectRows_reads (s : Select) : Reads (selectRows db env s) := by
  match s with
  | { source, joins, predicate, groupBy, having, projection, union, orderBy, limit, offset } =>
    simp only [selectRows]
    refine .bind (sourceRows_reads source) fun first => ?_
    refine .bind (joinAll_reads joins _) fun ⟨frames, columns⟩ => ?_
    refine .bind (restrict_reads env predicate groupBy having frames) fun frames => ?_
    cases union with
    | none =>
      refine .bind (sortFrames_reads env orderBy frames) fun frames => ?_
      exact .bind (page_reads env limit offset frames) fun frames => outputOf_reads env projection _ frames
    | some other =>
      refine .bind (outputOf_reads env projection _ frames) fun output => ?_
      refine .bind (selectRows_reads other) fun more => ?_
      exact .bind (unitedRows_reads env _ _ orderBy limit offset _) fun _ => .ok _

theorem sourceRows_reads (s : Source) : Reads (sourceRows db env s) := by
  match s with
  | .table ref =>
    simp only [sourceRows]
    exact .bind (.mapError (fun _ => rfl) _) fun _ => .ok _
  | .literal v =>
    simp only [sourceRows]
    exact literalRows_reads env v
  | .subquery select label =>
    simp only [sourceRows]
    exact .bind (selectRows_reads select) fun _ => .ok _

theorem joinAll_reads (js : List (Join Select)) (frames : List Frame) : Reads (joinAll db env js frames) := by
  match js with
  | [] =>
    simp only [joinAll]
    exact .ok _
  | j :: rest =>
    simp only [joinAll]
    refine .bind (joinOne_reads j frames) fun ⟨frames, here⟩ => ?_
    exact .bind (joinAll_reads rest frames) fun _ => .ok _

theorem joinOne_reads (j : Join Select) (frames : List Frame) : Reads (joinOne db env j frames) := by
  match j with
  | { kind, source, on } =>
    simp only [joinOne]
    refine .bind (sourceRows_reads source) fun rs => ?_
    exact .bind (extendFrames_reads env kind on rs frames) fun _ => .ok _

end

theorem selectFrames_reads (s : Select) : Reads (selectFrames db env s) := by
  refine .bind (sourceRows_reads db env s.source) fun first => ?_
  exact .bind (joinAll_reads db env s.joins _) fun ⟨frames, _⟩ => restrict_reads env _ _ _ frames

end

/-! ## What statements compute before they write -/

section

variable (db : Database) (env : Environment)

theorem satisfyingRows_reads (table : StoredTable) (joins : List (Join Select)) (predicate : Option Scalar) :
    Reads (satisfyingRows db env table joins predicate) := by
  have first (frames : List Frame) : Reads (firstFrame? env predicate frames) := by
    induction frames with
    | nil => exact .ok _
    | cons f rest ih =>
      refine .bind (holdsOption_reads env f predicate) fun keep => ?_
      split
      next => exact .ok _
      next => exact ih
  have satisfying (rs : RowSet) (position : Nat) (rows : List Row) :
      Reads (satisfyingFrom db env rs joins predicate position rows) := by
    induction rows generalizing position with
    | nil => exact .ok _
    | cons r rest ih =>
      refine .bind (joinAll_reads db env joins _) fun ⟨frames, _⟩ => ?_
      exact .bind (first frames) fun _ => .bind (ih _) fun _ => .ok _
  exact .bind (.mapError (fun _ => rfl) _) fun t => satisfying _ 0 t.rows

theorem changesOf_reads (set : List Projection) (found : List (Nat × Frame)) : Reads (changesOf env set found) := by
  induction found with
  | nil => exact .ok _
  | cons f rest ih => exact .bind (project_reads env f.2 set) fun _ => .bind ih fun _ => .ok _

theorem incomingRows_reads (source : Option Select) (inserted : List Projection) :
    Reads (incomingRows db env source inserted) := by
  cases source with
  | none => exact .bind (project_reads env [] inserted) fun _ => .ok _
  | some s => exact .bind (selectFrames_reads db env s) fun frames => projectAll_reads env inserted frames

theorem conflictPositions_reads (t : Table) (columns conflictColumns : List String) :
    Reads (conflictPositions t columns conflictColumns) := by
  induction conflictColumns with
  | nil => exact .ok _
  | cons c rest ih =>
    refine .bind ?_ fun _ => .bind ih fun _ => .ok _
    unfold Table.columnIndex
    split
    next => exact .ok _
    next => exact .error rfl

theorem partners_reads (target source : RowSet) (on : Scalar) (row : Row) (position : Nat) (rows : List Row) :
    Reads (partners env target source on row position rows) := by
  induction rows generalizing position with
  | nil => exact .ok _
  | cons r rest ih => exact .bind (holds_reads env _ on) fun _ => .bind (ih _) fun _ => .ok _

theorem mergeChanges_reads (target source : RowSet) (on : Scalar) (set : Option (List Projection))
    (deleteUnmatched : Bool) (position : Nat) (rows : List Row) :
    Reads (mergeChanges env target source on set deleteUnmatched position rows) := by
  induction rows generalizing position with
  | nil => exact .ok _
  | cons row rest ih =>
    refine .bind (partners_reads env target source on row 0 source.rows) fun found => ?_
    dsimp only
    split
    next => exact .bind (project_reads env _ _) fun _ => .bind (.ok _) fun _ => .bind (ih _) fun _ => .ok _
    next => exact .error rfl
    next => exact .bind (.ok _) fun _ => .bind (ih _) fun _ => .ok _

theorem mergeInserts_reads (source : RowSet) (matched : List Nat) (inserted : List Projection) (position : Nat)
    (rows : List Row) : Reads (mergeInserts env source matched inserted position rows) := by
  induction rows generalizing position with
  | nil => exact .ok _
  | cons r rest ih =>
    unfold mergeInserts
    split
    next => exact ih _
    next => exact .bind (project_reads env _ inserted) fun _ => .bind (ih _) fun _ => .ok _

end

end Setwise.Execution
