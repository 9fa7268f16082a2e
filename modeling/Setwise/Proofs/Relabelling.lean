import Setwise.Proofs.Interpretation

/-!
Selects under other labels.

Labels only tie expressions to the sources that they read. Where all labels of a select are replaced, different ones by
different ones, the select has the same rows (`selectRows_relabel`).
-/

set_option autoImplicit false

namespace Setwise

/-! ## Other labels -/

namespace Relational

section

variable (ρ : String → String)

def Scalar.relabel : Scalar → Scalar
  | .column source name => .column (ρ source) name
  | .constant v => .constant v
  | .parameter name => .parameter name
  | .binary l op r => .binary l.relabel op r.relabel
  | .not e => .not e.relabel
  | .isNull e => .isNull e.relabel
  | .isNotNull e => .isNotNull e.relabel
  | .case test a b => .case test.relabel a.relabel b.relabel
  | .excluded name => .excluded name

def Projection.relabel (p : Projection) : Projection :=
  { p with value := p.value.relabel ρ }

def OrderItem.relabel (i : OrderItem) : OrderItem :=
  { i with key := i.key.relabel ρ }

def LiteralTable.relabel (v : LiteralTable) : LiteralTable :=
  { v with label := ρ v.label }

mutual

def Select.relabel (s : Select) : Select :=
  match s with
  | { source, joins, predicate, groupBy, having, projection, union, orderBy, limit, offset } =>
    { source := Source.relabel source
      joins := Join.relabelAll joins
      predicate := predicate.map (Scalar.relabel ρ)
      groupBy := groupBy.map (Scalar.relabel ρ)
      having := having.map (Scalar.relabel ρ)
      projection := projection.map (Projection.relabel ρ)
      union := Select.relabelOption union
      orderBy := orderBy.map (OrderItem.relabel ρ)
      limit := limit.map (Scalar.relabel ρ)
      offset := offset.map (Scalar.relabel ρ) }

def Source.relabel (s : Source) : Source :=
  match s with
  | .table ref => .table { ref with label := ρ ref.label }
  | .literal v => .literal (v.relabel ρ)
  | .subquery select label => .subquery select.relabel (ρ label)

def Join.relabelAll (js : List (Join Select)) : List (Join Select) :=
  match js with
  | [] => []
  | j :: rest => Join.relabel j :: Join.relabelAll rest

def Join.relabel (j : Join Select) : Join Select :=
  match j with
  | { kind, source, on } => { kind, source := Source.relabel source, on := on.map (Scalar.relabel ρ) }

def Select.relabelOption (s : Option Select) : Option Select :=
  match s with
  | none => none
  | some select => some select.relabel

end

theorem Select.relabel_eq (s : Select) :
    s.relabel ρ =
      { source := Source.relabel ρ s.source
        joins := Join.relabelAll ρ s.joins
        predicate := s.predicate.map (Scalar.relabel ρ)
        groupBy := s.groupBy.map (Scalar.relabel ρ)
        having := s.having.map (Scalar.relabel ρ)
        projection := s.projection.map (Projection.relabel ρ)
        union := Select.relabelOption ρ s.union
        orderBy := s.orderBy.map (OrderItem.relabel ρ)
        limit := s.limit.map (Scalar.relabel ρ)
        offset := s.offset.map (Scalar.relabel ρ) } := by
  cases s
  rfl

theorem Join.relabelAll_append (js ks : List (Join Select)) :
    Join.relabelAll ρ (js ++ ks) = Join.relabelAll ρ js ++ Join.relabelAll ρ ks := by
  induction js with
  | nil => rfl
  | cons j rest ih =>
    rw [List.cons_append, Join.relabelAll, ih]
    rfl

theorem Select.isBare_relabel (s : Select) : (s.relabel ρ).isBare = s.isBare := by
  have joins (js : List (Join Select)) : (Join.relabelAll ρ js).isEmpty = js.isEmpty := by
    cases js <;> rfl
  have union (u : Option Select) : (Select.relabelOption ρ u).isNone = u.isNone := by
    cases u <;> rfl
  rw [Select.relabel_eq]
  simp only [Select.isBare, joins, union, List.isEmpty_map, Option.isNone_map]

theorem Select.isPaged_relabel (s : Select) : (s.relabel ρ).isPaged = s.isPaged := by
  rw [Select.relabel_eq]
  simp only [Select.isPaged, Option.isSome_map]

end

end Relational

namespace Execution

open Relational Planning

section

variable (ρ : String → String)

def Visible.relabel (b : Visible) : Visible :=
  { b with label := ρ b.label }

def Frame.relabel (f : Frame) : Frame :=
  f.map (Visible.relabel ρ)

def RowSet.relabel (rs : RowSet) : RowSet :=
  { rs with label := ρ rs.label }

end

/-! ## Expressions -/

section

variable {ρ : String → String} {env : Environment} (injective : ρ.Injective)

include injective

theorem find?_relabel (f : Frame) (label : String) :
    (Frame.relabel ρ f).find? (fun b => b.label == ρ label) =
      (f.find? fun b => b.label == label).map (Visible.relabel ρ) := by
  unfold Frame.relabel
  rw [List.find?_map]
  congr 2
  funext b
  exact decide_eq_decide.2 injective.eq_iff

theorem valueOf_relabel (f : Frame) (e : Scalar) :
    valueOf env (Frame.relabel ρ f) (e.relabel ρ) = valueOf env f e := by
  induction e with
  | column source name =>
    unfold Scalar.relabel valueOf eval
    -- an injective renaming finds the same block
    rw [find?_relabel injective]
    cases f.find? fun b => b.label == source with
    | none => rfl
    | some b =>
      dsimp only [Option.map_some, Visible.relabel, columnValue]
      split
      next => rfl
      next => split <;> rfl
  | constant v => rfl
  | parameter name => rfl
  | binary l op r left right =>
    unfold Scalar.relabel
    rw [valueOf_binary, valueOf_binary, left, right]
  | not e operand =>
    unfold Scalar.relabel
    rw [valueOf_not, valueOf_not, operand]
  | isNull e operand =>
    unfold Scalar.relabel
    rw [valueOf_isNull, valueOf_isNull, operand]
  | isNotNull e operand =>
    unfold Scalar.relabel
    rw [valueOf_isNotNull, valueOf_isNotNull, operand]
  | case test a b tested left right =>
    unfold Scalar.relabel
    rw [valueOf_case, valueOf_case, tested, left, right]
  | excluded column => rfl

theorem eval_relabel (f : Frame) (e : Scalar) :
    (eval env (Frame.relabel ρ f) (e.relabel ρ)).toOption = (eval env f e).toOption :=
  valueOf_relabel injective f e

theorem holdsOption_relabel (f : Frame) (c : Option Scalar) :
    (holdsOption env (Frame.relabel ρ f) (c.map (Scalar.relabel ρ))).toOption = (holdsOption env f c).toOption := by
  cases c with
  | none => rfl
  | some e => simp only [Option.map_some, holdsOption, holds, toOption_bind, eval_relabel injective]

theorem evalAll_relabel (f : Frame) (es : List Scalar) :
    (evalAll env (Frame.relabel ρ f) (es.map (Scalar.relabel ρ))).toOption = (evalAll env f es).toOption := by
  induction es with
  | nil => rfl
  | cons e rest ih =>
    simp only [List.map_cons, evalAll, toOption_bind, eval_relabel injective, ih]

/-! ## Clauses -/

def relabelled (ρ : String → String) (x : Except Error (List Frame)) : Option (List Frame) :=
  x.toOption.map (List.map (Frame.relabel ρ))

omit injective in
theorem relabel_append (f : Frame) (rs : RowSet) (r : Row) :
    Frame.relabel ρ f ++ [(rs.relabel ρ).visible r] = Frame.relabel ρ (f ++ [rs.visible r]) := by
  simp [Frame.relabel, Visible.relabel, RowSet.relabel, RowSet.visible]

theorem joinRows_relabel (kind : JoinKind) (on : Option Scalar) (rs : RowSet) (f : Frame) (rows : List Row) :
    (joinRows env kind (on.map (Scalar.relabel ρ)) (rs.relabel ρ) (Frame.relabel ρ f) rows).toOption =
      relabelled ρ (joinRows env kind on rs f rows) := by
  unfold relabelled
  induction rows with
  | nil => rfl
  | cons r rest ih =>
    unfold joinRows
    rw [relabel_append]
    by_cases cross : kind = .cross
    · simp only [cross, if_true, toOption_bind] at ih ⊢
      rw [ih]
      cases joinRows env .cross on rs f rest <;> rfl
    · simp only [cross, if_false, toOption_bind, holdsOption_relabel injective, ih]
      cases holdsOption env (f ++ [rs.visible r]) on with
      | error e => rfl
      | ok keep =>
        cases joinRows env kind on rs f rest with
        | error e => rfl
        | ok others => cases keep <;> rfl

theorem extendFrame_relabel (kind : JoinKind) (on : Option Scalar) (rs : RowSet) (f : Frame) :
    (extendFrame env kind (on.map (Scalar.relabel ρ)) (rs.relabel ρ) (Frame.relabel ρ f)).toOption =
      relabelled ρ (extendFrame env kind on rs f) := by
  have found : _ = relabelled ρ (joinRows env kind on rs f rs.rows) := joinRows_relabel injective kind on rs f rs.rows
  unfold relabelled at found ⊢
  unfold extendFrame
  rw [toOption_bind, toOption_bind, show (rs.relabel ρ).rows = rs.rows from rfl, found]
  cases joinRows env kind on rs f rs.rows with
  | error e => rfl
  | ok found =>
    have absent : Frame.relabel ρ f ++ [(rs.relabel ρ).absent] = Frame.relabel ρ (f ++ [rs.absent]) := by
      simp [Frame.relabel, Visible.relabel, RowSet.relabel, RowSet.absent]
    change some _ = some _
    simp only [List.isEmpty_map, absent]
    split <;> rfl

theorem extendFrames_relabel (kind : JoinKind) (on : Option Scalar) (rs : RowSet) (frames : List Frame) :
    (extendFrames env kind (on.map (Scalar.relabel ρ)) (rs.relabel ρ) (frames.map (Frame.relabel ρ))).toOption =
      relabelled ρ (extendFrames env kind on rs frames) := by
  unfold relabelled
  induction frames with
  | nil => rfl
  | cons f rest ih =>
    have here : _ = relabelled ρ (extendFrame env kind on rs f) := extendFrame_relabel injective kind on rs f
    unfold relabelled at here
    simp only [List.map_cons, extendFrames, toOption_bind, here, ih]
    cases extendFrame env kind on rs f with
    | error e => rfl
    | ok found =>
      cases extendFrames env kind on rs rest with
      | error e => rfl
      | ok others => exact congrArg some List.map_append.symm

theorem filterFrames_relabel (c : Option Scalar) (frames : List Frame) :
    (filterFrames env (c.map (Scalar.relabel ρ)) (frames.map (Frame.relabel ρ))).toOption =
      relabelled ρ (filterFrames env c frames) := by
  unfold relabelled
  induction frames with
  | nil => rfl
  | cons f rest ih =>
    simp only [List.map_cons, filterFrames, toOption_bind, holdsOption_relabel injective, ih]
    cases holdsOption env f c with
    | error e => rfl
    | ok keep =>
      cases filterFrames env c rest with
      | error e => rfl
      | ok others => cases keep <;> rfl

theorem firstOfGroups_relabel (keys : List Scalar) (seen : List Row) (frames : List Frame) :
    (firstOfGroups env (keys.map (Scalar.relabel ρ)) seen (frames.map (Frame.relabel ρ))).toOption =
      relabelled ρ (firstOfGroups env keys seen frames) := by
  unfold relabelled
  induction frames generalizing seen with
  | nil => rfl
  | cons f rest ih =>
    simp only [List.map_cons, firstOfGroups, toOption_bind, evalAll_relabel injective]
    cases evalAll env f keys with
    | error e => rfl
    | ok key =>
      change (if _ then _ else _ : Except Error (List Frame)).toOption =
        (if _ then _ else _ : Except Error (List Frame)).toOption.map _
      split
      next => exact ih seen
      next =>
        rw [toOption_bind, toOption_bind, ih]
        cases firstOfGroups env keys (seen ++ [key]) rest <;> rfl

theorem groupFrames_relabel (keys : List Scalar) (frames : List Frame) :
    (groupFrames env (keys.map (Scalar.relabel ρ)) (frames.map (Frame.relabel ρ))).toOption =
      relabelled ρ (groupFrames env keys frames) := by
  unfold groupFrames
  rw [List.isEmpty_map]
  split
  next => rfl
  next => exact firstOfGroups_relabel injective keys [] frames

theorem restrict_relabel (predicate : Option Scalar) (keys : List Scalar) (having : Option Scalar)
    (frames : List Frame) :
    (restrict env (predicate.map (Scalar.relabel ρ)) (keys.map (Scalar.relabel ρ)) (having.map (Scalar.relabel ρ))
      (frames.map (Frame.relabel ρ))).toOption = relabelled ρ (restrict env predicate keys having frames) := by
  unfold restrict relabelled
  simp only [toOption_bind, filterFrames_relabel injective, relabelled, Option.bind_map, Option.map_bind]
  refine congrArg _ (funext fun kept => ?_)
  simp only [Function.comp_apply, groupFrames_relabel injective, relabelled, Option.bind_map, Option.map_bind]
  refine congrArg _ (funext fun groups => ?_)
  exact filterFrames_relabel injective having groups

theorem withKeys_relabel (items : List OrderItem) (frames : List Frame) :
    (withKeys env (items.map (OrderItem.relabel ρ)) (frames.map (Frame.relabel ρ))).toOption =
      (withKeys env items frames).toOption.map (List.map fun p => (p.1, Frame.relabel ρ p.2)) := by
  have keys : (items.map (OrderItem.relabel ρ)).map OrderItem.key =
      (items.map OrderItem.key).map (Scalar.relabel ρ) := by
    simp [OrderItem.relabel]
  induction frames with
  | nil => rfl
  | cons f rest ih =>
    simp only [List.map_cons, withKeys, toOption_bind, keys, evalAll_relabel injective, ih]
    cases evalAll env f (items.map OrderItem.key) with
    | error e => rfl
    | ok key => cases withKeys env items rest <;> rfl

omit injective in
theorem keyOrder_relabel (items : List OrderItem) (v w : Row) :
    keyOrder (items.map (OrderItem.relabel ρ)) v w = keyOrder items v w := by
  induction items generalizing v w with
  | nil => rfl
  | cons item rest ih =>
    cases v with
    | nil => rfl
    | cons a v =>
      cases w with
      | nil => rfl
      | cons b w =>
        unfold List.map keyOrder
        rw [ih]
        rfl

theorem sortFrames_relabel (items : List OrderItem) (frames : List Frame) :
    (sortFrames env (items.map (OrderItem.relabel ρ)) (frames.map (Frame.relabel ρ))).toOption =
      relabelled ρ (sortFrames env items frames) := by
  unfold sortFrames relabelled
  rw [List.isEmpty_map]
  split
  next => rfl
  next =>
    rw [toOption_bind, toOption_bind, withKeys_relabel injective]
    cases withKeys env items frames with
    | error e => rfl
    | ok keyed =>
      have sort := List.map_mergeSort (r := fun a b : Row × Frame => keyOrder items a.1 b.1 != .gt)
        (s := fun a b : Row × Frame => keyOrder (items.map (OrderItem.relabel ρ)) a.1 b.1 != .gt)
        (f := fun p : Row × Frame => (p.1, Frame.relabel ρ p.2)) (l := keyed)
        fun a _ b _ => by simp only [keyOrder_relabel]
      change some _ = some _
      rw [← sort, List.map_map, List.map_map]
      rfl

theorem pageCount_relabel (e : Option Scalar) :
    (pageCount env (e.map (Scalar.relabel ρ))).toOption = (pageCount env e).toOption := by
  cases e with
  | none => rfl
  | some e =>
    have value : _ = (eval env [] e).toOption := eval_relabel injective [] e
    simp only [Option.map_some, pageCount, toOption_bind, ← value]
    rfl

theorem page_relabel {α β : Type} (g : α → β) (limit offset : Option Scalar) (items : List α) :
    (page env (limit.map (Scalar.relabel ρ)) (offset.map (Scalar.relabel ρ)) (items.map g)).toOption =
      (page env limit offset items).toOption.map (List.map g) := by
  simp only [page, toOption_bind, pageCount_relabel injective]
  cases pageCount env offset with
  | error e => rfl
  | ok skip =>
    cases pageCount env limit with
    | error e => rfl
    | ok take => cases take <;> simp [Except.toOption, pure, Except.pure]

theorem projectAll_relabel (ps : List Projection) (frames : List Frame) :
    (projectAll env (ps.map (Projection.relabel ρ)) (frames.map (Frame.relabel ρ))).toOption =
      (projectAll env ps frames).toOption := by
  have values : (ps.map (Projection.relabel ρ)).map Projection.value =
      (ps.map Projection.value).map (Scalar.relabel ρ) := by
    simp [Projection.relabel]
  induction frames with
  | nil => rfl
  | cons f rest ih =>
    simp only [List.map_cons, projectAll, project, toOption_bind, values, evalAll_relabel injective, ih]

theorem outputOf_relabel (ps : List Projection) (columns : List String) (frames : List Frame) :
    (outputOf env (ps.map (Projection.relabel ρ)) columns (frames.map (Frame.relabel ρ))).toOption =
      (outputOf env ps columns frames).toOption := by
  have names : (ps.map (Projection.relabel ρ)).map Projection.name = ps.map Projection.name := by
    simp [Projection.relabel]
  have values (f : Frame) : (Frame.relabel ρ f).flatMap Visible.values = f.flatMap Visible.values := by
    simp [Frame.relabel, List.flatMap_map, Visible.relabel]
  unfold outputOf
  rw [List.isEmpty_map]
  split
  next => simp [List.map_map, Function.comp_def, values]
  next => simp only [toOption_bind, projectAll_relabel injective, names]

theorem unitedRows_relabel (label : String) (columns : List String) (items : List OrderItem)
    (limit offset : Option Scalar) (rows : List Row) :
    (unitedRows env (ρ label) columns (items.map (OrderItem.relabel ρ)) (limit.map (Scalar.relabel ρ))
      (offset.map (Scalar.relabel ρ)) rows).toOption =
        (unitedRows env label columns items limit offset rows).toOption := by
  have frames : ((distinctRows [] rows).map fun r => [(⟨ρ label, columns, []⟩ : RowSet).visible r]) =
      ((distinctRows [] rows).map fun r => [(⟨label, columns, []⟩ : RowSet).visible r]).map (Frame.relabel ρ) := by
    rw [List.map_map]
    rfl
  unfold unitedRows
  simp only [frames, toOption_bind, sortFrames_relabel injective, relabelled, Option.bind_map]
  refine congrArg _ (funext fun sorted => ?_)
  simp only [Function.comp_apply, page_relabel injective, Option.bind_map]
  refine congrArg _ (funext fun paged => congrArg some ?_)
  simp [List.flatMap_map, Frame.relabel, Visible.relabel, List.map_map, Function.comp_def]

end

/-! ## Selects -/

section

variable {ρ : String → String} {db : Database} {env : Environment}

theorem literalRows_relabel (v : LiteralTable) :
    (literalRows env (v.relabel ρ)).toOption = (literalRows env v).toOption.map (RowSet.relabel ρ) := by
  obtain ⟨label, columns, rows⟩ := v
  unfold literalRows LiteralTable.relabel
  cases rows with
  | immediate rows =>
    dsimp only
    simp only [toOption_bind]
    cases immediateRows env rows <;> rfl
  | pending name => rfl
  | resolved name count =>
    dsimp only
    simp only [toOption_bind]
    cases (env.parameters.rows name).mapError Error.parameter <;> rfl

mutual

/-- A select has the same rows under other labels. -/
theorem selectRows_relabel (injective : ρ.Injective) (s : Select) :
    (selectRows db env (s.relabel ρ)).toOption = (selectRows db env s).toOption := by
  match s with
  | { source, joins, predicate, groupBy, having, projection, union, orderBy, limit, offset } =>
    unfold Select.relabel selectRows
    simp only [toOption_bind, sourceRows_relabel injective source, Option.bind_map]
    refine congrArg _ (funext fun first => ?_)
    -- joins, clauses and output are read under the new labels, one after the other
    have frames : ((first.relabel ρ).rows.map fun r => [(first.relabel ρ).visible r]) =
        (first.rows.map fun r => [first.visible r]).map (Frame.relabel ρ) := by
      rw [List.map_map]
      rfl
    simp only [Function.comp_apply, frames, joinAll_relabel injective joins, Option.bind_map]
    refine congrArg _ (funext fun ⟨joined, columns⟩ => ?_)
    simp only [Function.comp_apply, Prod.map, restrict_relabel injective, relabelled, Option.bind_map, id_eq]
    refine congrArg _ (funext fun kept => ?_)
    match union with
    | none =>
      unfold Select.relabelOption
      simp only [Function.comp_apply, toOption_bind, sortFrames_relabel injective, relabelled, Option.bind_map]
      refine congrArg _ (funext fun sorted => ?_)
      simp only [Function.comp_apply, page_relabel injective, Option.bind_map]
      refine congrArg _ (funext fun paged => ?_)
      exact outputOf_relabel injective projection _ paged
    | some other =>
      unfold Select.relabelOption
      show Except.toOption _ = Except.toOption _
      simp only [toOption_bind, outputOf_relabel injective, selectRows_relabel injective other]
      refine congrArg _ (funext fun own => congrArg _ (funext fun more => ?_))
      rw [show (first.relabel ρ).label = ρ first.label from rfl, unitedRows_relabel injective]

theorem sourceRows_relabel (injective : ρ.Injective) (s : Source) :
    (sourceRows db env (Source.relabel ρ s)).toOption = (sourceRows db env s).toOption.map (RowSet.relabel ρ) := by
  match s with
  | .table ref =>
    unfold Source.relabel sourceRows
    simp only [toOption_bind]
    cases (db.get ref.name).mapError Error.table <;> rfl
  | .literal v => exact literalRows_relabel v
  | .subquery select label =>
    unfold Source.relabel sourceRows
    simp only [toOption_bind, selectRows_relabel injective select]
    cases selectRows db env select <;> rfl

theorem joinAll_relabel (injective : ρ.Injective) (js : List (Join Select)) (frames : List Frame) :
    (joinAll db env (Join.relabelAll ρ js) (frames.map (Frame.relabel ρ))).toOption =
      (joinAll db env js frames).toOption.map (Prod.map (List.map (Frame.relabel ρ)) id) := by
  match js with
  | [] => rfl
  | j :: rest =>
    unfold Join.relabelAll joinAll
    simp only [toOption_bind, joinOne_relabel injective j, Option.bind_map, Option.map_bind]
    refine congrArg _ (funext fun ⟨found, here⟩ => ?_)
    simp only [Function.comp_apply, Prod.map, joinAll_relabel injective rest]
    cases joinAll db env rest found <;> rfl

theorem joinOne_relabel (injective : ρ.Injective) (j : Join Select) (frames : List Frame) :
    (joinOne db env (Join.relabel ρ j) (frames.map (Frame.relabel ρ))).toOption =
      (joinOne db env j frames).toOption.map (Prod.map (List.map (Frame.relabel ρ)) id) := by
  match j with
  | { kind, source, on } =>
    unfold Join.relabel joinOne
    simp only [toOption_bind, sourceRows_relabel injective source, Option.bind_map, Option.map_bind]
    refine congrArg _ (funext fun rs => ?_)
    simp only [Function.comp_apply, extendFrames_relabel injective, relabelled]
    cases extendFrames env kind on rs frames <;> rfl

end

end

end Execution

end Setwise
