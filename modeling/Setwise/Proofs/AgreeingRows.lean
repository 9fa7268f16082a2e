import Setwise.Proofs.AgreeingSelects
import Setwise.Proofs.Combining

/-!
Selects that agree deliver the same rows.

Clause by clause, frames that show the same rows stay so, in the same order. Where both of two selects in agreement
deliver, they deliver the same rows (`SelectsAgree.rows`), and as the source of an upsert they show the same frames
(`SelectsAgree.frames`).
-/

set_option autoImplicit false

namespace Setwise.Execution

open Relational Planning

variable {S : Sides} {K : Ledger} {incoming : Option (List String × Row)}

/-! ## Clauses -/

section

variable {f g : Frame}

theorem evalAll_agree (alike : FrameAlike K f g) {es es' : List Scalar}
    (agree : List.Forall₂ (ScalarsAgree S K) es es') :
    (evalAll ⟨S.left, incoming⟩ f es).toOption = (evalAll ⟨S.right, incoming⟩ g es').toOption := by
  rw [evalAll_toOption, evalAll_toOption]
  induction agree with
  | nil => rfl
  | cons first _ ih => rw [List.mapM_cons, List.mapM_cons, first incoming f g alike, ih]

theorem evalAll_same (alike : FrameAlike K f g) {es es' : List Scalar} {r r' : Row}
    (agree : List.Forall₂ (ScalarsAgree S K) es es') (row : evalAll ⟨S.left, incoming⟩ f es = .ok r)
    (row' : evalAll ⟨S.right, incoming⟩ g es' = .ok r') : r = r' := by
  have same : (evalAll ⟨S.left, incoming⟩ f es).toOption = (evalAll ⟨S.right, incoming⟩ g es').toOption :=
    evalAll_agree alike agree
  rw [row, row'] at same
  exact Option.some.inj same

theorem project_same (alike : FrameAlike K f g) {ps ps' : List Projection} {r r' : Row}
    (agree : ProjectionsAgree S K ps ps') (row : project ⟨S.left, incoming⟩ f ps = .ok r)
    (row' : project ⟨S.right, incoming⟩ g ps' = .ok r') : r = r' :=
  evalAll_same alike agree row row'

theorem keyOrder_agree {items items' : List OrderItem} (agree : List.Forall₂ (ItemsAgree S K) items items')
    (vs ws : Row) : keyOrder items vs ws = keyOrder items' vs ws := by
  induction agree generalizing vs ws with
  | nil => rfl
  | cons first _ ih =>
    cases vs with
    | nil => rfl
    | cons v vs =>
      cases ws with
      | nil => rfl
      | cons w ws => simp only [keyOrder, first.descending, ih]

theorem keyRow_agree (alike : FrameAlike K f g) {items items' : List OrderItem}
    (agree : List.Forall₂ (ItemsAgree S K) items items') :
    keyRow ⟨S.left, incoming⟩ items f = keyRow ⟨S.right, incoming⟩ items' g := by
  have keys : List.Forall₂ (ScalarsAgree S K) (items.map OrderItem.key) (items'.map OrderItem.key) := by
    rw [List.forall₂_map_left_iff, List.forall₂_map_right_iff]
    exact agree.imp fun _ _ item => item.key
  unfold keyRow
  rw [evalAll_agree alike keys]

end

def FramesAlike (K : Ledger) : List Frame → List Frame → Prop :=
  List.Forall₂ (FrameAlike K)

section

variable {frames frames' found found' : List Frame}

theorem filterFrames_alike (alike : FramesAlike K frames frames') {c d : Option Scalar}
    (agree : ConditionsAgree S K c d) (run : filterFrames ⟨S.left, incoming⟩ c frames = .ok found)
    (run' : filterFrames ⟨S.right, incoming⟩ d frames' = .ok found') : FramesAlike K found found' := by
  obtain ⟨rfl, -⟩ := filterFrames_eq_ok run
  obtain ⟨rfl, -⟩ := filterFrames_eq_ok run'
  exact List.rel_filter (fun f g h => Eq.to_iff (congrArg (· = true) (agree incoming f g h))) alike

theorem firstOfGroups_alike (alike : FramesAlike K frames frames') {keys keys' : List Scalar}
    (agree : List.Forall₂ (ScalarsAgree S K) keys keys') {seen : List Row}
    (run : firstOfGroups ⟨S.left, incoming⟩ keys seen frames = .ok found)
    (run' : firstOfGroups ⟨S.right, incoming⟩ keys' seen frames' = .ok found') : FramesAlike K found found' := by
  induction alike generalizing seen found found' with
  | nil =>
    obtain rfl := Except.ok.inj run
    obtain rfl := Except.ok.inj run'
    exact .nil
  | cons first _ ih =>
    obtain ⟨key, here, run⟩ := bind_eq_ok.1 run
    obtain ⟨key', here', run'⟩ := bind_eq_ok.1 run'
    obtain rfl := evalAll_same first agree here here'
    split at run
    next repeated =>
      rw [if_pos repeated] at run'
      exact ih run run'
    next new =>
      rw [if_neg new] at run'
      obtain ⟨others, later, run⟩ := bind_eq_ok.1 run
      obtain rfl := pure_eq_ok.1 run
      obtain ⟨others', later', run'⟩ := bind_eq_ok.1 run'
      obtain rfl := pure_eq_ok.1 run'
      exact .cons first (ih later later')

theorem groupFrames_alike (alike : FramesAlike K frames frames') {keys keys' : List Scalar}
    (agree : List.Forall₂ (ScalarsAgree S K) keys keys')
    (run : groupFrames ⟨S.left, incoming⟩ keys frames = .ok found)
    (run' : groupFrames ⟨S.right, incoming⟩ keys' frames' = .ok found') : FramesAlike K found found' := by
  unfold groupFrames at run run'
  cases agree with
  | nil =>
    obtain rfl := Except.ok.inj run
    obtain rfl := Except.ok.inj run'
    exact alike
  | cons first rest => exact firstOfGroups_alike alike (.cons first rest) run run'

theorem restrict_alike (alike : FramesAlike K frames frames') {s s' : Select} (agree : ClausesAgree S K s s')
    (run : restrict ⟨S.left, incoming⟩ s.predicate s.groupBy s.having frames = .ok found)
    (run' : restrict ⟨S.right, incoming⟩ s'.predicate s'.groupBy s'.having frames' = .ok found') :
    FramesAlike K found found' := by
  obtain ⟨kept, filtered, run⟩ := bind_eq_ok.1 run
  obtain ⟨groups, grouped, run⟩ := bind_eq_ok.1 run
  obtain ⟨kept', filtered', run'⟩ := bind_eq_ok.1 run'
  obtain ⟨groups', grouped', run'⟩ := bind_eq_ok.1 run'
  have kept := filterFrames_alike alike agree.predicate filtered filtered'
  exact filterFrames_alike (groupFrames_alike kept agree.groupBy grouped grouped') agree.having run run'

theorem sortFrames_alike (alike : FramesAlike K frames frames') {items items' : List OrderItem}
    (agree : List.Forall₂ (ItemsAgree S K) items items') (run : sortFrames ⟨S.left, incoming⟩ items frames = .ok found)
    (run' : sortFrames ⟨S.right, incoming⟩ items' frames' = .ok found') : FramesAlike K found found' := by
  obtain rfl := sortFrames_eq_ok run
  obtain rfl := sortFrames_eq_ok run'
  -- both lists are sorted as one list of pairs
  obtain ⟨pairs, rfl, rfl, all⟩ : ∃ pairs : List (Frame × Frame), pairs.map Prod.fst = frames ∧
      pairs.map Prod.snd = frames' ∧ ∀ p ∈ pairs, FrameAlike K p.1 p.2 := by
    obtain ⟨length, zipped⟩ := List.forall₂_iff_zip.1 alike
    refine ⟨frames.zip frames', List.map_fst_zip (Nat.le_of_eq length), List.map_snd_zip (Nat.le_of_eq length.symm), ?_⟩
    exact fun p member => zipped member
  have left := List.map_mergeSort (r := fun p q => frameLe ⟨S.left, incoming⟩ items p.1 q.1)
    (s := frameLe ⟨S.left, incoming⟩ items) (f := Prod.fst) (l := pairs) fun _ _ _ _ => rfl
  have right := List.map_mergeSort (r := fun p q => frameLe ⟨S.left, incoming⟩ items p.1 q.1)
    (s := frameLe ⟨S.right, incoming⟩ items') (f := Prod.snd) (l := pairs) fun p hp q hq => by
      unfold frameLe
      rw [keyRow_agree (all p hp) agree, keyRow_agree (all q hq) agree, keyOrder_agree agree]
  unfold arranged
  rw [← left, ← right]
  unfold FramesAlike
  rw [List.forall₂_map_left_iff, List.forall₂_map_right_iff, List.forall₂_same]
  exact fun p member => all p (List.mem_mergeSort.1 member)

theorem pageCount_same {c d : Option Scalar} (agree : Option.Rel (ScalarsAgree S K) c d) {n n' : Option Nat}
    (run : pageCount ⟨S.left, incoming⟩ c = .ok n) (run' : pageCount ⟨S.right, incoming⟩ d = .ok n') : n = n' := by
  cases agree with
  | none => exact Except.ok.inj (run.symm.trans run')
  | some agree =>
    obtain ⟨v, value, run⟩ := bind_eq_ok.1 run
    obtain ⟨v', value', run'⟩ := bind_eq_ok.1 run'
    have same := agree incoming [] [] .nil
    unfold valueOf at same
    rw [value, value'] at same
    obtain rfl := Option.some.inj same
    exact Except.ok.inj (run.symm.trans run')

theorem page_alike (alike : FramesAlike K frames frames') {limit offset limit' offset' : Option Scalar}
    (limits : Option.Rel (ScalarsAgree S K) limit limit') (offsets : Option.Rel (ScalarsAgree S K) offset offset')
    (run : page ⟨S.left, incoming⟩ limit offset frames = .ok found)
    (run' : page ⟨S.right, incoming⟩ limit' offset' frames' = .ok found') : FramesAlike K found found' := by
  obtain ⟨skip, skipped, run⟩ := bind_eq_ok.1 run
  obtain ⟨take, taken, run⟩ := bind_eq_ok.1 run
  obtain rfl := pure_eq_ok.1 run
  obtain ⟨skip', skipped', run'⟩ := bind_eq_ok.1 run'
  obtain ⟨take', taken', run'⟩ := bind_eq_ok.1 run'
  obtain rfl := pure_eq_ok.1 run'
  obtain rfl := pageCount_same offsets skipped skipped'
  obtain rfl := pageCount_same limits taken taken'
  cases take with
  | none => exact List.forall₂_drop _ alike
  | some n => exact List.forall₂_take _ (List.forall₂_drop _ alike)

theorem projectAll_same (alike : FramesAlike K frames frames') {ps ps' : List Projection}
    (agree : ProjectionsAgree S K ps ps') {rows rows' : List Row}
    (run : projectAll ⟨S.left, incoming⟩ ps frames = .ok rows)
    (run' : projectAll ⟨S.right, incoming⟩ ps' frames' = .ok rows') : rows = rows' := by
  induction alike generalizing rows rows' with
  | nil => exact Except.ok.inj (run.symm.trans run')
  | cons first _ ih =>
    obtain ⟨row, here, run⟩ := bind_eq_ok.1 run
    obtain ⟨rest, later, run⟩ := bind_eq_ok.1 run
    obtain rfl := pure_eq_ok.1 run
    obtain ⟨row', here', run'⟩ := bind_eq_ok.1 run'
    obtain ⟨rest', later', run'⟩ := bind_eq_ok.1 run'
    obtain rfl := pure_eq_ok.1 run'
    rw [project_same first agree here here', ih later later']

theorem values_same (alike : FramesAlike K frames frames') :
    (frames.map fun f => f.flatMap Visible.values) = frames'.map fun f => f.flatMap Visible.values := by
  induction alike with
  | nil => rfl
  | cons first _ ih => rw [List.map_cons, List.map_cons, FrameAlike.values first, ih]

end

/-! ## Joins -/

/-- The rows of two sources are the same, in columns that are as the ledger says. -/
structure RowSetsAlike (K : Ledger) (rs rs' : RowSet) : Prop where
  label : rs.label = rs'.label
  rows : rs.rows = rs'.rows
  width : rs.columns.length = rs'.columns.length
  columns : ∀ n ∈ K.lookup rs.label, n.Fits rs.columns rs'.columns

section

variable {rs rs' : RowSet}

theorem RowSetsAlike.visible (h : RowSetsAlike K rs rs') (r : Row) : VisibleAlike K (rs.visible r) (rs'.visible r) :=
  ⟨h.label, rfl, h.columns⟩

theorem RowSetsAlike.absent (h : RowSetsAlike K rs rs') : VisibleAlike K rs.absent rs'.absent :=
  ⟨h.label, congrArg (List.replicate · Value.null) h.width, h.columns⟩

/-- The frames of the rows of two sources. -/
theorem RowSetsAlike.frames (h : RowSetsAlike K rs rs') :
    FramesAlike K (rs.rows.map fun r => [rs.visible r]) (rs'.rows.map fun r => [rs'.visible r]) := by
  rw [h.rows]
  unfold FramesAlike
  rw [List.forall₂_map_left_iff, List.forall₂_map_right_iff, List.forall₂_same]
  exact fun r _ => .cons (h.visible r) .nil

theorem FrameAlike.append {f g : Frame} (alike : FrameAlike K f g) {b b' : Visible} (h : VisibleAlike K b b') :
    FrameAlike K (f ++ [b]) (g ++ [b']) :=
  List.rel_append alike (.cons h .nil)

theorem extensions_alike (rows : RowSetsAlike K rs rs') {kind : JoinKind} {c d : Option Scalar}
    (agree : ConditionsAgree S K c d) {f g : Frame} (alike : FrameAlike K f g) :
    FramesAlike K (extensions ⟨S.left, incoming⟩ kind c rs f) (extensions ⟨S.right, incoming⟩ kind d rs' g) := by
  have same : (rs.rows.filter (matchesRow ⟨S.left, incoming⟩ kind c rs f)) =
      rs'.rows.filter (matchesRow ⟨S.right, incoming⟩ kind d rs' g) := by
    rw [rows.rows]
    refine List.filter_congr fun r _ => ?_
    unfold matchesRow
    rw [agree incoming _ _ (alike.append (rows.visible r))]
  unfold extensions
  rw [same]
  simp only [List.isEmpty_map]
  split
  next => exact .cons (alike.append rows.absent) .nil
  next =>
    unfold FramesAlike
    rw [List.forall₂_map_left_iff, List.forall₂_map_right_iff, List.forall₂_same]
    exact fun r _ => alike.append (rows.visible r)

theorem extendFrames_alike (rows : RowSetsAlike K rs rs') {kind : JoinKind} {c d : Option Scalar}
    (agree : ConditionsAgree S K c d) {frames frames' found found' : List Frame} (alike : FramesAlike K frames frames')
    (run : extendFrames ⟨S.left, incoming⟩ kind c rs frames = .ok found)
    (run' : extendFrames ⟨S.right, incoming⟩ kind d rs' frames' = .ok found') : FramesAlike K found found' := by
  obtain ⟨rfl, -⟩ := extendFrames_eq_ok run
  obtain ⟨rfl, -⟩ := extendFrames_eq_ok run'
  exact List.rel_flatMap alike fun f g h => extensions_alike rows agree h

end

/-! ## Selects -/

variable {db : Database}

theorem selectRows_columns {env : Environment} {s : Select} {output : Output} (names : s.projection ≠ [])
    (h : selectRows db env s = .ok output) : output.columns = s.projection.map Projection.name := by
  cases s
  unfold selectRows at h
  obtain ⟨first, -, h⟩ := bind_eq_ok.1 h
  obtain ⟨⟨frames, columns⟩, -, h⟩ := bind_eq_ok.1 h
  obtain ⟨kept, -, h⟩ := bind_eq_ok.1 h
  split at h
  next =>
    obtain ⟨sorted, -, h⟩ := bind_eq_ok.1 h
    obtain ⟨paged, -, h⟩ := bind_eq_ok.1 h
    exact (outputOf_eq_ok names h).2
  next =>
    obtain ⟨united, made, h⟩ := bind_eq_ok.1 h
    obtain ⟨more, -, h⟩ := bind_eq_ok.1 h
    obtain ⟨rows, -, h⟩ := bind_eq_ok.1 h
    obtain rfl := pure_eq_ok.1 h
    exact (outputOf_eq_ok names made).2

structure OutputsAlike (o o' : Output) : Prop where
  rows : o.rows = o'.rows
  width : o.columns.length = o'.columns.length

theorem outputOf_alike {frames frames' : List Frame} (alike : FramesAlike K frames frames') {ps ps' : List Projection}
    (agree : ProjectionsAgree S K ps ps') {columns columns' : List String} (width : columns.length = columns'.length)
    {o o' : Output} (run : outputOf ⟨S.left, incoming⟩ ps columns frames = .ok o)
    (run' : outputOf ⟨S.right, incoming⟩ ps' columns' frames' = .ok o') : OutputsAlike o o' := by
  have length : ps.length = ps'.length := by simpa using agree.length_eq
  unfold outputOf at run run'
  split at run
  -- without a projection the rows are given whole
  next empty =>
    obtain rfl := List.isEmpty_iff.1 empty
    obtain rfl := List.length_eq_zero_iff.1 length.symm
    obtain rfl := Except.ok.inj run
    obtain rfl := Except.ok.inj run'
    exact ⟨values_same alike, width⟩
  next names =>
    have names' : ps'.isEmpty = false := by
      cases ps' with
      | nil =>
        obtain rfl := List.length_eq_zero_iff.1 length
        exact absurd rfl names
      | cons => rfl
    rw [names', if_neg Bool.false_ne_true] at run'
    obtain ⟨rows, projected, run⟩ := bind_eq_ok.1 run
    obtain rfl := pure_eq_ok.1 run
    obtain ⟨rows', projected', run'⟩ := bind_eq_ok.1 run'
    obtain rfl := pure_eq_ok.1 run'
    exact ⟨projectAll_same alike agree projected projected', by simpa using length⟩

theorem Naming.Covers.fits {n : Naming} {ps ps' : List Projection} (h : n.Covers ps ps') {o o' : Output}
    (alike : OutputsAlike o o') (columns : ps ≠ [] → o.columns = ps.map Projection.name)
    (columns' : ps' ≠ [] → o'.columns = ps'.map Projection.name) : n.Fits o.columns o'.columns := by
  have exist {ps : List Projection} {name : String} (h : ps.map Projection.name = [name]) : ps ≠ [] := by
    rintro rfl
    cases h
  cases n with
  | unread => exact alike.width
  | single left right =>
    obtain ⟨names, names'⟩ := h
    exact ⟨(columns (exist names)).trans names, (columns' (exist names')).trans names'⟩
  | same =>
    obtain ⟨names, some⟩ := h
    have some' : ps' ≠ [] := by
      rintro rfl
      exact some (List.map_eq_nil_iff.1 names)
    exact (columns some).trans (names.trans (columns' some').symm)

/-- Literal tables that agree, and whose rows are counted, have the same rows. -/
theorem TablesAgree.rows {v v' : LiteralTable} (h : TablesAgree S v v') {rs rs' : RowSet}
    (run : literalRows ⟨S.left, incoming⟩ v = .ok rs) (run' : literalRows ⟨S.right, incoming⟩ v' = .ok rs') :
    rs = rs' ∧ rs.label = v.label := by
  cases h with
  | pending => cases run
  | resolved held held' =>
    obtain rfl := Except.ok.inj ((literalRows_resolved held).symm.trans run)
    obtain rfl := Except.ok.inj ((literalRows_resolved held').symm.trans run')
    exact ⟨rfl, rfl⟩

mutual

/-- Selects that agree deliver the same rows. -/
theorem SelectsAgree.rows {s s' : Select} (h : SelectsAgree S K s s') {o o' : Output}
    (run : selectRows db ⟨S.left, incoming⟩ s = .ok o) (run' : selectRows db ⟨S.right, incoming⟩ s' = .ok o') :
    OutputsAlike o o' := by
  match h with
  | @SelectsAgree.intro _ _ s s' source joins clauses union =>
    obtain ⟨source₁, joins₁, _, _, _, _, union₁, _, _, _⟩ := s
    obtain ⟨source₂, joins₂, _, _, _, _, union₂, _, _, _⟩ := s'
    unfold selectRows at run run'
    obtain ⟨first, here, run⟩ := bind_eq_ok.1 run
    obtain ⟨⟨frames, columns⟩, joined, run⟩ := bind_eq_ok.1 run
    obtain ⟨kept, restricted, run⟩ := bind_eq_ok.1 run
    obtain ⟨first', here', run'⟩ := bind_eq_ok.1 run'
    obtain ⟨⟨frames', columns'⟩, joined', run'⟩ := bind_eq_ok.1 run'
    obtain ⟨kept', restricted', run'⟩ := bind_eq_ok.1 run'
    -- both sides run through the same stages, and every stage leaves the frames alike
    have sources := source.rows here here'
    obtain ⟨alike, width⟩ := joins.frames sources.frames joined joined'
    have alike := restrict_alike alike clauses restricted restricted'
    have widths : (first.columns ++ columns).length = (first'.columns ++ columns').length := by
      simp only [List.length_append, sources.width, width]
    dsimp only at union run run'
    match union with
    | .none =>
      dsimp only at run run'
      obtain ⟨sorted, ordered, run⟩ := bind_eq_ok.1 run
      obtain ⟨paged, taken, run⟩ := bind_eq_ok.1 run
      obtain ⟨sorted', ordered', run'⟩ := bind_eq_ok.1 run'
      obtain ⟨paged', taken', run'⟩ := bind_eq_ok.1 run'
      have alike := sortFrames_alike alike clauses.orderBy ordered ordered'
      have alike := page_alike alike clauses.limit clauses.offset taken taken'
      exact outputOf_alike alike clauses.projection widths run run'
    | .some select =>
      dsimp only at run run'
      obtain ⟨own, made, run⟩ := bind_eq_ok.1 run
      obtain ⟨more, beside, run⟩ := bind_eq_ok.1 run
      obtain ⟨rows, united, run⟩ := bind_eq_ok.1 run
      obtain rfl := pure_eq_ok.1 run
      obtain ⟨own', made', run'⟩ := bind_eq_ok.1 run'
      obtain ⟨more', beside', run'⟩ := bind_eq_ok.1 run'
      obtain ⟨rows', united', run'⟩ := bind_eq_ok.1 run'
      obtain rfl := pure_eq_ok.1 run'
      have owns := outputOf_alike alike clauses.projection widths made made'
      have others := select.rows beside beside'
      -- a select with a union has no order and no page, so its rows are those of both sides
      obtain ⟨rfl, rfl, rfl⟩ := clauses.plain rfl
      obtain ⟨-, -, -, -, orderBy, limit, offset, -⟩ := clauses
      cases orderBy
      cases limit
      cases offset
      obtain rfl := unitedRows_unordered united
      obtain rfl := unitedRows_unordered united'
      refine ⟨?_, owns.width⟩
      dsimp only
      rw [owns.rows, others.rows]

theorem SourcesAgree.rows {s s' : Source} (h : SourcesAgree S K s s') {rs rs' : RowSet}
    (run : sourceRows db ⟨S.left, incoming⟩ s = .ok rs) (run' : sourceRows db ⟨S.right, incoming⟩ s' = .ok rs') :
    RowSetsAlike K rs rs' := by
  match h with
  | .table t known =>
    unfold sourceRows at run run'
    obtain ⟨stored, found, run⟩ := bind_eq_ok.1 run
    obtain rfl := pure_eq_ok.1 run
    obtain ⟨stored', found', run'⟩ := bind_eq_ok.1 run'
    obtain rfl := pure_eq_ok.1 run'
    obtain rfl := Except.ok.inj (found.symm.trans found')
    refine ⟨rfl, rfl, rfl, fun n member => ?_⟩
    obtain rfl := Option.some.inj (known.symm.trans member)
    exact rfl
  | .literal known tables =>
    unfold sourceRows at run run'
    obtain ⟨rfl, label⟩ := tables.rows run run'
    refine ⟨rfl, rfl, rfl, fun n member => ?_⟩
    rw [label] at member
    obtain rfl := Option.some.inj (known.symm.trans member)
    exact rfl
  | .subquery known covers select =>
    unfold sourceRows at run run'
    obtain ⟨o, here, run⟩ := bind_eq_ok.1 run
    obtain rfl := pure_eq_ok.1 run
    obtain ⟨o', here', run'⟩ := bind_eq_ok.1 run'
    obtain rfl := pure_eq_ok.1 run'
    -- the columns of both subqueries cover the names that the ledger holds for the label
    have alike := select.rows here here'
    refine ⟨rfl, alike.rows, alike.width, fun n member => ?_⟩
    obtain rfl := Option.some.inj (known.symm.trans member)
    exact covers.fits alike (selectRows_columns · here) (selectRows_columns · here')

theorem JoinsAgree.frames {js js' : List (Join Select)} (h : JoinsAgree S K js js') {frames frames' found found' : List Frame}
    {columns columns' : List String} (alike : FramesAlike K frames frames')
    (run : joinAll db ⟨S.left, incoming⟩ js frames = .ok (found, columns))
    (run' : joinAll db ⟨S.right, incoming⟩ js' frames' = .ok (found', columns')) :
    FramesAlike K found found' ∧ columns.length = columns'.length := by
  match h with
  | .nil =>
    obtain ⟨rfl, rfl⟩ := joinAll_nil_eq_ok.1 run
    obtain ⟨rfl, rfl⟩ := joinAll_nil_eq_ok.1 run'
    exact ⟨alike, rfl⟩
  | .cons kind source on rest =>
    obtain ⟨rs, middle, others, here, extended, later, rfl⟩ := joinAll_cons_eq_ok.1 run
    obtain ⟨rs', middle', others', here', extended', later', rfl⟩ := joinAll_cons_eq_ok.1 run'
    have rows := source.rows here here'
    rw [kind] at extended
    obtain ⟨alike, width⟩ := rest.frames (extendFrames_alike rows on alike extended extended') later later'
    exact ⟨alike, by simp only [List.length_append, rows.width, width]⟩

end

/-- Selects that agree show the same frames before they are sorted, paged and projected. -/
theorem SelectsAgree.frames {s s' : Select} (h : SelectsAgree S K s s') {frames frames' : List Frame}
    (run : selectFrames db ⟨S.left, incoming⟩ s = .ok frames) (run' : selectFrames db ⟨S.right, incoming⟩ s' = .ok frames') :
    FramesAlike K frames frames' := by
  cases h with
  | intro source joins clauses union =>
    obtain ⟨all, joined, restricted⟩ := selectFrames_eq_ok.1 run
    obtain ⟨all', joined', restricted'⟩ := selectFrames_eq_ok.1 run'
    obtain ⟨first, columns, here, joined⟩ := joinedFrames_eq_ok.1 joined
    obtain ⟨first', columns', here', joined'⟩ := joinedFrames_eq_ok.1 joined'
    obtain ⟨alike, -⟩ := joins.frames (source.rows here here').frames joined joined'
    exact restrict_alike alike clauses restricted restricted'

end Setwise.Execution
