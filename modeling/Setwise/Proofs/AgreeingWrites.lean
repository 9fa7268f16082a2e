import Setwise.Proofs.AgreeingRows
import Setwise.Proofs.Writing

/-!
Statements that agree write the same.

Two statements on one table agree when their sources and expressions do. Where both succeed, they find the same
rows, compute the same values and make the same changes (`StatementsAgree.write`), so that they report the same
number of rows and leave the same database (`StatementsAgree.run`).
-/

set_option autoImplicit false

namespace Setwise.Execution

open Relational Planning

/-! ## Agreement -/

section

variable (S : Sides) (K : Ledger)

structure AssignmentsAgree (ps ps' : List Projection) : Prop where
  names : assignedColumns ps = assignedColumns ps'
  values : ProjectionsAgree S K ps ps'

inductive StatementsAgree : Statement → Statement → Prop
  | delete {table : StoredTable} (known : K.lookup table.label = some .same) {c d : Option Scalar}
      (predicate : ConditionsAgree S K c d) {js js' : List (Join Select)} (joins : JoinsAgree S K js js') :
      StatementsAgree (.delete table c js) (.delete table d js')
  | update {table : StoredTable} (known : K.lookup table.label = some .same) {set set' : List Projection}
      (changes : AssignmentsAgree S K set set') {c d : Option Scalar} (predicate : ConditionsAgree S K c d)
      {js js' : List (Join Select)} (joins : JoinsAgree S K js js') :
      StatementsAgree (.update table set c js) (.update table set' d js')
  | insertInto (table : String) (schema : Option String) {s s' : Select} (select : SelectsAgree S K s s')
      (names : assignedColumns s.projection = assignedColumns s'.projection) (nonempty : s.projection ≠ []) :
      StatementsAgree (.insertInto table schema s) (.insertInto table schema s')
  | upsert {table : StoredTable} (known : K.lookup table.label = some .same) {s s' : Option Select}
      (source : UnionsAgree S K s s') {ps ps' : List Projection} (inserted : AssignmentsAgree S K ps ps')
      {set set' : Option (List Projection)} (updated : Option.Rel (AssignmentsAgree S K) set set')
      (constraint : String) (columns : List String) :
      StatementsAgree (.upsert table s ps set constraint columns) (.upsert table s' ps' set' constraint columns)
  | merge {table : StoredTable} (known : K.lookup table.label = some .same) {s s' : Source}
      (source : SourcesAgree S K s s') {on on' : Scalar} (condition : ConditionsAgree S K (some on) (some on'))
      {set set' : Option (List Projection)} (matched : Option.Rel (AssignmentsAgree S K) set set')
      {ps ps' : Option (List Projection)} (inserted : Option.Rel (AssignmentsAgree S K) ps ps')
      (deleteUnmatched : Bool) :
      StatementsAgree (.merge table s on set ps deleteUnmatched) (.merge table s' on' set' ps' deleteUnmatched)
  | truncate (table : StoredTable) : StatementsAgree (.truncate table) (.truncate table)
  | noop : StatementsAgree .noop .noop

end

variable {S : Sides} {K K' : Ledger}

theorem AssignmentsAgree.nil : AssignmentsAgree S K [] [] :=
  ⟨rfl, .nil⟩

theorem AssignmentsAgree.cons {c c' : String} {a a' : Scalar} {ps ps' : List Projection} (column : c = c')
    (value : ScalarsAgree S K a a') (rest : AssignmentsAgree S K ps ps') :
    AssignmentsAgree S K (⟨c, a⟩ :: ps) (⟨c', a'⟩ :: ps') :=
  ⟨congrArg₂ List.cons column rest.names, .cons value rest.values⟩

theorem AssignmentsAgree.later (more : K <+: K') {ps ps' : List Projection} (h : AssignmentsAgree S K ps ps') :
    AssignmentsAgree S K' ps ps' :=
  ⟨h.names, h.values.imp fun _ _ => .later more⟩

theorem AssignmentsAgree.laterOption (more : K <+: K') {ps ps' : Option (List Projection)}
    (h : Option.Rel (AssignmentsAgree S K) ps ps') : Option.Rel (AssignmentsAgree S K') ps ps' := by
  cases h with
  | none => exact .none
  | some agree => exact .some (agree.later more)

theorem StatementsAgree.prune {s s' : Statement} (h : StatementsAgree S K s s') :
    StatementsAgree S K s.prune s'.prune := by
  cases h with
  | delete known predicate joins => exact .delete known predicate.prune joins.prune
  | update known changes predicate joins => exact .update known changes predicate.prune joins.prune
  | insertInto table schema select names nonempty =>
    refine .insertInto table schema select.prune ?_ ?_
    · rwa [prune_projection, prune_projection]
    · rwa [prune_projection]
  | upsert known source inserted updated constraint columns =>
    exact .upsert known source.prune inserted updated constraint columns
  | merge known source condition matched inserted deleteUnmatched =>
    exact .merge known source.prune condition matched inserted deleteUnmatched
  | truncate table => exact .truncate table
  | noop => exact .noop

theorem StatementsAgree.bind {s s' t t' : Statement} (h : StatementsAgree S K s s')
    (bound : s.mapLiteralTables (LiteralTable.resolve S.left) = .ok t)
    (bound' : s'.mapLiteralTables (LiteralTable.resolve S.right) = .ok t') : StatementsAgree S K t t' := by
  cases h with
  | delete known predicate joins =>
    obtain ⟨js, inside, bound⟩ := bind_eq_ok.1 bound
    obtain rfl := pure_eq_ok.1 bound
    obtain ⟨js', inside', bound'⟩ := bind_eq_ok.1 bound'
    obtain rfl := pure_eq_ok.1 bound'
    exact .delete known predicate (joins.bind inside inside')
  | update known changes predicate joins =>
    obtain ⟨js, inside, bound⟩ := bind_eq_ok.1 bound
    obtain rfl := pure_eq_ok.1 bound
    obtain ⟨js', inside', bound'⟩ := bind_eq_ok.1 bound'
    obtain rfl := pure_eq_ok.1 bound'
    exact .update known changes predicate (joins.bind inside inside')
  | insertInto table schema select names nonempty =>
    obtain ⟨u, inside, bound⟩ := bind_eq_ok.1 bound
    obtain rfl := pure_eq_ok.1 bound
    obtain ⟨u', inside', bound'⟩ := bind_eq_ok.1 bound'
    obtain rfl := pure_eq_ok.1 bound'
    obtain ⟨agree, projection, projection'⟩ := select.bind inside inside'
    exact .insertInto table schema agree (by rwa [projection, projection']) (by rwa [projection])
  | upsert known source inserted updated constraint columns =>
    obtain ⟨u, inside, bound⟩ := bind_eq_ok.1 bound
    obtain rfl := pure_eq_ok.1 bound
    obtain ⟨u', inside', bound'⟩ := bind_eq_ok.1 bound'
    obtain rfl := pure_eq_ok.1 bound'
    exact .upsert known (source.bind inside inside').1 inserted updated constraint columns
  | merge known source condition matched inserted deleteUnmatched =>
    obtain ⟨u, inside, bound⟩ := bind_eq_ok.1 bound
    obtain rfl := pure_eq_ok.1 bound
    obtain ⟨u', inside', bound'⟩ := bind_eq_ok.1 bound'
    obtain rfl := pure_eq_ok.1 bound'
    exact .merge known (source.bind inside inside') condition matched inserted deleteUnmatched
  | truncate table =>
    obtain rfl := Except.ok.inj bound
    obtain rfl := Except.ok.inj bound'
    exact .truncate table
  | noop =>
    obtain rfl := Except.ok.inj bound
    obtain rfl := Except.ok.inj bound'
    exact .noop

/-! ## Steps that write the same -/

def Write.Agree {α β : Type} (R : α → β → Prop) (x : Write α) (y : Write β) : Prop :=
  ∀ ⦃t u u' a b⦄, x.run t = (.ok a, u) → y.run t = (.ok b, u') → R a b ∧ u = u'

namespace Write.Agree

variable {α β γ δ : Type} {R : α → β → Prop} {Q : γ → δ → Prop}

theorem refl (x : Write α) : Write.Agree Eq x x := by
  intro t u u' a b run run'
  obtain ⟨result, table⟩ := Prod.mk.inj (run.symm.trans run')
  exact ⟨Except.ok.inj result, table⟩

theorem bind {x : Write α} {y : Write β} {f : α → Write γ} {g : β → Write δ} (hx : Write.Agree R x y)
    (hf : ∀ a b, R a b → Write.Agree Q (f a) (g b)) : Write.Agree Q (x >>= f) (y >>= g) := by
  intro t u u' c d run run'
  rw [run_bind] at run run'
  split at run
  next a v first =>
    split at run'
    next b v' first' =>
      obtain ⟨related, rfl⟩ := hx first first'
      exact hf a b related run run'
    next => cases run'
  next => cases run

theorem ofResult {x : Except Error α} {y : Except Error β} (h : ∀ a b, x = .ok a → y = .ok b → R a b) :
    Write.Agree R (Write.ofResult x) (Write.ofResult y) := by
  intro t u u' a b run run'
  cases x with
  | error e => cases run
  | ok c =>
    cases y with
    | error e => cases run'
    | ok d =>
      cases run
      cases run'
      exact ⟨h a b rfl rfl, rfl⟩

end Write.Agree

/-! ## Rows that are found -/

def FoundAlike (K : Ledger) : List (Nat × Frame) → List (Nat × Frame) → Prop :=
  List.Forall₂ fun p q => p.1 = q.1 ∧ FrameAlike K p.2 q.2

theorem visible_ofTable {label : String} (known : K.lookup label = some .same) (t : Table) (r : Row) :
    VisibleAlike K ((RowSet.ofTable t label).visible r) ((RowSet.ofTable t label).visible r) where
  label := rfl
  values := rfl
  columns n found := by
    obtain rfl := Option.some.inj (known.symm.trans found)
    exact rfl

section

variable {db : Database} {incoming : Option (List String × Row)}

theorem firstFrame?_alike {frames frames' : List Frame} (alike : FramesAlike K frames frames') {c d : Option Scalar}
    (agree : ConditionsAgree S K c d) {f g : Option Frame} (run : firstFrame? ⟨S.left, incoming⟩ c frames = .ok f)
    (run' : firstFrame? ⟨S.right, incoming⟩ d frames' = .ok g) : Option.Rel (FrameAlike K) f g := by
  induction alike with
  | nil =>
    obtain rfl := Except.ok.inj run
    obtain rfl := Except.ok.inj run'
    exact .none
  | @cons a b _ _ first _ ih =>
    obtain ⟨keep, here, run⟩ := bind_eq_ok.1 run
    obtain ⟨keep', here', run'⟩ := bind_eq_ok.1 run'
    obtain rfl : keep = keep' := by
      rw [← passes_of_eq_ok here, ← passes_of_eq_ok here', agree incoming a b first]
    split at run
    next found =>
      rw [if_pos found] at run'
      obtain rfl := pure_eq_ok.1 run
      obtain rfl := pure_eq_ok.1 run'
      exact .some first
    next missing =>
      rw [if_neg missing] at run'
      exact ih run run'

theorem satisfyingFrom_alike {rs : RowSet} (visible : ∀ r, VisibleAlike K (rs.visible r) (rs.visible r))
    {js js' : List (Join Select)} (joins : JoinsAgree S K js js') {c d : Option Scalar}
    (agree : ConditionsAgree S K c d) {rows : List Row} {position : Nat} {found found' : List (Nat × Frame)}
    (run : satisfyingFrom db ⟨S.left, incoming⟩ rs js c position rows = .ok found)
    (run' : satisfyingFrom db ⟨S.right, incoming⟩ rs js' d position rows = .ok found') : FoundAlike K found found' := by
  induction rows generalizing position found found' with
  | nil =>
    obtain rfl := Except.ok.inj run
    obtain rfl := Except.ok.inj run'
    exact .nil
  | cons r rest ih =>
    obtain ⟨⟨frames, _⟩, joined, run⟩ := bind_eq_ok.1 run
    obtain ⟨first, here, run⟩ := bind_eq_ok.1 run
    obtain ⟨others, later, run⟩ := bind_eq_ok.1 run
    obtain rfl := pure_eq_ok.1 run
    obtain ⟨⟨frames', _⟩, joined', run'⟩ := bind_eq_ok.1 run'
    obtain ⟨first', here', run'⟩ := bind_eq_ok.1 run'
    obtain ⟨others', later', run'⟩ := bind_eq_ok.1 run'
    obtain rfl := pure_eq_ok.1 run'
    obtain ⟨alike, -⟩ := joins.frames (.cons (.cons (visible r) .nil) .nil) joined joined'
    have others := ih later later'
    cases firstFrame?_alike alike agree here here' with
    | none => exact others
    | some same => exact .cons ⟨rfl, same⟩ others

theorem satisfyingRows_alike {table : StoredTable} (known : K.lookup table.label = some .same)
    {js js' : List (Join Select)} (joins : JoinsAgree S K js js') {c d : Option Scalar}
    (agree : ConditionsAgree S K c d) {found found' : List (Nat × Frame)}
    (run : satisfyingRows db ⟨S.left, incoming⟩ table js c = .ok found)
    (run' : satisfyingRows db ⟨S.right, incoming⟩ table js' d = .ok found') : FoundAlike K found found' := by
  obtain ⟨t, stored, run⟩ := bind_eq_ok.1 run
  obtain ⟨t', stored', run'⟩ := bind_eq_ok.1 run'
  obtain rfl := Except.ok.inj (stored.symm.trans stored')
  exact satisfyingFrom_alike (visible_ofTable known t) joins agree run run'

theorem changesOf_same {found found' : List (Nat × Frame)} (alike : FoundAlike K found found')
    {set set' : List Projection} (agree : ProjectionsAgree S K set set') {changes changes' : List (Nat × Row)}
    (run : changesOf ⟨S.left, incoming⟩ set found = .ok changes)
    (run' : changesOf ⟨S.right, incoming⟩ set' found' = .ok changes') : changes = changes' := by
  induction alike generalizing changes changes' with
  | nil => exact Except.ok.inj (run.symm.trans run')
  | @cons p q _ _ first _ ih =>
    obtain ⟨i, f⟩ := p
    obtain ⟨j, g⟩ := q
    obtain ⟨rfl, frames⟩ := first
    obtain ⟨values, here, run⟩ := bind_eq_ok.1 run
    obtain ⟨rest, later, run⟩ := bind_eq_ok.1 run
    obtain rfl := pure_eq_ok.1 run
    obtain ⟨values', here', run'⟩ := bind_eq_ok.1 run'
    obtain ⟨rest', later', run'⟩ := bind_eq_ok.1 run'
    obtain rfl := pure_eq_ok.1 run'
    rw [project_same frames agree here here', ih later later']

/-! ## Upserts -/

theorem incomingRows_same {s s' : Option Select} (source : UnionsAgree S K s s') {ps ps' : List Projection}
    (agree : ProjectionsAgree S K ps ps') {rows rows' : List Row}
    (run : incomingRows db ⟨S.left, incoming⟩ s ps = .ok rows)
    (run' : incomingRows db ⟨S.right, incoming⟩ s' ps' = .ok rows') : rows = rows' := by
  cases source with
  | none =>
    obtain ⟨row, here, run⟩ := bind_eq_ok.1 run
    obtain rfl := pure_eq_ok.1 run
    obtain ⟨row', here', run'⟩ := bind_eq_ok.1 run'
    obtain rfl := pure_eq_ok.1 run'
    rw [project_same .nil agree here here']
  | some select =>
    obtain ⟨frames, selected, run⟩ := bind_eq_ok.1 run
    obtain ⟨frames', selected', run'⟩ := bind_eq_ok.1 run'
    exact projectAll_same (select.frames selected selected') agree run run'

theorem upsertRow_agree {label : String} (known : K.lookup label = some .same) (columns : List String)
    {set set' : Option (List Projection)} (updated : Option.Rel (AssignmentsAgree S K) set set')
    (positions : List ConflictColumn) (row : Row) :
    Write.Agree Eq (upsertRow ⟨S.left, incoming⟩ label columns set positions row)
      (upsertRow ⟨S.right, incoming⟩ label columns set' positions row) := by
  refine .bind (.refl _) ?_
  rintro t _ rfl
  split
  next => exact .refl _
  next r i _ =>
    cases updated with
    | none => exact .refl _
    | some agree =>
      refine .bind (R := Eq) (.ofResult fun values values' here here' => ?_) ?_
      · exact project_same (.cons (visible_ofTable known t r) .nil) agree.values here here'
      · rintro values _ rfl
        rw [agree.names]
        exact .refl _

theorem upsertAll_agree {label : String} (known : K.lookup label = some .same) (columns : List String)
    {set set' : Option (List Projection)} (updated : Option.Rel (AssignmentsAgree S K) set set')
    (positions : List ConflictColumn) (rows : List Row) :
    Write.Agree Eq (upsertAll ⟨S.left, incoming⟩ label columns set positions rows)
      (upsertAll ⟨S.right, incoming⟩ label columns set' positions rows) := by
  induction rows with
  | nil => exact .refl _
  | cons r rest ih =>
    refine .bind (upsertRow_agree known columns updated positions r) ?_
    rintro written _ rfl
    refine .bind ih ?_
    rintro others _ rfl
    exact .refl _

/-! ## Merges -/

theorem partners_same {target rs rs' : RowSet} (visible : ∀ r, VisibleAlike K (target.visible r) (target.visible r))
    (source : RowSetsAlike K rs rs') {on on' : Scalar} (condition : ConditionsAgree S K (some on) (some on'))
    {row : Row} {position : Nat} {rows : List Row} {found found' : List (Nat × Row)}
    (run : partners ⟨S.left, incoming⟩ target rs on row position rows = .ok found)
    (run' : partners ⟨S.right, incoming⟩ target rs' on' row position rows = .ok found') : found = found' := by
  induction rows generalizing position found found' with
  | nil => exact Except.ok.inj (run.symm.trans run')
  | cons r rest ih =>
    obtain ⟨keep, here, run⟩ := bind_eq_ok.1 run
    obtain ⟨others, later, run⟩ := bind_eq_ok.1 run
    obtain rfl := pure_eq_ok.1 run
    obtain ⟨keep', here', run'⟩ := bind_eq_ok.1 run'
    obtain ⟨others', later', run'⟩ := bind_eq_ok.1 run'
    obtain rfl := pure_eq_ok.1 run'
    have same := condition incoming _ _ (.cons (visible row) (.cons (source.visible r) .nil))
    have keeps : passes ⟨S.left, incoming⟩ (some on) [target.visible row, rs.visible r] = keep :=
      passes_of_eq_ok here
    have keeps' : passes ⟨S.right, incoming⟩ (some on') [target.visible row, rs'.visible r] = keep' :=
      passes_of_eq_ok here'
    rw [keeps, keeps'] at same
    rw [same, ih later later']

def mergeUpdate (env : Environment) (target source : RowSet) (set : Option (List Projection)) (position : Nat)
    (row : Row) (found : List (Nat × Row)) : Except Error (List (Nat × Row)) :=
  match found, set with
  | [(_, r)], some set => do
    let values ← project env [target.visible row, source.visible r] set
    return [(position, values)]
  | _ :: _ :: _, some _ => .error (.ambiguousMatch position)
  | _, _ => .ok []

theorem mergeChanges_cons_eq_ok {env : Environment} {target source : RowSet} {on : Scalar}
    {set : Option (List Projection)} {deleteUnmatched : Bool} {position : Nat} {row : Row} {rest : List Row}
    {changes : MergeChanges}
    (h : mergeChanges env target source on set deleteUnmatched position (row :: rest) = .ok changes) :
    ∃ found update others, partners env target source on row 0 source.rows = .ok found ∧
      mergeUpdate env target source set position row found = .ok update ∧
      mergeChanges env target source on set deleteUnmatched (position + 1) rest = .ok others ∧
      changes = {
        updates := update ++ others.updates
        deletes := if found.isEmpty && deleteUnmatched then position :: others.deletes else others.deletes
        matched := found.map Prod.fst ++ others.matched } := by
  obtain ⟨found, here, h⟩ := bind_eq_ok.1 h
  dsimp only at h
  -- one partner and a clause, several partners and a clause, or nothing to update
  split at h
  next i r set =>
    obtain ⟨values, computed, h⟩ := bind_eq_ok.1 h
    obtain ⟨_, single, h⟩ := bind_eq_ok.1 h
    obtain rfl := pure_eq_ok.1 single
    obtain ⟨others, later, h⟩ := bind_eq_ok.1 h
    obtain rfl := pure_eq_ok.1 h
    exact ⟨_, _, others, here, bind_eq_ok.2 ⟨values, computed, rfl⟩, later, rfl⟩
  next =>
    obtain ⟨_, failed, -⟩ := bind_eq_ok.1 h
    cases failed
  next notOne notMany =>
    obtain ⟨_, empty, h⟩ := bind_eq_ok.1 h
    obtain rfl := pure_eq_ok.1 empty
    obtain ⟨others, later, h⟩ := bind_eq_ok.1 h
    obtain rfl := pure_eq_ok.1 h
    refine ⟨found, [], others, here, ?_, later, rfl⟩
    unfold mergeUpdate
    split
    next => exact (notOne _ _ _ rfl rfl).elim
    next => exact (notMany _ _ _ _ rfl rfl).elim
    next => rfl

theorem mergeUpdate_same {target rs rs' : RowSet}
    (visible : ∀ r, VisibleAlike K (target.visible r) (target.visible r)) (source : RowSetsAlike K rs rs')
    {set set' : Option (List Projection)} (matched : Option.Rel (AssignmentsAgree S K) set set') {position : Nat}
    {row : Row} {found update update' : List (Nat × Row)}
    (run : mergeUpdate ⟨S.left, incoming⟩ target rs set position row found = .ok update)
    (run' : mergeUpdate ⟨S.right, incoming⟩ target rs' set' position row found = .ok update') : update = update' := by
  cases matched with
  | none => rcases found with _ | ⟨_, _ | _⟩ <;> exact Except.ok.inj (run.symm.trans run')
  | some agree =>
    rcases found with _ | ⟨⟨i, r⟩, _ | _⟩
    · exact Except.ok.inj (run.symm.trans run')
    · obtain ⟨values, computed, run⟩ := bind_eq_ok.1 run
      obtain rfl := pure_eq_ok.1 run
      obtain ⟨values', computed', run'⟩ := bind_eq_ok.1 run'
      obtain rfl := pure_eq_ok.1 run'
      rw [project_same (.cons (visible row) (.cons (source.visible r) .nil)) agree.values computed computed']
    · cases run

theorem mergeChanges_same {target rs rs' : RowSet}
    (visible : ∀ r, VisibleAlike K (target.visible r) (target.visible r)) (source : RowSetsAlike K rs rs')
    {on on' : Scalar} (condition : ConditionsAgree S K (some on) (some on')) {set set' : Option (List Projection)}
    (matched : Option.Rel (AssignmentsAgree S K) set set') {deleteUnmatched : Bool} {position : Nat} {rows : List Row}
    {changes changes' : MergeChanges}
    (run : mergeChanges ⟨S.left, incoming⟩ target rs on set deleteUnmatched position rows = .ok changes)
    (run' : mergeChanges ⟨S.right, incoming⟩ target rs' on' set' deleteUnmatched position rows = .ok changes') :
    changes = changes' := by
  induction rows generalizing position changes changes' with
  | nil => exact Except.ok.inj (run.symm.trans run')
  | cons row rest ih =>
    obtain ⟨found, update, others, here, updates, later, rfl⟩ := mergeChanges_cons_eq_ok run
    obtain ⟨found', update', others', here', updates', later', rfl⟩ := mergeChanges_cons_eq_ok run'
    rw [source.rows] at here
    obtain rfl := partners_same visible source condition here here'
    obtain rfl := mergeUpdate_same visible source matched updates updates'
    rw [ih later later']

theorem mergeInserts_same {rs rs' : RowSet} (source : RowSetsAlike K rs rs') {matched : List Nat}
    {ps ps' : List Projection} (agree : ProjectionsAgree S K ps ps') {position : Nat} {rows : List Row}
    {inserts inserts' : List Row}
    (run : mergeInserts ⟨S.left, incoming⟩ rs matched ps position rows = .ok inserts)
    (run' : mergeInserts ⟨S.right, incoming⟩ rs' matched ps' position rows = .ok inserts') : inserts = inserts' := by
  induction rows generalizing position inserts inserts' with
  | nil => exact Except.ok.inj (run.symm.trans run')
  | cons r rest ih =>
    unfold mergeInserts at run run'
    split at run
    next met =>
      rw [if_pos met] at run'
      exact ih run run'
    next unmet =>
      rw [if_neg unmet] at run'
      obtain ⟨row, here, run⟩ := bind_eq_ok.1 run
      obtain ⟨others, later, run⟩ := bind_eq_ok.1 run
      obtain rfl := pure_eq_ok.1 run
      obtain ⟨row', here', run'⟩ := bind_eq_ok.1 run'
      obtain ⟨others', later', run'⟩ := bind_eq_ok.1 run'
      obtain rfl := pure_eq_ok.1 run'
      rw [project_same (.cons (source.visible r) .nil) agree here here', ih later later']

theorem AssignmentsAgree.optionNames {ps ps' : Option (List Projection)}
    (h : Option.Rel (AssignmentsAgree S K) ps ps') : assignedColumns (ps.getD []) = assignedColumns (ps'.getD []) := by
  cases h with
  | none => rfl
  | some agree => exact agree.names

theorem merge_agree {target : StoredTable} (known : K.lookup target.label = some .same) {s s' : Source}
    (source : SourcesAgree S K s s') {on on' : Scalar} (condition : ConditionsAgree S K (some on) (some on'))
    {set set' : Option (List Projection)} (matched : Option.Rel (AssignmentsAgree S K) set set')
    {ps ps' : Option (List Projection)} (inserted : Option.Rel (AssignmentsAgree S K) ps ps') (deleteUnmatched : Bool) :
    Write.Agree Eq (merge db ⟨S.left, incoming⟩ target s on set ps deleteUnmatched)
      (merge db ⟨S.right, incoming⟩ target s' on' set' ps' deleteUnmatched) := by
  refine .bind (.refl _) ?_
  rintro t _ rfl
  refine .bind (.ofResult (R := RowSetsAlike K) fun rs rs' here here' => source.rows here here') ?_
  intro rs rs' rows
  refine .bind (R := Eq) (.ofResult fun changes changes' here here' => ?_) ?_
  · exact mergeChanges_same (visible_ofTable known t) rows condition matched here here'
  rintro changes _ rfl
  refine .bind (R := Eq) (.ofResult fun inserts inserts' here here' => ?_) ?_
  · cases inserted with
    | none => exact Except.ok.inj (here.symm.trans here')
    | some agree =>
      rw [rows.rows] at here
      exact mergeInserts_same rows agree.values here here'
  rintro inserts _ rfl
  rw [AssignmentsAgree.optionNames matched, AssignmentsAgree.optionNames inserted]
  exact .refl _

/-! ## Statements -/

/-- Statements that agree make the same changes. -/
theorem StatementsAgree.write {s s' : Statement} (h : StatementsAgree S K s s') :
    Write.Agree Eq (Execution.write db ⟨S.left, incoming⟩ s) (Execution.write db ⟨S.right, incoming⟩ s') := by
  cases h with
  | delete known predicate joins =>
    refine .bind (.ofResult fun found found' here here' => satisfyingRows_alike known joins predicate here here') ?_
    intro found found' alike
    -- the rows to delete are known by their positions alone
    have positions : found.map Prod.fst = found'.map Prod.fst := by
      induction alike with
      | nil => rfl
      | cons first _ ih => rw [List.map_cons, List.map_cons, first.1, ih]
    rw [positions, ← List.length_map, positions, List.length_map]
    exact .refl _
  | update known changes predicate joins =>
    refine .bind (.ofResult fun found found' here here' => satisfyingRows_alike known joins predicate here here') ?_
    intro found found' alike
    refine .bind (.ofResult fun values values' here here' => changesOf_same alike changes.values here here') ?_
    rintro values _ rfl
    rw [changes.names]
    exact .refl _
  | @insertInto table schema s s' select names nonempty =>
    refine .bind (R := Eq) (.ofResult fun o o' here here' => ?_) ?_
    · have nonempty' : s'.projection ≠ [] := fun empty => by
        rw [empty] at names
        exact nonempty (List.map_eq_nil_iff.1 names)
      have columns : o.columns = o'.columns :=
        (selectRows_columns nonempty here).trans (names.trans (selectRows_columns nonempty' here').symm)
      have rows : o.rows = o'.rows := (select.rows here here').rows
      cases o
      cases o'
      obtain rfl := columns
      obtain rfl := rows
      rfl
    · rintro o _ rfl
      exact .refl _
  | upsert known source inserted updated constraint columns =>
    refine .bind (.ofResult fun rows rows' here here' => incomingRows_same source inserted.values here here') ?_
    rintro rows _ rfl
    refine .bind (.refl _) ?_
    rintro t _ rfl
    rw [inserted.names]
    refine .bind (.refl _) ?_
    rintro positions _ rfl
    exact upsertAll_agree known _ updated positions rows
  | merge known source condition matched inserted deleteUnmatched =>
    exact merge_agree known source condition matched inserted deleteUnmatched
  | truncate table => exact .refl _
  | noop => exact .refl _

theorem runWrite_eq_ok {s : Statement} {ps : Parameters} {n : Nat} {after : Database}
    (h : runWrite db s ps = (.ok n, after)) :
    targetTable? s = none ∧ n = 0 ∧ after = db ∨
      ∃ name before t, targetTable? s = some name ∧ db.get name = .ok before ∧
        (writeChecked db ps s).run before = (.ok n, t) ∧ after = db.put t := by
  unfold runWrite at h
  split at h
  next target =>
    obtain ⟨count, rfl⟩ := Prod.mk.inj h
    exact .inl ⟨target, (Except.ok.inj count).symm, rfl⟩
  next name target =>
    split at h
    next => cases (Prod.mk.inj h).1
    next before stored =>
      rcases written : (writeChecked db ps s).run before with ⟨_ | n', t⟩
      · rw [written] at h
        cases (Prod.mk.inj h).1
      · rw [written] at h
        obtain ⟨count, rfl⟩ := Prod.mk.inj h
        obtain rfl := Except.ok.inj count
        exact .inr ⟨name, before, t, target, stored, written, rfl⟩

/-- Statements that agree report the same number of rows and leave the same database. -/
theorem StatementsAgree.run {s s' : Statement} (h : StatementsAgree S K s s') {n n' : Nat} {after after' : Database}
    (run : runWrite db s S.left = (.ok n, after)) (run' : runWrite db s' S.right = (.ok n', after')) :
    n = n' ∧ after = after' := by
  have target : targetTable? s = targetTable? s' := by cases h <;> rfl
  have checked : Write.Agree Eq (writeChecked db S.left s) (writeChecked db S.right s') := by
    refine .bind h.write ?_
    rintro n _ rfl
    exact .refl _
  rcases runWrite_eq_ok run with ⟨none, rfl, rfl⟩ | ⟨name, before, t, some, stored, written, rfl⟩
  · rcases runWrite_eq_ok run' with ⟨-, rfl, rfl⟩ | ⟨name, before, t, some, -⟩
    · exact ⟨rfl, rfl⟩
    · rw [target, some] at none
      cases none
  · rcases runWrite_eq_ok run' with ⟨none, -⟩ | ⟨name', before', t', some', stored', written', rfl⟩
    · rw [target, none] at some
      cases some
    · rw [target, some'] at some
      obtain rfl := Option.some.inj some
      obtain rfl := Except.ok.inj (stored.symm.trans stored')
      obtain ⟨rfl, rfl⟩ := checked written written'
      exact ⟨rfl, rfl⟩

end

end Setwise.Execution
