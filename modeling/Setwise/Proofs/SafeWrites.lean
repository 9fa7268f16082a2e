import Setwise.Proofs.SafeRows

/-!
Well-scoped statements write to what is there.

The columns that a statement assigns are columns of its table, and the rows that it changes are among the rows that
it has read. So running a well-scoped block fails with no error about a table, column, parameter or row that is not
there (`run_safe`).
-/

set_option autoImplicit false

namespace Setwise

/-! ## Operations on tables -/

namespace Table

/-- The table has columns of the given names, and every row has one value for each. -/
def Shaped (columns : List String) (t : Table) : Prop :=
  t.columnNames = columns ∧ ∀ r ∈ t.rows, r.length = columns.length

theorem length_of_validate {t : Table} {row stored : Row} (h : t.validate row = .ok stored) :
    stored.length = t.columnNames.length := by
  rw [← (holds_of_validate h).length_eq, columnNames, List.length_map]

theorem shaped_kept (columns : List String) : KeptByWrites (Shaped columns) where
  insert := by
    rintro t u values h ⟨named, wide⟩
    obtain ⟨row, h⟩ := insert_eq_ok h
    obtain ⟨stored, next, valid, rfl⟩ := append_eq_ok h
    refine ⟨named, fun r member => ?_⟩
    rcases List.mem_append.1 member with old | new
    · exact wide r old
    · rw [List.mem_singleton.1 new, length_of_validate valid, named]
  assign := by
    rintro t u index values h ⟨named, wide⟩
    obtain ⟨_, row, stored, -, -, valid, rfl⟩ := assign_eq_ok h
    refine ⟨named, fun r member => ?_⟩
    rcases List.mem_or_eq_of_mem_set member with old | rfl
    · exact wide r old
    · rw [length_of_validate valid, named]
  remove := fun _ h => ⟨h.1, fun r member => h.2 r (mem_of_mem_remove member)⟩
  clear := fun h => ⟨h.1, fun _ member => nomatch member⟩

theorem columnIndex_of_mem {t : Table} {name : String} (h : name ∈ t.columnNames) :
    ∃ i, t.columnIndex name = .ok i := by
  obtain ⟨c, member, rfl⟩ := List.mem_map.1 h
  unfold columnIndex
  cases found : t.columns.findIdx? fun d => d.name == c.name with
  | none =>
    have missing := List.findIdx?_eq_none_iff.1 found c member
    simp at missing
  | some i => exact ⟨i, rfl⟩

theorem setNamed_of_subset {t : Table} {values : List (String × Value)}
    (h : ∀ p ∈ values, p.1 ∈ t.columnNames) (row : Row) : ∃ changed, t.setNamed row values = .ok changed := by
  induction values generalizing row with
  | nil => exact ⟨row, rfl⟩
  | cons p rest ih =>
    obtain ⟨first, others⟩ := List.forall_mem_cons.1 h
    obtain ⟨i, found⟩ := columnIndex_of_mem first
    obtain ⟨changed, later⟩ := ih others (row.set i p.2)
    exact ⟨changed, bind_eq_ok.2 ⟨i, found, later⟩⟩

end Table

namespace Execution

open Relational

theorem validate_safe (t : Table) (row : Row) : Safe ((t.validate row).mapError .row) fun _ => True := by
  unfold Table.validate
  cases acceptRow t.columns row with
  | error e => exact rfl
  | ok stored => trivial

theorem identityAfter_safe (t : Table) (row : Row) :
    Safe ((t.identityAfter row).mapError .row) fun _ => True := by
  unfold Table.identityAfter
  split
  next =>
    split
    next => trivial
    next => exact rfl
  next => trivial

theorem append_safe (t : Table) (row : Row) : Safe ((t.append row).mapError .row) fun _ => True := by
  have valid := validate_safe t row
  unfold Table.append
  cases validated : t.validate row with
  | error e =>
    rw [validated] at valid
    exact valid
  | ok stored =>
    simp only [bind, Except.bind]
    split
    next => exact rfl
    next =>
      have next := identityAfter_safe t stored
      cases identity : t.identityAfter stored with
      | error e =>
        rw [identity] at next
        exact next
      | ok i => trivial

theorem checkUnique_safe (t : Table) : Safe (t.checkUnique.mapError .row) fun _ => True := by
  unfold Table.checkUnique
  split
  next => exact rfl
  next => trivial

variable {names columns : List String}

theorem insert_safe {t : Table} (shaped : t.Shaped columns) (named : names ⊆ columns) (row : Row) :
    Safe ((t.insert (names.zip row)).mapError .row) (Table.Shaped columns) := by
  have known : ∀ p ∈ names.zip row, p.1 ∈ t.columnNames := fun p member =>
    shaped.1 ▸ named (List.of_mem_zip member).1
  have safe : Safe ((t.insert (names.zip row)).mapError .row) fun _ => True := by
    obtain ⟨changed, assigned⟩ := Table.setNamed_of_subset known t.blankRow
    unfold Table.insert
    rw [assigned]
    exact append_safe t changed
  exact safe.and_ok fun u inserted => (Table.shaped_kept columns).insert (mapError_eq_ok.1 inserted) shaped

theorem assign_safe {t : Table} (shaped : t.Shaped columns) (named : names ⊆ columns) (row : Row) {i : Nat}
    (inside : i < t.rows.length) :
    Safe ((t.assign i (names.zip row)).mapError .row) fun u =>
      u.Shaped columns ∧ u.rows.length = t.rows.length := by
  have known : ∀ p ∈ names.zip row, p.1 ∈ t.columnNames := fun p member =>
    shaped.1 ▸ named (List.of_mem_zip member).1
  have safe : Safe ((t.assign i (names.zip row)).mapError .row) fun _ => True := by
    obtain ⟨changed, assigned⟩ := Table.setNamed_of_subset known t.rows[i]
    have valid := validate_safe t changed
    unfold Table.assign
    rw [List.getElem?_eq_getElem inside]
    dsimp only
    rw [assigned]
    simp only [bind, Except.bind]
    cases validated : t.validate changed with
    | error e =>
      rw [validated] at valid
      exact valid
    | ok stored => trivial
  refine safe.and_ok fun u assigned => ?_
  have assigned := mapError_eq_ok.1 assigned
  obtain ⟨_, _, stored, -, -, -, rfl⟩ := Table.assign_eq_ok assigned
  exact ⟨(Table.shaped_kept columns).assign assigned shaped, List.length_set⟩

/-! ## Writes -/

/-- From a table with one property on, a step fails with no error out of scope, or its result and the table that it
leaves have another one. -/
def Write.SafeFrom {α : Type} (P : Table → Prop) (x : Write α) (Q : α → Table → Prop) : Prop :=
  ∀ t, P t →
    match x.run t with
    | (.ok a, u) => Q a u
    | (.error e, _) => e.isOutOfScope = false

namespace Write.SafeFrom

variable {α β : Type} {P : Table → Prop} {Q : α → Table → Prop} {R : β → Table → Prop}

theorem pure {a : α} (h : ∀ t, P t → Q a t) : SafeFrom P (Pure.pure a : Write α) Q :=
  h

theorem bind {x : Write α} {f : α → Write β} (first : SafeFrom P x Q)
    (rest : ∀ a, SafeFrom (Q a) (f a) R) : SafeFrom P (x >>= f) R := by
  intro t h
  have first := first t h
  rw [run_bind]
  revert first
  rcases x.run t with ⟨_ | a, u⟩
  · exact id
  · exact rest a u

theorem get_bind {f : Table → Write β} (rest : ∀ t, P t → SafeFrom (fun u => u = t) (f t) R) :
    SafeFrom P (MonadState.get >>= f) R :=
  fun t h => rest t h t rfl

theorem ofResult_bind {x : Except Error α} {f : α → Write β} {S : α → Prop} (safe : Safe x S)
    (rest : ∀ a, S a → SafeFrom P (f a) R) : SafeFrom P (Write.ofResult x >>= f) R := by
  cases x with
  | error e => exact fun _ _ => safe
  | ok a => exact rest a safe

theorem modified {f : Table → Table} {S : Table → Prop} (h : ∀ t, P t → S (f t)) :
    SafeFrom P (modify f : Write PUnit) fun _ => S :=
  h

theorem change {f : Table → Except Table.Error Table} {S : Table → Prop}
    (safe : ∀ t, P t → Safe ((f t).mapError .row) S) : SafeFrom P (Write.change f) fun _ => S := by
  intro t h
  have safe := safe t h
  rw [run_change]
  cases result : f t with
  | error e =>
    rw [result] at safe
    exact safe
  | ok u =>
    rw [result] at safe
    exact safe

theorem from_stronger {x : Write α} {P' : Table → Prop} (h : SafeFrom P x Q) (implies : ∀ t, P' t → P t) :
    SafeFrom P' x Q :=
  fun t stronger => h t (implies t stronger)

theorem to_weaker {x : Write α} {Q' : α → Table → Prop} (h : SafeFrom P x Q) (implies : ∀ a t, Q a t → Q' a t) :
    SafeFrom P x Q' := by
  intro t start
  have outcome := h t start
  revert outcome
  rcases x.run t with ⟨_ | a, u⟩
  · exact id
  · exact implies a u

end Write.SafeFrom

theorem columns_of_assigns {V : Outlook} {set : List Projection} (h : Assigns V columns set) :
    assignedColumns set ⊆ columns := by
  intro c member
  obtain ⟨p, here, rfl⟩ := List.mem_map.1 member
  exact (h p here).1

theorem columns_of_clause {V : Outlook} {clause : Option (List Projection)}
    (h : ∀ set ∈ clause, Assigns V columns set) : assignedColumns (clause.getD []) ⊆ columns := by
  cases clause with
  | none => exact List.nil_subset _
  | some set => exact columns_of_assigns (h set rfl)

theorem insertAll_safe (named : names ⊆ columns) (rows : List Row) :
    Write.SafeFrom (Table.Shaped columns) (Write.insertAll names rows) fun _ => Table.Shaped columns := by
  induction rows with
  | nil => exact .pure fun _ h => h
  | cons r rest ih => exact .bind (.change fun t shaped => insert_safe shaped named r) fun _ => ih

theorem assignAll_safe (named : names ⊆ columns) {n : Nat} {changes : List (Nat × Row)}
    (inside : ∀ c ∈ changes, c.1 < n) :
    Write.SafeFrom (fun t => t.Shaped columns ∧ t.rows.length = n) (Write.assignAll names changes) fun _ =>
      Table.Shaped columns := by
  induction changes with
  | nil => exact .pure fun _ h => h.1
  | cons c rest ih =>
    obtain ⟨i, r⟩ := c
    obtain ⟨first, others⟩ := List.forall_mem_cons.1 inside
    refine .bind (.change (S := fun t => t.Shaped columns ∧ t.rows.length = n) fun t h => ?_) fun _ => ih others
    exact (assign_safe h.1 named r (h.2 ▸ first)).mono fun u kept => ⟨kept.1, kept.2.trans h.2⟩

/-! ## Deletes and updates -/

section

variable {db : Database} {ps : Parameters} {I : Interface} (provides : Provides db ps I)
include provides

theorem firstFrame?_safe {Γ : Context} {condition : Option Scalar}
    (visible : ∀ e ∈ condition, e.Visible (I.view Γ [])) {frames : List Frame}
    (fits : ∀ f ∈ frames, FrameFits Γ f) :
    Safe (firstFrame? { parameters := ps } condition frames) fun found => ∀ f ∈ found, FrameFits Γ f := by
  induction frames with
  | nil => exact fun f found => nomatch found
  | cons f rest ih =>
    obtain ⟨first, others⟩ := List.forall_mem_cons.1 fits
    refine .bind (holdsOption_safe (provides.serves Γ) first visible) fun keep _ => ?_
    split
    next => exact .pure fun g found => Option.some.inj found ▸ first
    next => exact ih others

theorem satisfyingFrom_safe {rs : RowSet} {entry : String × List String} (rows : RowsFit rs entry)
    {joins : List (Join Select)} (joined : Join.WellScoped I [entry] joins) {predicate : Option Scalar}
    (filter : ∀ e ∈ predicate, e.Visible (I.view (entry :: Join.entries I joins) [])) (position : Nat)
    {some : List Row} (among : some ⊆ rs.rows) :
    Safe (satisfyingFrom db { parameters := ps } rs joins predicate position some) fun found =>
      ∀ p ∈ found, p.1 < position + some.length ∧ FrameFits (entry :: Join.entries I joins) p.2 := by
  induction some generalizing position with
  | nil => exact fun p member => nomatch member
  | cons r rest ih =>
    obtain ⟨here, others⟩ := List.cons_subset.1 among
    have single : ∀ f ∈ [[rs.visible r]], FrameFits [entry] f :=
      List.forall_mem_singleton.2 (.single (rows.visible here))
    refine .bind (joinAll_safe joined provides single) fun ⟨frames, names⟩ fits => ?_
    refine .bind (firstFrame?_safe provides filter fits) fun found fit => ?_
    refine .bind (ih (position + 1) others) fun more later => .pure ?_
    have later : ∀ p ∈ more, p.1 < position + (rest.length + 1) ∧ FrameFits (entry :: Join.entries I joins) p.2 :=
      fun p member => ⟨by have := (later p member).1; omega, (later p member).2⟩
    cases found with
    | none => exact later
    | some f => exact List.forall_mem_cons.2 ⟨⟨by simp, fit f rfl⟩, later⟩

theorem satisfyingRows_safe {table : StoredTable} {t : Table} (found : db.find? table.name = some t)
    (shaped : t.Shaped columns) {joins : List (Join Select)}
    (joined : Join.WellScoped I [(table.label, columns)] joins) {predicate : Option Scalar}
    (filter : ∀ e ∈ predicate, e.Visible (I.view ((table.label, columns) :: Join.entries I joins) [])) :
    Safe (satisfyingRows db { parameters := ps } table joins predicate) fun rows =>
      ∀ p ∈ rows, p.1 < t.rows.length ∧ FrameFits ((table.label, columns) :: Join.entries I joins) p.2 := by
  have rows : RowsFit (.ofTable t table.label) (table.label, columns) := ⟨rfl, fun _ => shaped⟩
  have safe := satisfyingFrom_safe provides rows joined filter 0 (List.Subset.refl t.rows)
  rw [Nat.zero_add] at safe
  unfold satisfyingRows
  rw [Database.get_eq_ok.2 found]
  exact safe

theorem changesOf_safe {Γ : Context} {set : List Projection}
    (visible : ∀ p ∈ set, p.value.Visible (I.view Γ [])) {n : Nat} {found : List (Nat × Frame)}
    (fits : ∀ p ∈ found, p.1 < n ∧ FrameFits Γ p.2) :
    Safe (changesOf { parameters := ps } set found) fun changes => ∀ c ∈ changes, c.1 < n := by
  induction found with
  | nil => exact fun c member => nomatch member
  | cons p rest ih =>
    obtain ⟨i, f⟩ := p
    obtain ⟨first, others⟩ := List.forall_mem_cons.1 fits
    refine .bind (project_safe (provides.serves Γ) first.2 visible) fun values _ => .bind (ih others) fun more later => ?_
    exact .pure (List.forall_mem_cons.2 ⟨first.1, later⟩)

end

/-! ## Upserts -/

section

variable {db : Database} {ps : Parameters} {I : Interface} (provides : Provides db ps I)
include provides

theorem incomingRows_safe {source : Option Select} (rows : ∀ s ∈ source, Select.WellScoped I s)
    {inserted : List Projection}
    (visible : ∀ p ∈ inserted, p.value.Visible (I.view (source.elim [] (Select.context I)) [])) :
    Safe (incomingRows db { parameters := ps } source inserted) fun incoming =>
      ∀ r ∈ incoming, r.length = inserted.length := by
  cases source with
  | none =>
    refine .bind (project_safe (provides.serves []) .nil visible) fun row wide => .pure ?_
    exact List.forall_mem_singleton.2 wide
  | some s =>
    refine .bind (selectFrames_safe (rows s rfl) provides) fun frames fits => ?_
    exact projectAll_safe (provides.serves _) fits visible

omit provides in
theorem conflictPositions_safe {t : Table} {cs : List String} (known : cs ⊆ t.columnNames) (inserted : List String) :
    Safe (conflictPositions t inserted cs) fun _ => True := by
  induction cs with
  | nil => trivial
  | cons c rest ih =>
    obtain ⟨here, others⟩ := List.cons_subset.1 known
    obtain ⟨i, found⟩ := Table.columnIndex_of_mem here
    refine .bind (P := fun _ => True) ?_ fun _ _ => .bind (ih others) fun _ _ => .pure trivial
    rw [found]
    trivial

theorem upsertRow_safe {label : String} (named : names ⊆ columns) {updated : Option (List Projection)}
    (updates : ∀ set ∈ updated, Assigns (I.view [(label, columns)] names) columns set)
    (positions : List ConflictColumn) {incoming : Row} (wide : incoming.length = names.length) :
    Write.SafeFrom (Table.Shaped columns)
      (upsertRow { parameters := ps } label names updated positions incoming) fun _ => Table.Shaped columns := by
  refine .get_bind fun t shaped => ?_
  split
  next =>
    refine .bind (.change (S := Table.Shaped columns) fun u same => ?_) fun _ => .pure fun _ h => h
    exact same ▸ insert_safe shaped named incoming
  next r i found =>
    cases updated with
    | none => exact .pure fun u same => same ▸ shaped
    | some set =>
      obtain ⟨inside, here⟩ := List.mem_zipIdx' (List.mem_of_find?_eq_some found)
      have assigns := updates set rfl
      -- the update clause reads the incoming row as well
      have serves : Environment.Serves { parameters := ps, incoming := some (names, incoming) }
          (I.view [(label, columns)] names) := ⟨provides.scalars, fun _ => ⟨incoming, rfl, wide⟩⟩
      have fit : FrameFits [(label, columns)] [(RowSet.ofTable t label).visible r] :=
        .single ⟨rfl, fun _ => ⟨shaped.1, shaped.2 r (here ▸ List.getElem_mem inside)⟩⟩
      have values := project_safe serves fit fun p member => (assigns p member).2
      refine .ofResult_bind values fun row _ => .bind (.change (S := Table.Shaped columns) fun u same => ?_) fun _ =>
        .pure fun _ h => h
      subst same
      exact (assign_safe shaped (columns_of_assigns assigns) row inside).mono fun _ kept => kept.1

theorem upsertAll_safe {label : String} (named : names ⊆ columns) {updated : Option (List Projection)}
    (updates : ∀ set ∈ updated, Assigns (I.view [(label, columns)] names) columns set)
    (positions : List ConflictColumn) {incoming : List Row} (wide : ∀ r ∈ incoming, r.length = names.length) :
    Write.SafeFrom (Table.Shaped columns)
      (upsertAll { parameters := ps } label names updated positions incoming) fun _ => Table.Shaped columns := by
  induction incoming with
  | nil => exact .pure fun _ h => h
  | cons r rest ih =>
    obtain ⟨first, others⟩ := List.forall_mem_cons.1 wide
    exact .bind (upsertRow_safe provides named updates positions first) fun _ =>
      .bind (ih others) fun _ => .pure fun _ h => h

/-! ## Merges -/

variable {target source : RowSet} {here there : String × List String}

theorem partners_safe {on : Scalar} (condition : on.Visible (I.view [here, there] [])) {row : Row}
    (fit : Fits (target.visible row) here) (rows : RowsFit source there) (position : Nat) {some : List Row}
    (among : some ⊆ source.rows) :
    Safe (partners { parameters := ps } target source on row position some) fun found =>
      ∀ p ∈ found, p.2 ∈ source.rows := by
  induction some generalizing position with
  | nil => exact fun p member => nomatch member
  | cons r rest ih =>
    obtain ⟨first, others⟩ := List.cons_subset.1 among
    have frame : FrameFits [here, there] [target.visible row, source.visible r] :=
      .cons fit (FrameFits.single (rows.visible first))
    have held : Safe (holds { parameters := ps } [target.visible row, source.visible r] on) fun _ => True :=
      .bind (eval_safe (provides.serves _) frame condition) fun _ _ => .pure trivial
    refine .bind held fun found _ => .bind (ih (position + 1) others) fun more later => .pure ?_
    split
    next => exact List.forall_mem_cons.2 ⟨first, later⟩
    next => exact later

theorem mergeChanges_safe {on : Scalar} (condition : on.Visible (I.view [here, there] []))
    (targetRows : RowsFit target here) (rows : RowsFit source there) {set : Option (List Projection)}
    (visible : ∀ ps ∈ set, ∀ p ∈ ps, p.value.Visible (I.view [here, there] [])) (deleteUnmatched : Bool)
    (position : Nat) {some : List Row} (among : some ⊆ target.rows) :
    Safe (mergeChanges { parameters := ps } target source on set deleteUnmatched position some) fun changes =>
      ∀ c ∈ changes.updates, c.1 < position + some.length := by
  induction some generalizing position with
  | nil => exact fun c member => nomatch member
  | cons row rest ih =>
    obtain ⟨first, others⟩ := List.cons_subset.1 among
    have fit := targetRows.visible first
    refine .bind (partners_safe provides condition fit rows 0 (List.Subset.refl _)) fun found inside => ?_
    -- whatever this row contributes, it speaks about its own position only
    have rest_safe (update : List (Nat × Row)) (own : ∀ c ∈ update, c.1 = position) : Safe (do
        let others ← mergeChanges { parameters := ps } target source on set deleteUnmatched (position + 1) rest
        return {
          updates := update ++ others.updates
          deletes := if found.isEmpty && deleteUnmatched then position :: others.deletes else others.deletes
          matched := found.map Prod.fst ++ others.matched }) fun changes : MergeChanges =>
        ∀ c ∈ changes.updates, c.1 < position + (row :: rest).length := by
      refine .bind (ih (position + 1) others) fun more later => .pure fun c member => ?_
      rw [List.length_cons]
      rcases List.mem_append.1 member with here | there
      · have : c.1 = position := own c here
        omega
      · have : c.1 < position + 1 + rest.length := later c there
        omega
    dsimp only
    split
    next r set' =>
      have frame : FrameFits [here, there] [target.visible row, source.visible r] :=
        .cons fit (FrameFits.single (rows.visible (inside _ (List.mem_singleton_self _))))
      refine .bind (project_safe (provides.serves _) frame (visible set' rfl)) fun values _ => ?_
      exact rest_safe _ (List.forall_mem_singleton.2 rfl)
    -- an ambiguous row fails the statement, which is no fault of the plan
    next => exact .bind (P := fun _ => False) (x := .error _) rfl fun _ impossible => impossible.elim
    next => exact rest_safe [] fun _ h => nomatch h

theorem mergeInserts_safe {inserted : List Projection}
    (visible : ∀ p ∈ inserted, p.value.Visible (I.view [there] [])) (rows : RowsFit source there)
    (matched : List Nat) (position : Nat) {some : List Row} (among : some ⊆ source.rows) :
    Safe (mergeInserts { parameters := ps } source matched inserted position some) fun _ => True := by
  induction some generalizing position with
  | nil => trivial
  | cons r rest ih =>
    obtain ⟨first, others⟩ := List.cons_subset.1 among
    unfold mergeInserts
    split
    next => exact ih (position + 1) others
    next =>
      refine .bind (project_safe (provides.serves _) (.single (rows.visible first)) visible) fun row _ => ?_
      exact .bind (ih (position + 1) others) fun _ _ => .pure trivial

theorem merge_safe {target : StoredTable} {source : Source} {on : Scalar}
    {matched inserted : Option (List Projection)} (sourced : Source.WellScoped I source)
    (condition : on.Visible (I.view [(target.label, columns), Source.entry I source] []))
    (updates : ∀ set ∈ matched, Assigns (I.view [(target.label, columns), Source.entry I source] []) columns set)
    (inserts : ∀ set ∈ inserted, Assigns (I.view [Source.entry I source] []) columns set)
    (deleteUnmatched : Bool) :
    Write.SafeFrom (Table.Shaped columns) (merge db { parameters := ps } target source on matched inserted
      deleteUnmatched) fun _ => Table.Shaped columns := by
  refine .get_bind fun t shaped => ?_
  have targetRows : RowsFit (.ofTable t target.label) (target.label, columns) := ⟨rfl, fun _ => shaped⟩
  refine .ofResult_bind (sourceRows_safe sourced provides) fun rs rows => ?_
  -- everything is computed from the table as it was found
  have changing := mergeChanges_safe provides condition targetRows rows
    (fun set found p member => (updates set found p member).2) deleteUnmatched 0 (List.Subset.refl _)
  refine .ofResult_bind changing fun changes inside => ?_
  refine .ofResult_bind (S := fun _ => True) ?_ fun added _ => ?_
  · cases inserted with
    | none => trivial
    | some set =>
      exact mergeInserts_safe provides (fun p member => (inserts set rfl p member).2) rows _ 0 (List.Subset.refl _)
  have inside : ∀ c ∈ changes.updates, c.1 < t.rows.length := fun c member => by
    simpa [RowSet.ofTable] using inside c member
  have assigning := assignAll_safe (columns_of_clause updates) inside
  refine .bind (assigning.from_stronger fun u (same : u = t) => by rw [same]; exact ⟨shaped, rfl⟩) fun _ => ?_
  refine .bind (.modified fun u kept => (Table.shaped_kept columns).remove changes.deletes kept) fun _ => ?_
  exact .bind (insertAll_safe (columns_of_clause inserts) added) fun _ => .pure fun _ kept => kept

/-! ## Statements and blocks -/

theorem write_safe {s : Statement} (h : Statement.WellScoped I s) {name : String}
    (target : targetTable? s = some name) {t : Table} (found : db.find? name = some t) :
    Write.SafeFrom (fun u => u = t) (write db { parameters := ps } s) fun _ _ => True := by
  -- the table that is written has the columns that the scope knows
  have table {name' : String} {columns : List String} (stored : I.tables name' = some columns)
      (same : some name' = some name) : t.Shaped columns := by
    obtain ⟨u, found', shaped⟩ := provides.tables name' columns stored
    obtain rfl := Option.some.inj same
    obtain rfl := Option.some.inj (found'.symm.trans found)
    exact shaped
  cases h with
  | delete stored joined filter =>
    have shaped := table stored target
    obtain rfl := Option.some.inj target
    refine .ofResult_bind (satisfyingRows_safe provides found shaped joined filter) fun rows _ => ?_
    exact .bind (.modified (S := fun _ => True) fun _ _ => trivial) fun _ => .pure fun _ _ => trivial
  | update stored joined filter assigns =>
    have shaped := table stored target
    obtain rfl := Option.some.inj target
    refine .ofResult_bind (satisfyingRows_safe provides found shaped joined filter) fun rows fits => ?_
    refine .ofResult_bind (changesOf_safe provides (fun p member => (assigns p member).2) fits) fun changes inside => ?_
    have assigning := assignAll_safe (columns_of_assigns assigns) inside
    refine .bind (assigning.from_stronger fun u (same : u = t) => ?_) fun _ => .pure fun _ _ => trivial
    rw [same]
    exact ⟨shaped, rfl⟩
  | @insertInto _ schema select columns stored rows named names =>
    have shaped := table stored target
    refine .ofResult_bind (selectRows_safe rows provides) fun o fit => ?_
    have known : o.columns ⊆ columns := (fit.columns (by simpa using named)).1 ▸ List.forall_mem_map.2 names
    exact .bind ((insertAll_safe known _).from_stronger fun u same => same ▸ shaped) fun _ => .pure fun _ _ => trivial
  | @upsert _ _ inserted _ constraint _ _ stored rows inserts updates conflict =>
    have shaped := table stored target
    refine .ofResult_bind (incomingRows_safe provides rows fun p member => (inserts p member).2) fun incoming wide => ?_
    -- nothing has been written yet, so the conflicts are looked for in the table that was found
    refine .get_bind fun u same => ?_
    subst same
    refine .ofResult_bind (conflictPositions_safe (shaped.1.symm ▸ conflict) _) fun positions _ => ?_
    have wide : ∀ r ∈ incoming, r.length = (assignedColumns inserted).length := fun r member => by
      rw [wide r member, assignedColumns, List.length_map]
    have writing := upsertAll_safe provides (columns_of_assigns inserts) updates positions wide
    exact (writing.from_stronger fun v (same : v = u) => same ▸ shaped).to_weaker fun _ _ _ => trivial
  | merge deleteUnmatched stored rows condition updates inserts =>
    have shaped := table stored target
    have merging := merge_safe provides rows condition updates inserts deleteUnmatched
    exact (merging.from_stronger fun u (same : u = t) => same ▸ shaped).to_weaker fun _ _ _ => trivial
  | truncate stored => exact .get_bind fun _ _ => fun _ _ => trivial
  | noop => cases target

theorem exists_target {s : Statement} (h : Statement.WellScoped I s) {name : String}
    (target : targetTable? s = some name) : ∃ t, db.find? name = some t := by
  have table {name' : String} {columns : List String} (stored : I.tables name' = some columns)
      (same : some name' = some name) : ∃ t, db.find? name = some t := by
    obtain ⟨t, found, -⟩ := provides.tables name' columns stored
    exact ⟨t, Option.some.inj same ▸ found⟩
  cases h with
  | delete stored _ _ => exact table stored target
  | update stored _ _ _ => exact table stored target
  | insertInto _ stored _ _ _ => exact table stored target
  | upsert _ stored _ _ _ _ => exact table stored target
  | merge _ stored _ _ _ _ => exact table stored target
  | truncate stored => exact table stored target
  | noop => cases target

theorem runWrite_safe {s : Statement} (h : Statement.WellScoped I s) : Safe (runWrite db s ps).1 fun _ => True := by
  unfold runWrite
  cases target : targetTable? s with
  | none => trivial
  | some name =>
    obtain ⟨t, found⟩ := exists_target provides h target
    dsimp only
    rw [Database.get_eq_ok.2 found]
    dsimp only
    have checked : Write.SafeFrom (fun u => u = t) (writeChecked db ps s) fun _ _ => True := by
      refine .bind (write_safe provides h target found) fun n => .get_bind fun u _ => ?_
      have unique := checkUnique_safe u
      cases result : u.checkUnique with
      | ok _ => exact .pure fun _ _ => trivial
      | error e =>
        rw [result] at unique
        exact fun _ _ => unique
    have outcome := checked t rfl
    revert outcome
    rcases (writeChecked db ps s).run t with ⟨_ | n, u⟩
    · exact id
    · exact id

/-- A well-scoped block that runs on what its interface promises fails with no error about a table, column,
parameter or row that is not there. -/
theorem run_safe {b : Block} (h : Block.WellScoped I b) : Safe (run db b ps).1 fun _ => True := by
  cases h with
  | @select s rows =>
    have safe := selectRows_safe rows provides
    change Safe ((selectRows db { parameters := ps } s).map Outcome.rows) fun _ => True
    cases result : selectRows db { parameters := ps } s with
    | error e =>
      rw [result] at safe
      exact safe
    | ok o => trivial
  | @affected s write =>
    have safe := runWrite_safe provides write
    change Safe ((runWrite db s ps).1.map Outcome.affected) fun _ => True
    cases result : (runWrite db s ps).1 with
    | error e =>
      rw [result] at safe
      exact safe
    | ok n => trivial

end

end Execution

end Setwise
