import Mathlib.Data.List.Perm.Subperm
import Setwise.Execution.Writing
import Setwise.Proofs.Combining
import Setwise.Proofs.Integrity
import Setwise.Sql.Statement

/-!
The rows that an upsert takes from its source.

The select that both dialects send for the source delivers its rows sorted and paged, whereas the frames that
an upsert held in memory projects are those before either clause. Without these clauses, and without a union,
the two read the same rows in the same order (`incomingRows_plain`); with them the delivered rows are among
the rows that are upserted.
-/

set_option autoImplicit false

namespace Setwise.Execution

open Relational Planning

variable {db : Database} {env : Environment}

def rowOf (env : Environment) (ps : List Projection) (f : Frame) : Row :=
  (project env f ps).toOption.getD []

theorem projectAll_eq_map {ps : List Projection} {frames : List Frame} {rows : List Row}
    (h : projectAll env ps frames = .ok rows) : rows = frames.map (rowOf env ps) := by
  induction frames generalizing rows with
  | nil =>
    obtain rfl := Except.ok.inj h
    rfl
  | cons f rest ih =>
    obtain ⟨row, here, h⟩ := bind_eq_ok.1 h
    obtain ⟨others, later, h⟩ := bind_eq_ok.1 h
    obtain rfl := pure_eq_ok.1 h
    have made : rowOf env ps f = row := by
      unfold rowOf
      rw [here]
      rfl
    rw [List.map_cons, made, ih later]

theorem rows_of_outputOf {ps : List Projection} (nonempty : ps ≠ []) (columns : List String)
    (frames : List Frame) :
    (outputOf env ps columns frames).map Output.rows = projectAll env ps frames := by
  unfold outputOf
  rw [if_neg (by simpa using nonempty)]
  cases projectAll env ps frames <;> rfl

theorem sublist_of_page {α : Type} {limit offset : Option Scalar} {items found : List α}
    (h : page env limit offset items = .ok found) : found.Sublist items := by
  obtain ⟨skip, -, h⟩ := bind_eq_ok.1 h
  obtain ⟨take, -, h⟩ := bind_eq_ok.1 h
  obtain rfl := pure_eq_ok.1 h
  cases take with
  | none => exact List.drop_sublist _ _
  | some n => exact (List.take_sublist _ _).trans (List.drop_sublist _ _)

theorem filterFrames_true (frames : List Frame) :
    filterFrames env (some (.constant (.bool true))) frames = .ok frames := by
  induction frames with
  | nil => rfl
  | cons f rest ih =>
    unfold filterFrames
    rw [ih]
    rfl

theorem selectRows_conflictSource (s : Select) (inserted : List Projection) :
    selectRows db env (Sql.Writer.conflictSource s inserted) =
      selectRows db env { s with projection := inserted } := by
  obtain ⟨source, joins, predicate, groupBy, having, projection, union, orderBy, limit, offset⟩ := s
  cases predicate with
  | some p => rfl
  | none =>
    unfold selectRows Sql.Writer.conflictSource restrict
    simp only [Option.getD_none, filterFrames_true, filterFrames_none]

/-- Without a union, ordering and paging, the source of an upsert delivers what the upsert takes from it,
and fails where the upsert fails. -/
theorem incomingRows_plain {s : Select} {inserted : List Projection} (nonempty : inserted ≠ [])
    (union : s.union = none) (orderBy : s.orderBy = []) (limit : s.limit = none) (offset : s.offset = none) :
    incomingRows db env (some s) inserted =
      (selectRows db env { s with projection := inserted }).map Output.rows := by
  obtain ⟨source, joins, predicate, groupBy, having, projection, _, _, _, _⟩ := s
  dsimp only at union orderBy limit offset
  subst union orderBy limit offset
  unfold incomingRows selectFrames selectRows
  dsimp only
  cases sourceRows db env source with
  | error e => rfl
  | ok first =>
    cases joined : joinAll db env joins (first.rows.map fun r => [first.visible r]) with
    | error e => simp [bind, Except.bind, Except.map, joined]
    | ok found =>
      obtain ⟨frames, columns⟩ := found
      cases restricted : restrict env predicate groupBy having frames with
      | error e => simp [bind, Except.bind, Except.map, joined, restricted]
      | ok frames =>
        simpa [bind, Except.bind, joined, restricted, sortFrames, page, pageCount, pure, Except.pure]
          using (rows_of_outputOf nonempty _ frames).symm

theorem delivered_among_incoming {s : Select} {inserted : List Projection} (nonempty : inserted ≠ [])
    (union : s.union = none) {rows : List Row} {output : Output}
    (incoming : incomingRows db env (some s) inserted = .ok rows)
    (delivered : selectRows db env { s with projection := inserted } = .ok output) :
    output.rows.Subperm rows ∧ (s.limit = none → s.offset = none → output.rows.Perm rows) := by
  obtain ⟨kept, selected, projected⟩ := bind_eq_ok.1 incoming
  obtain ⟨frames, columns, found, made⟩ := selectRows_eq_ok (s := { s with projection := inserted }) union delivered
  obtain ⟨kept', selected', found⟩ := bind_eq_ok.1 found
  obtain ⟨sorted, ordered, paged⟩ := bind_eq_ok.1 found
  obtain rfl : kept' = kept := Except.ok.inj (selected'.symm.trans selected)
  obtain rfl := sortFrames_eq_ok ordered
  rw [projectAll_eq_map projected, projectAll_eq_map (outputOf_eq_ok nonempty made).1]
  have reordered : (arranged env s.orderBy kept').Perm kept' := List.mergeSort_perm _ _
  constructor
  · exact ((sublist_of_page paged).map _).subperm.trans (reordered.map _).subperm
  · intro limit offset
    dsimp only at paged
    rw [limit, offset] at paged
    obtain rfl := page_unpaged.1 paged
    exact reordered.map _

/-- An upsert takes the rows that its source delivers with the inserted values for its projection, and fails
where the source fails, if the source is neither ordered nor paged. Of an ordered source it takes the same
rows, and of a paged one it may take more. The select that SQLite gets delivers the same as this source. -/
theorem upserts_take_delivered_rows (db : Database) (env : Environment) (s : Select)
    (inserted : List Projection) (nonempty : inserted ≠ []) (union : s.union = none) :
    let incoming := incomingRows db env (some s) inserted
    let delivered := selectRows db env { s with projection := inserted }
    selectRows db env (Sql.Writer.conflictSource s inserted) = delivered ∧
      (s.orderBy = [] → s.limit = none → s.offset = none → incoming = delivered.map Output.rows) ∧
      ∀ rows output, incoming = .ok rows → delivered = .ok output →
        output.rows.Subperm rows ∧ (s.limit = none → s.offset = none → output.rows.Perm rows) :=
  ⟨selectRows_conflictSource s inserted, incomingRows_plain nonempty union,
    fun _ _ => delivered_among_incoming nonempty union⟩

def valuedItems : Select where
  source := .table ⟨"Items", none, "i"⟩
  joins := [⟨.leftOuter, .table ⟨"Items", none, "j"⟩,
    some (.binary (.column "j" "Id") .lessEqual (.column "i" "Id"))⟩]
  predicate := some (.isNotNull (.column "j" "Value"))

def renumbered : List Projection :=
  [⟨"Id", .binary (.column "i" "Id") .add (.constant (.int 5))⟩, ⟨"Value", .column "j" "Value"⟩]

/-- Both items are joined to the first one, and so two rows come in. -/
theorem valuedItems_taken :
    incomingRows twoItems { parameters := {} } (some valuedItems) renumbered =
        (selectRows twoItems { parameters := {} } { valuedItems with projection := renumbered }).map
          Output.rows ∧
      incomingRows twoItems { parameters := {} } (some valuedItems) renumbered =
        .ok [[.int 6, .int 10], [.int 7, .int 10]] :=
  ⟨(upserts_take_delivered_rows twoItems { parameters := {} } valuedItems renumbered (by decide) rfl).2.1
    rfl rfl rfl, by decide⟩

theorem firstItem_not_alone :
    let source : Select := { valuedItems with limit := some (.constant (.int 1)) }
    incomingRows twoItems { parameters := {} } (some source) renumbered =
        .ok [[.int 6, .int 10], [.int 7, .int 10]] ∧
      (selectRows twoItems { parameters := {} } { source with projection := renumbered }).map Output.rows =
        .ok [[.int 6, .int 10]] :=
  ⟨by decide, by decide⟩

end Setwise.Execution
