import Setwise.Proofs.Combining

/-!
Planned queries deliver the lists that the queries mean.

The theorem goes by induction over the query (`query_delivers`), one operator after the other.
-/

set_option autoImplicit false

namespace Setwise.Planning

open Client Relational Execution Sorting

variable {m : Model} {db : Database} {env : Environment} {t : ElementType} {xs : List Element}

/-! ## Tables and collections -/

theorem Delivers.table {name : String} {ref : StoredTable} {stored : Table}
    (found : db.find? ref.name = some stored) {operators : List String} :
    Delivers m db env (.entity name)
      ⟨{ source := .table ref }, .entity { entity := name, label := ref.label }, operators⟩
      (stored.rows.map (.ofRow m name stored.columnNames)) := by
  refine .single rfl trivial fun rs rows => ?_
  obtain ⟨other, found', rfl⟩ := sourceRows_table rows
  obtain rfl := Option.some.inj (found.symm.trans found')
  refine List.map_congr_left fun r _ => ?_
  let b : Visible := (RowSet.ofTable stored ref.label).visible r
  exact element_joined m env name (f := []) (b := b) List.not_mem_nil []

theorem immediateRows_constants {rows : List Row} :
    immediateRows env (rows.map fun r => r.map .constant) = .ok rows := by
  have constants (r : Row) : evalAll env [] (r.map .constant) = .ok r := by
    induction r with
    | nil => rfl
    | cons v vs ih =>
      unfold List.map evalAll
      rw [ih]
      rfl
  induction rows with
  | nil => rfl
  | cons r rest ih =>
    unfold List.map immediateRows
    rw [constants, ih]
    rfl

theorem columns_type (label : String) (fields : List String) :
    Shape.fieldTypes? (fields.map fun c => (c, .scalar (.column label c))) =
        some (fields.map fun c => (c, .scalar)) ∧
      Shape.FieldsNullFree (fields.map fun c => (c, .scalar (.column label c))) := by
  induction fields with
  | nil => exact ⟨rfl, trivial⟩
  | cons c rest ih =>
    refine ⟨?_, nofun, ih.2⟩
    simp only [List.map_cons, Shape.fieldTypes?, ih.1]
    rfl

theorem columns_element (label : String) (fields : List String) (row : Row) :
    (Shape.record (fields.map fun c => (c, .scalar (.column label c)))).element m env [⟨label, fields, row⟩] =
      .record (fields.map fun c => (c, .scalar (columnValue "" fields row c).toOption)) := by
  simp only [Shape.element, Shape.fieldElements_eq_map, List.map_map, Element.record.injEq]
  refine List.map_congr_left fun c _ => ?_
  have value := eval_column_single env ⟨label, fields, row⟩ c
  simp only [Function.comp_apply, Shape.element, value, columnValue_toOption label ""]

theorem Delivers.records {label : String} {fields : List String} {elements : List Record}
    {operators : List String} :
    Delivers m db env (.record (fields.map fun c => (c, .scalar)))
      ⟨{ source := .literal { label, columns := fields, rows := cells (.records fields elements) } },
        .record (fields.map fun c => (c, .scalar (.column label c))), operators⟩
      (elements.map fun r => .record (fields.map fun c =>
        (c, .scalar (columnValue "" fields (r.fields.map Prod.snd) c).toOption))) := by
  obtain ⟨types, free⟩ := columns_type label fields
  refine .single ?_ free fun rs rows => ?_
  · simp only [Shape.type?, types]
    rfl
  · have values : cells (.records fields elements) =
        .immediate ((elements.map fun r => r.fields.map Prod.snd).map fun r => r.map .constant) := by
      simp [cells, Function.comp_def]
    simp only [sourceRows, literalRows, values, immediateRows_constants] at rows
    obtain rfl := pure_eq_ok.1 rows
    rw [List.map_map]
    exact List.map_congr_left fun r _ => columns_element label fields (r.fields.map Prod.snd)

/-! ## Queries -/

theorem query_unordered {q : Query} {w w' : Workspace} {p : Planned} (unordered : q.ordered = false)
    (h : Step.Yields (query m q) w p w') : p.select.isPaged = false → p.select.orderBy = [] := by
  induction q generalizing w w' p with
  | set name =>
    obtain ⟨e, ref, -, -, -, rfl⟩ := set_yields h
    exact fun _ => rfl
  | rows collection =>
    obtain ⟨label, -, rfl⟩ := rows_yields h
    exact fun _ => rfl
  | filter input predicate ih =>
    obtain ⟨s, v, p, v', condition, select, first, wrapped, run, rfl⟩ := filter_yields h
    obtain ⟨-, rfl⟩ := against_yields.1 run
    have empty : p.select.orderBy = [] := by
      refine unordered_of_wrapIf (fun opened => ih unordered first ?_) wrapped
      -- a paged select is wrapped, and what reads a subquery has no ordering of its own
      exact (Bool.or_eq_false_iff.1 opened).1
    unfold addFilter
    split <;> exact fun _ => empty
  | map input selector ih =>
    obtain ⟨s, v, shape, select, first, run, rfl⟩ := map_yields h
    obtain ⟨-, rfl⟩ := against_yields.1 run
    have empty := ih unordered first
    exact empty
  | join outer inner outerKey innerKey result iho ihi =>
    obtain ⟨s, v, p, x, i, y, source, shape, z, l, select, z', r, z'', on, element, select', first, wrapped,
      -, -, run, -, -, run', rfl⟩ := join_yields h
    obtain ⟨-, rfl⟩ := against_yields.1 run
    obtain ⟨-, rfl⟩ := against_yields.1 run'
    have empty : p.select.orderBy = [] := by
      refine unordered_of_wrapIf (fun opened => iho unordered first ?_) wrapped
      exact (Bool.or_eq_false_iff.1 (Bool.or_eq_false_iff.1 opened).1).1
    exact fun _ => empty
  | orderBy input key descending ih => cases unordered
  | take input count ih =>
    obtain ⟨s, v, p, v', limit, select, -, -, -, rfl⟩ := take_yields h
    exact fun unpaged => nomatch unpaged
  | skip input count ih =>
    obtain ⟨s, v, p, v', offset, select, -, -, -, rfl⟩ := skip_yields h
    intro unpaged
    simp [Select.isPaged] at unpaged
  | groupBy input key ih =>
    obtain ⟨s, v, p, v', k, select, keys, -, -, -, -, rfl⟩ := groupBy_yields h
    exact fun _ => rfl
  | union left right ihl ihr =>
    obtain ⟨l, v, r, x, l', y, r', z, -, -, -, -, united⟩ := union_yields h
    obtain ⟨label, shape, columns, others, -, -, -, -, -, rfl⟩ := unite_yields united
    exact fun _ => rfl

theorem noParameters : ScopeTyped [] [] :=
  fun _ _ found => nomatch found

/-- A planned query delivers the list that the query means. -/
theorem query_delivers {q : Query} {w w' : Workspace} {p : Planned} (sound : w.Sound) (typed : q.Typed m t)
    (plain : q.plain = true) (separated : q.separated = true) (h : Step.Yields (query m q) w p w')
    (meaning : q.meaning m db env.parameters = some xs) : Delivers m db env t p xs := by
  -- an operator is added to the select of its operand where the clauses there are come before it, and else to a
  -- subquery of the operand (`wrapIf`); the operand stands for the same list either way
  induction q generalizing t xs w w' p with
  | set name =>
    obtain ⟨e, ref, known, -, table, rfl⟩ := set_yields h
    obtain ⟨-, name', -⟩ := newTable_yields table
    obtain rfl := name_of_entity? known
    simp only [Query.meaning, known, Option.bind_eq_bind, Option.bind_some, Option.bind_eq_some_iff,
      Option.pure_def, Option.some.injEq] at meaning
    obtain ⟨stored, found, rfl⟩ := meaning
    obtain rfl : t = .entity e.name := typed
    refine .table ?_
    rw [name']
    exact found
  | rows collection =>
    obtain ⟨label, -, rfl⟩ := rows_yields h
    cases collection with
    | records fields elements =>
      obtain rfl := Option.some.inj meaning
      obtain rfl : t = .record (fields.map fun c => (c, .scalar)) := typed
      exact .records
    | parameter name fields => cases meaning
  | filter input predicate ih =>
    obtain ⟨s, v, p, v', condition, select, first, wrapped, run, rfl⟩ := filter_yields h
    obtain ⟨inputTyped, predicateTyped⟩ := typed
    obtain ⟨u, predicateTyped⟩ := Option.isSome_iff_exists.1 predicateTyped
    obtain ⟨inputPlain, predicatePlain⟩ := Bool.and_eq_true_iff.1 plain
    obtain ⟨xs, before, kept⟩ := Option.bind_eq_some_iff.1 meaning
    have delivers := (ih sound inputTyped inputPlain separated first before).wrapIf (query_union first) wrapped
    obtain ⟨limit, offset⟩ := unpaged_of_wrapIf (fun opened => (Bool.or_eq_false_iff.1 opened).1) wrapped
    obtain ⟨rfl, applies⟩ := delivers.applies predicateTyped predicatePlain (against_scalar run)
    exact delivers.filter limit offset applies kept
  | map input selector ih =>
    obtain ⟨s, v, shape, select, first, run, rfl⟩ := map_yields h
    obtain ⟨u, inputTyped, selectorTyped⟩ := typed
    obtain ⟨inputPlain, selectorPlain⟩ := Bool.and_eq_true_iff.1 plain
    obtain ⟨xs, before, rest⟩ := Option.bind_eq_some_iff.1 meaning
    obtain rfl := Option.some.inj rest
    have delivers := ih sound inputTyped inputPlain separated first before
    obtain ⟨rfl, applies⟩ := delivers.applies selectorTyped selectorPlain run
    exact delivers.map applies
  | join outer inner outerKey innerKey result iho ihi =>
    obtain ⟨s, v, p, x, i, y, source, shape, z, l, select, z', r, z'', on, element, select', first, wrapped,
      second, sourced, run, alone, equality, run', rfl⟩ := join_yields h
    obtain ⟨a, b, outerTyped, innerTyped, outerKeyTyped, innerKeyTyped, resultTyped⟩ := typed
    obtain ⟨c, outerKeyTyped⟩ := Option.isSome_iff_exists.1 outerKeyTyped
    obtain ⟨d, innerKeyTyped⟩ := Option.isSome_iff_exists.1 innerKeyTyped
    simp only [Query.plain, Bool.and_eq_true] at plain
    obtain ⟨⟨⟨⟨outerPlain, innerPlain⟩, outerKeyPlain⟩, innerKeyPlain⟩, resultPlain⟩ := plain
    obtain ⟨outerSeparated, innerSeparated⟩ := Bool.and_eq_true_iff.1 separated
    obtain ⟨xs, before, rest⟩ := Option.bind_eq_some_iff.1 meaning
    obtain ⟨ys, before', rest⟩ := Option.bind_eq_some_iff.1 rest
    obtain ⟨pairs, kept, rest⟩ := Option.bind_eq_some_iff.1 rest
    obtain rfl := Option.some.inj rest
    have outerPlanned := (query_planned sound first).wrapIf wrapped
    have innerPlanned := (query_planned outerPlanned.inScope.sound second).asSource sourced
    obtain ⟨-, -, apart, -⟩ := outerPlanned.keyed innerPlanned run
    have left := (iho sound outerTyped outerPlain outerSeparated first before).wrapIf (query_union first) wrapped
    have right := (ihi outerPlanned.inScope.sound innerTyped innerPlain innerSeparated second before').asSource
      (query_union second) sourced
    obtain ⟨limit, offset⟩ := unpaged_of_wrapIf
      (fun opened => (Bool.or_eq_false_iff.1 (Bool.or_eq_false_iff.1 opened).1).1) wrapped
    obtain ⟨rfl, outerApplies⟩ := left.applies outerKeyTyped outerKeyPlain run
    have innerApplies := right.standalone innerKeyTyped innerKeyPlain alone
    obtain ⟨rfl, applies⟩ := left.appliesBoth right resultTyped resultPlain run'
    exact left.join outerPlanned limit offset right apart
      (fun l member => List.mem_singleton.1 (innerPlanned.shape l member)) outerApplies innerApplies equality
      applies kept
  | orderBy input key descending ih =>
    obtain ⟨s, v, p, v', k, select, keys, first, wrapped, run, found, rfl⟩ := orderBy_yields h
    obtain ⟨inputTyped, keyTyped⟩ := typed
    obtain ⟨u, keyTyped⟩ := Option.isSome_iff_exists.1 keyTyped
    obtain ⟨inputPlain, keyPlain⟩ := Bool.and_eq_true_iff.1 plain
    obtain ⟨unordered, inputSeparated⟩ := Bool.and_eq_true_iff.1 separated
    obtain ⟨xs, before, rest⟩ := Option.bind_eq_some_iff.1 meaning
    obtain ⟨keyed, rows, sorted⟩ := Option.bind_eq_some_iff.1 rest
    have delivers := (ih sound inputTyped inputPlain inputSeparated first before).wrapIf (query_union first) wrapped
    have unpaged (opened : isClosed s.select = false) : s.select.isPaged = false := (Bool.or_eq_false_iff.1 opened).1
    obtain ⟨limit, offset⟩ := unpaged_of_wrapIf unpaged wrapped
    -- no order below this one remains that the new one would have to refine
    have none := unordered_of_wrapIf
      (fun opened => query_unordered (by simpa using unordered) first (unpaged opened)) wrapped
    obtain ⟨rfl, applies⟩ := delivers.applies keyTyped keyPlain run
    exact delivers.orderBy limit offset none applies found rows sorted
  | take input count ih =>
    obtain ⟨s, v, p, v', c, select, first, wrapped, run, rfl⟩ := take_yields h
    obtain ⟨inputTyped, countTyped⟩ := typed
    obtain ⟨u, countTyped⟩ := Option.isSome_iff_exists.1 countTyped
    obtain ⟨inputPlain, countPlain⟩ := Bool.and_eq_true_iff.1 plain
    obtain ⟨xs, before, rest⟩ := Option.bind_eq_some_iff.1 meaning
    obtain ⟨n, number, rest⟩ := Option.bind_eq_some_iff.1 rest
    obtain rfl := Option.some.inj rest
    have delivers := (ih sound inputTyped inputPlain separated first before).wrapIf (query_union first) wrapped
    have limit : p.select.limit = none := of_wrapIf (P := fun s => s.limit = none) (fun _ => rfl)
      (fun opened => by simpa using (Bool.or_eq_false_iff.1 opened).1) wrapped
    obtain ⟨rfl, -, interprets, -⟩ := against_meaning noParameters countTyped countPlain (against_scalar run)
    exact delivers.take limit interprets number
  | skip input count ih =>
    obtain ⟨s, v, p, v', c, select, first, wrapped, run, rfl⟩ := skip_yields h
    obtain ⟨inputTyped, countTyped⟩ := typed
    obtain ⟨u, countTyped⟩ := Option.isSome_iff_exists.1 countTyped
    obtain ⟨inputPlain, countPlain⟩ := Bool.and_eq_true_iff.1 plain
    obtain ⟨xs, before, rest⟩ := Option.bind_eq_some_iff.1 meaning
    obtain ⟨n, number, rest⟩ := Option.bind_eq_some_iff.1 rest
    obtain rfl := Option.some.inj rest
    have delivers := (ih sound inputTyped inputPlain separated first before).wrapIf (query_union first) wrapped
    obtain ⟨limit, offset⟩ := unpaged_of_wrapIf (fun opened => (Bool.or_eq_false_iff.1 opened).1) wrapped
    obtain ⟨rfl, -, interprets, -⟩ := against_meaning noParameters countTyped countPlain (against_scalar run)
    exact delivers.skip limit offset interprets number
  | groupBy input key ih => cases meaning
  | union left right ihl ihr =>
    obtain ⟨l, v, r, x, l', y, r', z, first, second, wrapped, wrapped', united⟩ := union_yields h
    obtain ⟨leftTyped, rightTyped, width⟩ := typed
    obtain ⟨leftPlain, rightPlain⟩ := Bool.and_eq_true_iff.1 plain
    obtain ⟨leftSeparated, rightSeparated⟩ := Bool.and_eq_true_iff.1 separated
    obtain ⟨xs, before, rest⟩ := Option.bind_eq_some_iff.1 meaning
    obtain ⟨ys, before', rest⟩ := Option.bind_eq_some_iff.1 rest
    obtain ⟨keyed, rows, rest⟩ := Option.bind_eq_some_iff.1 rest
    obtain rfl := Option.some.inj rest
    have known := (query_planned sound first).inScope.sound
    have leftDelivers := (ihl sound leftTyped leftPlain leftSeparated first before).wrapIf (query_union first) wrapped
    have rightDelivers := (ihr known rightTyped rightPlain rightSeparated second before').wrapIf
      (query_union second) wrapped'
    obtain ⟨limit, offset⟩ := unpaged_of_wrapIf (fun opened => (Bool.or_eq_false_iff.1 opened).1) wrapped
    have unordered := unordered_of_wrapIf
      (fun opened => by simpa using (Bool.or_eq_false_iff.1 opened).2) wrapped
    exact leftDelivers.union rightDelivers unordered limit offset (wrapIf_union (query_union second) wrapped')
      width united rows

/-- The frames that a planned query delivers stand, one by one and in order, for the list that it means. -/
theorem queries_mean_lists (m : Model) (db : Database) (env : Environment) {q : Query} {t : ElementType}
    {p : Planned} {w : Workspace} {frames : List Frame} {xs : List Element} (typed : q.Typed m t)
    (plain : q.plain = true) (separated : q.separated = true) (planned : Step.Yields (query m q) {} p w)
    (delivered : deliveredFrames db env p.select = .ok frames)
    (meaning : q.meaning m db env.parameters = some xs) : frames.map (p.shape.element m env) = xs :=
  (query_delivers (fun _ member => absurd member List.not_mem_nil) typed plain separated planned meaning).delivered delivered

/-! ## Pairs of records -/

def pairs (rows : List (Int × Int)) : LocalRows :=
  .records ["A", "B"] (rows.map fun (a, b) => ⟨none, [("A", .int a), ("B", .int b)]⟩)

def numbered (member : String) : Expr :=
  .new none [] [.assign "Id" (.member (.param "x") member)]

/-- A pair as a record of two records with the given names. -/
def asRecords (first second : String) : Lambda where
  params := ["x"]
  body := .new none [] [.assign first (numbered "A"), .assign second (numbered "B")]

/-- The first three of two and two pairs, of which one is in both collections. -/
def firstPairs (second : Lambda) : Query :=
  .take (.union (.map (.rows (pairs [(1, 2), (3, 4)])) (asRecords "P" "Q")) (.map (.rows (pairs [(3, 4), (5, 6)])) second))
    (.constant (.int 3))

def pairsUnion : Select :=
  let side (label : String) (rows : LocalRows) : Select :=
    { source := .literal ⟨label, ["A", "B"], cells rows⟩
      projection := [⟨"Id", .column label "A"⟩, ⟨"Id0", .column label "B"⟩] }
  { side "v" (pairs [(1, 2), (3, 4)]) with union := some (side "v0" (pairs [(3, 4), (5, 6)])) }

def pairsPlan : Planned where
  select := { source := .subquery pairsUnion "t", limit := some (.constant (.int 3)) }
  shape := .record [("P", .record [("Id", .scalar (.column "t" "Id"))]),
    ("Q", .record [("Id", .scalar (.column "t" "Id0"))])]
  operators := ["Union", "Take"]

def pairFrame (a b : Int) : Frame :=
  [⟨"t", ["Id", "Id0"], [.int a, .int b]⟩]

def pairElement (first second : String) (a b : Int) : Element :=
  .record [(first, .record [("Id", .scalar (some (.int a)))]), (second, .record [("Id", .scalar (some (.int b)))])]

theorem pairsPlan_delivered : deliveredFrames {} { parameters := {} } pairsPlan.select =
    .ok [pairFrame 1 2, pairFrame 3 4, pairFrame 5 6] :=
  rfl

/-- Both collections as records with the same fields have three different pairs. -/
theorem firstPairs_delivered :
    (∃ w, Step.Yields (query {} (firstPairs (asRecords "P" "Q"))) {} pairsPlan w) ∧
      [pairFrame 1 2, pairFrame 3 4, pairFrame 5 6].map (pairsPlan.shape.element {} { parameters := {} }) =
        [pairElement "P" "Q" 1 2, pairElement "P" "Q" 3 4, pairElement "P" "Q" 5 6] :=
  have typed : (firstPairs (asRecords "P" "Q")).Typed {}
      (.record [("P", .record [("Id", .scalar)]), ("Q", .record [("Id", .scalar)])]) :=
    ⟨⟨⟨_, rfl, rfl⟩, ⟨_, rfl, rfl⟩, by decide⟩, rfl⟩
  have planned : Step.Yields (query {} (firstPairs (asRecords "P" "Q"))) {} pairsPlan
      { labels := ["v", "v0", "t"] } := rfl
  ⟨⟨_, planned⟩, queries_mean_lists {} {} { parameters := {} } typed rfl rfl planned pairsPlan_delivered rfl⟩

theorem reorderedPairs_misread :
    (∃ w, Step.Yields (query {} (firstPairs (asRecords "Q" "P"))) {} pairsPlan w) ∧
      (firstPairs (asRecords "Q" "P")).meaning {} {} {} =
        some [pairElement "P" "Q" 1 2, pairElement "P" "Q" 3 4, pairElement "Q" "P" 5 6] ∧
      (pairFrame 5 6 |> pairsPlan.shape.element {} { parameters := {} }) = pairElement "P" "Q" 5 6 :=
  ⟨⟨_, rfl⟩, rfl, rfl⟩

end Setwise.Planning
