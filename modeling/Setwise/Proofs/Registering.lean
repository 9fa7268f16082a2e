import Setwise.Proofs.Contents
import Setwise.Proofs.ReadPlaceholders

/-!
Writing registers placeholders.

Writing a fragment registers exactly the placeholders of the fragment, each name once, and the placeholders can be read
from its text (`Writer.Registers`). Nothing is registered for text that is left out, because the cells of a literal
table that are written in SQLite are as many as its columns.
-/

set_option autoImplicit false

namespace Setwise

open Relational Sql

/-! ## Names of parameters -/

namespace Relational

/-- The parameters of an expression, from left to right, with repetitions. -/
def Scalar.parameters : Scalar → List String
  | .column .. | .constant _ | .excluded _ => []
  | .parameter name => [name]
  | .binary l _ r => l.parameters ++ r.parameters
  | .not e | .isNull e | .isNotNull e => e.parameters
  | .case test a b => test.parameters ++ a.parameters ++ b.parameters

/-- The parameters of an expression can be the names of placeholders. -/
def Scalar.NamesPlaceholders (e : Scalar) : Prop :=
  ∀ n ∈ e.parameters, isPlaceholderName n = true

theorem Scalar.NamesPlaceholders.both {before : Option Scalar} {e : Scalar} (first : ∀ c ∈ before, c.NamesPlaceholders)
    (second : e.NamesPlaceholders) : (Scalar.both before e).NamesPlaceholders := by
  cases before with
  | none => exact second
  | some c => exact List.forall_mem_append.2 ⟨first c rfl, second⟩

/-- The rows of the literal table are still to be bound, or are written out with a cell for each column. -/
inductive LiteralTable.Regular : LiteralTable → Prop
  | pending (label : String) (columns : List String) {parameter : String}
      (named : isPlaceholderName parameter = true) : Regular ⟨label, columns, .pending parameter⟩
  | immediate (label : String) {columns : List String} {rows : List (List Scalar)}
      (wide : ∀ r ∈ rows, r.length = columns.length) (named : ∀ r ∈ rows, ∀ e ∈ r, e.NamesPlaceholders) :
      Regular ⟨label, columns, .immediate rows⟩

/-- The rows of the literal table are those of a parameter, or are written out, with a cell for each column. -/
inductive LiteralTable.Filled (ps : Parameters) : LiteralTable → Prop
  | resolved (label : String) {columns : List String} {parameter : String} (count : Nat) {rows : List Row}
      (named : isPlaceholderName parameter = true) (held : ps.rows parameter = .ok rows)
      (wide : ∀ r ∈ rows, r.length = columns.length) : Filled ps ⟨label, columns, .resolved parameter count⟩
  | immediate (label : String) {columns : List String} {rows : List (List Scalar)}
      (wide : ∀ r ∈ rows, r.length = columns.length) (named : ∀ r ∈ rows, ∀ e ∈ r, e.NamesPlaceholders) :
      Filled ps ⟨label, columns, .immediate rows⟩

theorem LiteralTable.Regular.resolve {ps : Parameters} {v w : LiteralTable} (regular : v.Regular)
    (resolved : v.resolve ps = .ok w) : w.Filled ps := by
  cases regular with
  | pending label columns named =>
    obtain ⟨rows, held, resolved⟩ := bind_eq_ok.1 resolved
    split at resolved
    next => cases resolved
    next fits =>
      obtain rfl := pure_eq_ok.1 resolved
      exact .resolved label _ named held (misfit?_eq_none.1 fits)
  | immediate label wide named =>
    obtain rfl := Except.ok.inj resolved
    exact .immediate label wide named

end Relational

namespace Sql

section

variable {d : Dialect}

theorem placeholders_asValue (e : Scalar) (p : Phrase) : (d.asValue e p).placeholders = p.placeholders := by
  unfold Dialect.asValue
  split
  · rfl
  · split <;> simp [Phrase.placeholders]

theorem placeholders_asCondition (e : Scalar) (p : Phrase) : (d.asCondition e p).placeholders = p.placeholders := by
  unfold Dialect.asCondition
  split
  · rfl
  · split <;> simp [Phrase.placeholders]

theorem placeholders_asOperand (e : Scalar) (p : Phrase) : (d.asOperand e p).placeholders = p.placeholders := by
  rw [← placeholders_asValue (d := d) e p]
  unfold Dialect.asOperand
  dsimp only
  split
  · split <;> rfl
  all_goals rfl

theorem placeholders_asConnectiveOperand (op : Operator) (e : Scalar) (p : Phrase) :
    (d.asConnectiveOperand op e p).placeholders = p.placeholders := by
  rw [← placeholders_asCondition (d := d) e p]
  unfold Dialect.asConnectiveOperand
  dsimp only
  split
  · split <;> rfl
  · rfl

theorem placeholders_phrase (d : Dialect) (e : Scalar) : (d.phrase e).placeholders = e.parameters := by
  induction e with
  | column | constant | parameter | excluded => rfl
  | binary l op r ihl ihr =>
    unfold Dialect.phrase
    split
    · simp [Phrase.placeholders, placeholders_asValue, ihl, ihr, Scalar.parameters]
    · split
      · simp [Phrase.placeholders, placeholders_asConnectiveOperand, ihl, ihr, Scalar.parameters]
      · simp [Phrase.placeholders, placeholders_asOperand, ihl, ihr, Scalar.parameters]
  | not e ih => simp [Dialect.phrase, Phrase.placeholders, placeholders_asCondition, ih, Scalar.parameters]
  | isNull e ih | isNotNull e ih =>
    simp [Dialect.phrase, Phrase.placeholders, placeholders_asOperand, ih, Scalar.parameters]
  | case test a b iht iha ihb =>
    simp [Dialect.phrase, Phrase.placeholders, placeholders_asCondition, placeholders_asValue, iht, iha, ihb,
      Scalar.parameters]

end

namespace Writer

/-! ## Registering -/

section

variable {α β : Type} {Q : List String → α → Prop} {R : List String → β → Prop}

/-- The writer registers some names, none of them twice, and they are as said of its result. -/
def Registers (x : Writer α) (Q : List String → α → Prop) : Prop :=
  ∀ used a used', x used = .ok (a, used') →
    ((used.map Prod.fst).Nodup → (used'.map Prod.fst).Nodup) ∧
      ∃ new, (∀ n, n ∈ used'.map Prod.fst ↔ n ∈ used.map Prod.fst ∨ n ∈ new) ∧ Q new a

theorem registers_pure {a : α} (h : Q [] a) : Registers (pure a) Q := by
  rintro used b used' ⟨⟩
  exact ⟨id, [], by simp, h⟩

theorem registers_throw {e : Error} : Registers (throw e) Q := by
  rintro used b used' ⟨⟩

theorem registers_throw_bind {e : Error} {f : α → Writer β} : Registers (throw e >>= f) R := by
  rintro used b used' ⟨⟩

theorem registers_bind {x : Writer α} {f : α → Writer β} (first : Registers x Q)
    (second : ∀ a new, Q new a → Registers (f a) fun more b => R (new ++ more) b) : Registers (x >>= f) R := by
  intro used b used' run
  obtain ⟨⟨a, between⟩, here, there⟩ := bind_eq_ok.1 run
  obtain ⟨distinct, new, names, said⟩ := first used a between here
  obtain ⟨distinct', more, names', said'⟩ := second a new said between b used' there
  refine ⟨fun h => distinct' (distinct h), new ++ more, fun n => ?_, said'⟩
  rw [names' n, names n, List.mem_append, or_assoc]

theorem registers_register (name : String) (v : Value) : Registers (register name v) fun new _ => new = [name] := by
  rintro used ⟨⟩ used' run
  obtain rfl : (if used.any fun e => e.1 == name then used else used ++ [(name, v)]) = used' :=
    congrArg Prod.snd (Except.ok.inj run)
  have known : (used.any fun e => e.1 == name) = true ↔ name ∈ used.map Prod.fst := by simp
  split
  next found =>
    refine ⟨id, [name], fun n => ⟨.inl, ?_⟩, rfl⟩
    rintro (before | new)
    · exact before
    · exact List.mem_singleton.1 new ▸ known.1 found
  next missing =>
    refine ⟨fun distinct => ?_, [name], by simp, rfl⟩
    rw [List.map_append]
    refine List.nodup_append.2 ⟨distinct, List.nodup_singleton _, fun a before b new same => missing (known.2 ?_)⟩
    obtain rfl : b = name := List.mem_singleton.1 new
    exact same ▸ before

end

/-- The names are the placeholders of the fragment, and can be read from its text. -/
structure Carried (d : Dialect) (names : List String) (f : Fragment) : Prop where
  uses : ∀ final, f.Uses final ↔ names ⊆ final
  legible : f.Legible d

/-- The names are the placeholders of the fragments, and can be read from their texts. -/
structure AllCarried (d : Dialect) (names : List String) (fs : List Fragment) : Prop where
  uses : ∀ final, Fragment.AllUse final fs ↔ names ⊆ final
  legible : ∀ f ∈ fs, f.Legible d

section

variable {d : Dialect} {ps : Parameters} {names names' : List String} {f : Fragment} {fs : List Fragment}

theorem allCarried_nil : AllCarried d [] [] :=
  ⟨by simp, by simp⟩

theorem Carried.cons (first : Carried d names f) (rest : AllCarried d names' fs) :
    AllCarried d (names ++ names') (f :: fs) :=
  ⟨by simp [first.uses, rest.uses, List.append_subset], List.forall_mem_cons.2 ⟨first.legible, rest.legible⟩⟩

theorem carried_legible {f : Fragment} (legible : f.Legible d) (none : ∀ final, f.Uses final) : Carried d [] f :=
  ⟨by simp [none], legible⟩

theorem registers_registerBound (names : List String) :
    Registers (registerBound ps names) fun new _ => new = names := by
  induction names with
  | nil => exact registers_pure rfl
  | cons name rest ih =>
    unfold registerBound
    cases ps.scalar name with
    | error e => exact registers_throw_bind
    | ok v =>
      refine registers_bind (registers_register name v) ?_
      rintro _ _ rfl used a used' run
      obtain ⟨distinct, new, names, rfl⟩ := ih used a used' run
      exact ⟨distinct, _, names, rfl⟩

theorem registers_value {e : Scalar} (named : e.NamesPlaceholders) : Registers (value d ps e) (Carried d) := by
  have own : (d.value e).placeholders = e.parameters := by
    rw [Dialect.value, placeholders_asValue, placeholders_phrase]
  refine registers_bind (registers_registerBound _) ?_
  rintro _ _ rfl
  refine registers_pure ⟨fun final => ?_, Fragment.legible_value (own ▸ named)⟩
  simp [Piece.placeholders, List.subset_def]

theorem registers_condition {e : Scalar} (named : e.NamesPlaceholders) : Registers (condition d ps e) (Carried d) := by
  have own : (d.condition e).placeholders = e.parameters := by
    rw [Dialect.condition, placeholders_asCondition, placeholders_phrase]
  refine registers_bind (registers_registerBound _) ?_
  rintro _ _ rfl
  refine registers_pure ⟨fun final => ?_, Fragment.legible_condition (own ▸ named)⟩
  simp [Piece.placeholders, List.subset_def]

/-! ## Selects -/

theorem registers_valueList {es : List Scalar} (named : ∀ e ∈ es, e.NamesPlaceholders) :
    Registers (valueList d ps es) fun new fs => AllCarried d new fs ∧ fs.length = es.length := by
  induction es with
  | nil => exact registers_pure ⟨allCarried_nil, rfl⟩
  | cons e rest ih =>
    obtain ⟨first, others⟩ := List.forall_mem_cons.1 named
    refine registers_bind (registers_value first) fun f new carried => ?_
    refine registers_bind (ih others) fun fs more all => registers_pure ⟨?_, by simp [all.2]⟩
    simpa using carried.cons all.1

theorem registers_conditionLine {clause : String} (plain : plainWord clause = true) {condition : Option Scalar}
    (named : ∀ e ∈ condition, e.NamesPlaceholders) :
    Registers (conditionLine d ps clause condition) (AllCarried d) := by
  cases condition with
  | none => exact registers_pure allCarried_nil
  | some e =>
    refine registers_bind (registers_condition (named e rfl)) fun f new carried => registers_pure ⟨?_, ?_⟩
    · simp [carried.uses]
    · exact List.forall_mem_singleton.2 (carried.legible.behind plain)

/-- The names are the placeholders of the words of a paging clause, which can be read from their texts. -/
structure PagingCarried (d : Dialect) (names : List String) (words : Fragment × List Fragment) : Prop where
  uses : ∀ final, words.1.Uses final ∧ Fragment.AllUse final words.2 ↔ names ⊆ final
  top : words.1.Finished d
  tail : ∀ f ∈ words.2, f.Legible d

theorem registers_paging {limit offset : Option Scalar} (named : ∀ e ∈ limit, e.NamesPlaceholders)
    (named' : ∀ e ∈ offset, e.NamesPlaceholders) (ordered : Bool) :
    Registers (paging d ps limit offset ordered) (PagingCarried d) := by
  unfold paging
  split
  next => exact registers_pure ⟨by simp, Fragment.finished_nil, by simp⟩
  next l =>
    refine registers_bind (registers_value (named l rfl)) fun f new limit => ?_
    refine registers_pure ⟨by simp [limit.uses], Fragment.finished_nil, ?_⟩
    exact List.forall_mem_singleton.2 (limit.legible.behind rfl)
  next o =>
    refine registers_bind (registers_value (named' o rfl)) fun f new offset => ?_
    refine registers_pure ⟨by simp [offset.uses], Fragment.finished_nil, ?_⟩
    exact List.forall_mem_singleton.2 (offset.legible.behind rfl)
  next l o =>
    refine registers_bind (registers_value (named l rfl)) fun f new limit => ?_
    refine registers_bind (registers_value (named' o rfl)) fun g more offset => ?_
    refine registers_pure ⟨by simp [limit.uses, offset.uses], Fragment.finished_nil, ?_⟩
    exact List.forall_mem_singleton.2 (((limit.legible.behind rfl).separated rfl).append_legible offset.legible)
  next l =>
    refine registers_bind (registers_value (named l rfl)) fun f new limit => ?_
    exact registers_pure ⟨by simp [limit.uses], (limit.legible.behind rfl).separated rfl, by simp⟩
  next limit o =>
    refine registers_bind (registers_value (named' o rfl)) fun f new offset => ?_
    -- without an ordering of the query, the dialect requires one that says nothing
    have order : ∀ g ∈ (if ordered then [] else [Fragment.word "ORDER BY (SELECT 1)"]), g.Legible .sqlServer := by
      split
      · simp
      · exact List.forall_mem_singleton.2 (Fragment.finished_word rfl).legible
    have rows := ((offset.legible.behind (w := "OFFSET ") rfl).separated (w := " ROWS") rfl).legible
    split
    next =>
      refine registers_pure ⟨fun final => ?_, Fragment.finished_nil, ?_⟩
      · split <;> simp [offset.uses]
      · exact List.forall_mem_append.2 ⟨order, List.forall_mem_singleton.2 rows⟩
    next l =>
      refine registers_bind (registers_value (named l rfl)) fun g more limit => ?_
      refine registers_pure ⟨fun final => ?_, Fragment.finished_nil, ?_⟩
      · split <;> simp [offset.uses, limit.uses]
      · have fetched := ((limit.legible.behind (w := "FETCH NEXT ") rfl).separated (w := " ROWS ONLY") rfl).legible
        exact List.forall_mem_append.2 ⟨order, List.forall_mem_cons.2 ⟨rows, List.forall_mem_singleton.2 fetched⟩⟩

theorem registers_outputColumn {p : Projection} (named : p.value.NamesPlaceholders) :
    Registers (outputColumn d ps p) (Carried d) := by
  refine registers_bind (registers_value named) fun f new carried => ?_
  have labelled : Carried d (new ++ []) (f.labelled p.name) :=
    ⟨by simp [carried.uses], carried.legible.labelled p.name⟩
  split
  next =>
    refine registers_pure ?_
    split
    · simpa using carried
    · exact labelled
  next => exact registers_pure labelled

theorem registers_outputColumns {columns : List Projection} (named : ∀ p ∈ columns, p.value.NamesPlaceholders) :
    Registers (outputColumns d ps columns) (AllCarried d) := by
  induction columns with
  | nil => exact registers_pure allCarried_nil
  | cons p rest ih =>
    obtain ⟨first, others⟩ := List.forall_mem_cons.1 named
    refine registers_bind (registers_outputColumn first) fun f new carried => ?_
    exact registers_bind (ih others) fun fs more all => registers_pure (by simpa using carried.cons all)

theorem registers_projection {columns : List Projection} (named : ∀ p ∈ columns, p.value.NamesPlaceholders) :
    Registers (projection d ps columns) (Carried d) := by
  unfold projection
  split
  next => exact registers_pure (carried_legible (Fragment.finished_word rfl).legible (by simp))
  next =>
    refine registers_bind (registers_outputColumns named) fun fs new all => registers_pure ⟨?_, ?_⟩
    · simp [all.uses]
    · exact Fragment.legible_list all.legible

theorem registers_orderItems {items : List OrderItem} (named : ∀ item ∈ items, item.key.NamesPlaceholders) :
    Registers (orderItems d ps items) (AllCarried d) := by
  induction items with
  | nil => exact registers_pure allCarried_nil
  | cons item rest ih =>
    obtain ⟨first, others⟩ := List.forall_mem_cons.1 named
    refine registers_bind (registers_value first) fun f new carried => ?_
    refine registers_bind (ih others) fun fs more all => registers_pure ?_
    have directed : Carried d new (if item.descending then f ++ .word " DESC" else f) := by
      split
      · exact ⟨by simp [carried.uses], (carried.legible.separated rfl).legible⟩
      · exact carried
    simpa using directed.cons all

/-! ## Literal tables -/

theorem isPlaceholderName_cellName {parameter : String} (named : isPlaceholderName parameter = true) (i j : Nat) :
    isPlaceholderName (LiteralTable.cellName parameter i j) = true := by
  have digits (n : Nat) : (toString n).toList.all isNameChar = true := by
    rw [Nat.toString_eq_repr, Nat.toList_repr]
    exact List.all_eq_true.2 fun c member => by
      simp [isNameChar, Char.isAlphanum, Decimal.allDigits_toDigits n c member]
  unfold isPlaceholderName at named ⊢
  unfold LiteralTable.cellName
  simp only [String.toList_append, List.all_append, named, digits]
  rfl

theorem registers_cell {name : String} (named : isPlaceholderName name = true) (v : Value) :
    Registers (cell name v) (Carried d) := by
  refine registers_bind (registers_register name v) ?_
  rintro _ _ rfl
  refine registers_pure ⟨?_, Fragment.legible_value (List.forall_mem_singleton.2 named)⟩
  simp [Piece.placeholders, Phrase.placeholders]

theorem registers_boundCells {parameter : String} (named : isPlaceholderName parameter = true) (i j : Nat) (row : Row) :
    Registers (boundCells parameter i j row) fun new fs => AllCarried d new fs ∧ fs.length = row.length := by
  induction row generalizing j with
  | nil => exact registers_pure ⟨allCarried_nil, rfl⟩
  | cons v rest ih =>
    refine registers_bind (registers_cell (d := d) (isPlaceholderName_cellName named i j) v) fun f new carried => ?_
    refine registers_bind (ih (j + 1)) fun fs more all => registers_pure ⟨?_, by simp [all.2]⟩
    simpa using carried.cons all.1

/-- The names are the placeholders of the cells of some rows of the given width, and can be read from their texts. -/
structure RowsCarried (d : Dialect) (width : Nat) (names : List String) (rows : List (List Fragment)) : Prop where
  uses : ∀ final, (∀ fs ∈ rows, Fragment.AllUse final fs) ↔ names ⊆ final
  legible : ∀ fs ∈ rows, ∀ f ∈ fs, f.Legible d
  wide : ∀ fs ∈ rows, fs.length = width

theorem rowsCarried_nil (width : Nat) : RowsCarried d width [] [] :=
  ⟨by simp, by simp, by simp⟩

theorem RowsCarried.cons {width : Nat} {rows : List (List Fragment)} (first : AllCarried d names fs)
    (wide : fs.length = width) (rest : RowsCarried d width names' rows) :
    RowsCarried d width (names ++ names') (fs :: rows) :=
  ⟨by simp [first.uses, rest.uses, List.append_subset], List.forall_mem_cons.2 ⟨first.legible, rest.legible⟩,
    List.forall_mem_cons.2 ⟨wide, rest.wide⟩⟩

theorem registers_boundRows {parameter : String} (named : isPlaceholderName parameter = true) {width : Nat} (i : Nat)
    {rows : List Row} (wide : ∀ r ∈ rows, r.length = width) :
    Registers (boundRows parameter i rows) (RowsCarried d width) := by
  induction rows generalizing i with
  | nil => exact registers_pure (rowsCarried_nil width)
  | cons row rest ih =>
    obtain ⟨first, others⟩ := List.forall_mem_cons.1 wide
    refine registers_bind (registers_boundCells (d := d) named i 0 row) fun fs new cells => ?_
    refine registers_bind (ih (i + 1) others) fun rows more all => registers_pure ?_
    simpa using all.cons cells.1 (cells.2.trans first)

theorem registers_immediateRows {width : Nat} {rows : List (List Scalar)} (wide : ∀ r ∈ rows, r.length = width)
    (named : ∀ r ∈ rows, ∀ e ∈ r, e.NamesPlaceholders) :
    Registers (immediateRows d ps rows) (RowsCarried d width) := by
  induction rows with
  | nil => exact registers_pure (rowsCarried_nil width)
  | cons row rest ih =>
    obtain ⟨first, others⟩ := List.forall_mem_cons.1 wide
    obtain ⟨named, named'⟩ := List.forall_mem_cons.1 named
    refine registers_bind (registers_valueList named) fun fs new cells => ?_
    refine registers_bind (ih others named') fun rows more all => registers_pure ?_
    simpa using all.cons cells.1 (cells.2.trans first)

theorem registers_literalCells {v : LiteralTable} (filled : v.Filled ps) :
    Registers (literalCells d ps v) (RowsCarried d v.columns.length) := by
  cases filled with
  | resolved label count named held wide =>
    unfold literalCells
    dsimp only
    rw [held]
    exact registers_boundRows named 0 fun r member => wide r (List.mem_of_mem_take member)
  | immediate label wide named => exact registers_immediateRows wide named

theorem legible_emptyLiteral (v : LiteralTable) : (emptyLiteral d v).Legible d := by
  have null (c : String) : ((Fragment.word "NULL").labelled c).Legible d :=
    (Fragment.finished_word rfl).legible.labelled c
  have nulls : (Fragment.list (v.columns.map fun c => (Fragment.word "NULL").labelled c)).Legible d :=
    Fragment.legible_list (List.forall_mem_map.2 fun c _ => null c)
  unfold emptyLiteral
  refine Fragment.Legible.labelled (Fragment.Finished.legible (Fragment.Legible.paren ?_)) v.label
  cases d <;> exact ((nulls.behind (w := "SELECT ") rfl).separated rfl).legible

theorem allUse_zip {first : List Fragment} {columns : List String} (wide : first.length = columns.length)
    (final : List String) :
    Fragment.AllUse final ((first.zip columns).map fun p => p.1.labelled p.2) ↔ Fragment.AllUse final first := by
  have fragments : (first.zip columns).map Prod.fst = first := List.map_fst_zip wide.le
  conv_rhs => rw [← fragments]
  simp

theorem carried_filledLiteral {v : LiteralTable} {first : List Fragment} {rest : List (List Fragment)}
    (rows : RowsCarried d v.columns.length names (first :: rest)) :
    Carried d names (filledLiteral d v first rest) := by
  obtain ⟨legible, legible'⟩ := List.forall_mem_cons.1 rows.legible
  have wide : first.length = v.columns.length := rows.wide first List.mem_cons_self
  have uses (final : List String) := (List.forall_mem_cons (a := first) (l := rest)).symm.trans (rows.uses final)
  cases d with
  -- the columns are named in the first row on one dialect, and behind all rows on the other
  | sqlite =>
    refine ⟨fun final => ?_, ?_⟩
    · rw [← uses final, ← allUse_zip wide final]
      simp [filledLiteral]
    · have named : ∀ f ∈ (first.zip v.columns).map (fun p => p.1.labelled p.2), f.Legible .sqlite :=
        List.forall_mem_map.2 fun p member => (legible p.1 (List.of_mem_zip member).1).labelled p.2
      have selects : ∀ f ∈ (((first.zip v.columns).map fun p => p.1.labelled p.2) :: rest).map
          (fun cells => Fragment.word "SELECT " ++ .list cells), f.Legible .sqlite := by
        refine List.forall_mem_map.2 (List.forall_mem_cons.2 ⟨?_, fun fs member => ?_⟩)
        · exact (Fragment.legible_list named).behind rfl
        · exact (Fragment.legible_list (legible' fs member)).behind rfl
      exact (Fragment.legible_separated rfl selects).paren.legible.labelled v.label
  | sqlServer =>
    refine ⟨fun final => ?_, ?_⟩
    · rw [← uses final]
      simp [filledLiteral]
    · have cells : ∀ f ∈ (first :: rest).map fun cells => Fragment.paren (.list cells), f.Legible .sqlServer :=
        List.forall_mem_map.2 fun fs member => (Fragment.legible_list (rows.legible fs member)).paren.legible
      have columns : ∀ f ∈ v.columns.map Fragment.identifier, f.Legible .sqlServer :=
        List.forall_mem_map.2 fun c _ => Fragment.legible_identifier _ c
      have values := (((Fragment.legible_list cells).behind (w := "VALUES ") rfl).paren.legible.labelled v.label)
      exact (values.separated rfl).append (Fragment.legible_list columns).paren |>.legible

theorem registers_literalTable {v : LiteralTable} (filled : v.Filled ps) :
    Registers (literalTable d ps v) (Carried d) := by
  refine registers_bind (registers_literalCells filled) fun cells new rows => ?_
  split
  next =>
    refine registers_pure ⟨fun final => ?_, legible_emptyLiteral v⟩
    have none : new ⊆ final := (rows.uses final).1 (by simp)
    simp [uses_emptyLiteral, none]
  next first rest => exact registers_pure (by simpa using carried_filledLiteral rows)

/-! ## Sources and joins -/

theorem legible_joined (kind : JoinKind) (legible : f.Legible d) {on : Option Fragment}
    (legible' : ∀ g ∈ on, g.Legible d) : (joined kind f on).Legible d := by
  unfold joined
  split
  next on =>
    have condition := legible' on rfl
    split
    · exact ((legible.behind rfl).separated rfl).append_legible condition
    · exact ((legible.behind rfl).separated rfl).append_legible condition
    · exact legible.behind rfl
  next =>
    split
    · exact ((legible.behind rfl).separated rfl).legible
    · exact legible.behind rfl
    · exact legible.behind rfl

/-- The names are the placeholders of the condition of a join, which is not there in a cross join. -/
structure OnCarried (d : Dialect) (kind : JoinKind) (names : List String) (on : Option Fragment) : Prop where
  uses : ∀ final (f : Fragment), (joined kind f on).Uses final ↔ f.Uses final ∧ names ⊆ final
  legible : ∀ g ∈ on, g.Legible d

theorem registers_joinCondition (kind : JoinKind) {on : Option Scalar} (named : ∀ e ∈ on, e.NamesPlaceholders) :
    Registers (joinCondition d ps kind on) (OnCarried d kind) := by
  unfold joinCondition
  split
  next => exact registers_pure ⟨by simp [joined], by simp⟩
  next => exact registers_pure ⟨by cases kind <;> simp [joined], by simp⟩
  next e inside =>
    refine registers_bind (registers_condition (named e rfl)) fun f new carried => registers_pure ⟨?_, ?_⟩
    · cases kind with
      | cross => exact (inside rfl).elim
      | inner | leftOuter => simp [joined, carried.uses]
    · simpa using carried.legible

theorem carried_select {paged listed source joining filtering grouping having uniting ordering : List String}
    {words : Fragment × List Fragment} {columns from' : Fragment}
    {joined filter group having' united order : List Fragment}
    (page : PagingCarried d paged words) (list : Carried d listed columns) (read : Carried d source from')
    (joins : AllCarried d joining joined) (filters : AllCarried d filtering filter)
    (groups : AllCarried d grouping group) (havings : AllCarried d having having')
    (unions : AllCarried d uniting united) (orders : AllCarried d ordering order) :
    Carried d
      (paged ++ (listed ++ (source ++ (joining ++ (filtering ++ (grouping ++ (having ++ (uniting ++ ordering))))))))
      (Fragment.lines ([.word "SELECT " ++ words.1 ++ columns, .word "FROM " ++ from'] ++ joined ++ filter ++ group
        ++ having' ++ united ++ order ++ words.2)) := by
  refine ⟨fun final => ?_, Fragment.legible_lines ?_⟩
  · simp only [List.append_subset, ← page.uses, ← list.uses, ← read.uses, ← joins.uses, ← filters.uses, ← groups.uses,
      ← havings.uses, ← unions.uses, ← orders.uses]
    simp
    tauto
  · have lead := ((Fragment.finished_word (w := "SELECT ") rfl).append page.top).append_legible list.legible
    have sources := read.legible.behind (w := "FROM ") rfl
    simp only [List.forall_mem_append]
    exact ⟨⟨⟨⟨⟨⟨⟨List.forall_mem_cons.2 ⟨lead, List.forall_mem_singleton.2 sources⟩, joins.legible⟩, filters.legible⟩,
      groups.legible⟩, havings.legible⟩, unions.legible⟩, orders.legible⟩, page.tail⟩

theorem allCarried_clause (clause : String) (plain : plainWord clause = true) (all : AllCarried d names fs) :
    AllCarried d names (if fs.isEmpty then [] else [.word clause ++ Fragment.list fs]) := by
  split
  next empty =>
    obtain rfl := List.isEmpty_iff.1 empty
    exact all
  next =>
    exact ⟨by simp [all.uses], List.forall_mem_singleton.2 ((Fragment.legible_list all.legible).behind plain)⟩

mutual

theorem registers_select {s : Select} (tidy : s.Everywhere Scalar.NamesPlaceholders (LiteralTable.Filled ps))
    (nested : Bool) : Registers (select d ps s nested) (Carried d) := by
  match s with
  | { source := from', joins := joined, predicate, groupBy, having, projection := columns, union, orderBy, limit,
      offset } =>
    obtain ⟨inSource, inJoins, conditions, filters, keys, groups, values, inUnion, order, limited, skipped⟩ := tidy
    unfold select
    -- in the order in which the writer goes through the clauses
    refine registers_bind (registers_paging limited skipped _) fun words _ page => ?_
    refine registers_bind (registers_projection values) fun list _ projected => ?_
    refine registers_bind (registers_source inSource) fun source _ read => ?_
    refine registers_bind (registers_joins fun j member => ⟨inJoins j member, conditions j member⟩) fun js _ joins => ?_
    refine registers_bind (registers_conditionLine rfl filters) fun filter _ filtered => ?_
    refine registers_bind (registers_valueList keys) fun ks _ grouped => ?_
    refine registers_bind (registers_conditionLine rfl groups) fun having _ chosen => ?_
    refine registers_bind (registers_unionLines inUnion) fun united _ unions => ?_
    have group := allCarried_clause "GROUP BY " rfl grouped.1
    simp only [pure_bind]
    split
    next =>
      refine registers_bind (registers_orderItems order) fun items new ordered => registers_pure ?_
      have orders : AllCarried d new [Fragment.word "ORDER BY " ++ .list items] :=
        ⟨by simp [ordered.uses], List.forall_mem_singleton.2 ((Fragment.legible_list ordered.legible).behind rfl)⟩
      simpa using carried_select page projected read joins filtered group chosen unions orders
    next =>
      exact registers_pure (by
        simpa using carried_select page projected read joins filtered group chosen unions allCarried_nil)

theorem registers_source {s : Source} (tidy : Source.Everywhere Scalar.NamesPlaceholders (LiteralTable.Filled ps) s) :
    Registers (source d ps s) (Carried d) := by
  match s with
  | .table ref =>
    exact registers_pure (carried_legible ((Fragment.legible_table d ref).labelled ref.label) (by simp))
  | .literal v =>
    cases tidy with
    | literal filled => exact registers_literalTable filled
  | .subquery inner label =>
    cases tidy with
    | subquery _ below =>
      refine registers_bind (registers_select below true) fun f _ carried => registers_pure ⟨by simp [carried.uses], ?_⟩
      exact ((carried.legible.behind rfl).separated rfl).legible.labelled label

theorem registers_joins {js : List (Join Select)}
    (tidy : Join.Everywhere Scalar.NamesPlaceholders (LiteralTable.Filled ps) js) :
    Registers (joins d ps js) (AllCarried d) := by
  match js with
  | [] => exact registers_pure allCarried_nil
  | j :: rest =>
    obtain ⟨⟨inSource, condition⟩, others⟩ := List.forall_mem_cons.1 tidy
    refine registers_bind (registers_join inSource condition) fun f _ carried => ?_
    exact registers_bind (registers_joins others) fun fs _ all => registers_pure (by simpa using carried.cons all)

theorem registers_join {j : Join Select}
    (tidy : Source.Everywhere Scalar.NamesPlaceholders (LiteralTable.Filled ps) j.source)
    (named : ∀ e ∈ j.on, e.NamesPlaceholders) : Registers (join d ps j) (Carried d) := by
  match j with
  | { kind, source := from', on } =>
    refine registers_bind (registers_source tidy) fun f _ carried => ?_
    refine registers_bind (registers_joinCondition kind named) fun on _ condition => registers_pure ⟨?_, ?_⟩
    · simp [condition.uses, carried.uses]
    · exact legible_joined kind carried.legible condition.legible

theorem registers_unionLines {s : Option Select}
    (tidy : ∀ u ∈ s, u.Everywhere Scalar.NamesPlaceholders (LiteralTable.Filled ps)) :
    Registers (unionLines d ps s) (AllCarried d) := by
  match s with
  | none => exact registers_pure allCarried_nil
  | some other =>
    refine registers_bind (registers_select (tidy other rfl) true) fun f _ carried => registers_pure ⟨?_, ?_⟩
    · simp [carried.uses]
    · exact List.forall_mem_cons.2 ⟨(Fragment.finished_word rfl).legible, List.forall_mem_singleton.2 carried.legible⟩

end

end

end Writer

end Sql

end Setwise
