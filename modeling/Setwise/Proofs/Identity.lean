import Setwise.Proofs.Atomicity

/-!
Counters of identity columns.

An appended row moves the counter of its table above the number in its identity column; an assignment to a stored row
does not. So the counter is above all numbers that are stored only as long as no statement assigns to the identity
column (`countsAll_operates`), and then a row that takes its number from the counter meets no stored row on a key with
the identity column in it (`commonKey?_of_fresh`). From the empty database of a model on, both hold along every run of
statements of that kind (`counters_stay_ahead`); one assignment to the identity column is enough to lose both
(`raisedNumber_collides`).
-/

set_option autoImplicit false

namespace Setwise

/-! ## Values that stay what they are -/

theorem Column.accept_of_holds {c : Column} {v : Value} (h : c.Holds v) : c.accept v = .ok v := by
  unfold Column.Holds at h
  unfold Column.accept
  split at h
  next null =>
    subst null
    simp [h, Value.cast?]
  next present =>
    have kept : v.cast? c.type = some v := by
      rw [Value.cast?.eq_def]
      cases v <;> cases hc : c.type <;> simp_all [Value.type?]
    have given : v.isNull = false := by
      cases v with
      | null => exact absurd rfl present
      | int | real | text | blob | bool => rfl
    simp [given, kept]

theorem exists_of_rowFits {columns : List Column} {row : Row} (fits : List.Forall₂ Column.Holds columns row) {i : Nat}
    {c : Column} (here : columns[i]? = some c) : ∃ v, row[i]? = some v ∧ c.Holds v := by
  obtain ⟨inside, rfl⟩ := List.getElem?_eq_some_iff.1 here
  have long : i < row.length := fits.length_eq ▸ inside
  exact ⟨row[i], List.getElem?_eq_getElem long, fits.get inside long⟩

theorem getElem?_acceptAll {columns : List Column} {row stored : Row} (length : row.length = columns.length)
    (h : acceptAll columns row = .ok stored) {i : Nat} {c : Column} (here : columns[i]? = some c) :
    ∃ v w, row[i]? = some v ∧ stored[i]? = some w ∧ c.accept v = .ok w := by
  induction columns generalizing row stored i with
  | nil => simp at here
  | cons d ds ih =>
    cases row with
    | nil => simp at length
    | cons v vs =>
      obtain ⟨w, accepted, h⟩ := bind_eq_ok.1 h
      obtain ⟨ws, others, h⟩ := bind_eq_ok.1 h
      obtain rfl := pure_eq_ok.1 h
      cases i with
      | zero =>
        obtain rfl : d = c := by simpa using here
        exact ⟨v, w, rfl, rfl, accepted⟩
      | succ i => exact ih (by simpa using length) others (by simpa using here)

namespace Table

variable {t u : Table} {row stored changed : Row} {values : List (String × Value)}

theorem getElem?_validate (h : t.validate row = .ok stored) {i : Nat} {c : Column} (here : t.columns[i]? = some c) :
    ∃ v w, row[i]? = some v ∧ stored[i]? = some w ∧ c.accept v = .ok w := by
  unfold validate acceptRow at h
  split at h
  next accepted result =>
    obtain rfl := Except.ok.inj h
    split at result
    next length => exact getElem?_acceptAll length result here
    next => cases result
  next => cases h

theorem getElem?_setNamed (h : t.setNamed row values = .ok changed) {i : Nat}
    (spared : ∀ v ∈ values, t.columnIndex v.1 ≠ .ok i) : changed[i]? = row[i]? := by
  induction values generalizing row with
  | nil =>
    obtain rfl := Except.ok.inj h
    rfl
  | cons v rest ih =>
    obtain ⟨first, others⟩ := List.forall_mem_cons.1 spared
    obtain ⟨j, found, h⟩ := bind_eq_ok.1 h
    have different : j ≠ i := fun same => first (same ▸ found)
    rw [ih h others, List.getElem?_set_ne different]

theorem getElem?_of_assigned (fits : List.Forall₂ Column.Holds t.columns row)
    (named : t.setNamed row values = .ok changed) (valid : t.validate changed = .ok stored) {i : Nat}
    (spared : ∀ v ∈ values, t.columnIndex v.1 ≠ .ok i) : stored[i]? = row[i]? := by
  cases here : t.columns[i]? with
  | none =>
    have short : t.columns.length ≤ i := List.getElem?_eq_none_iff.1 here
    have after := (holds_of_validate valid).length_eq
    have before := fits.length_eq
    rw [List.getElem?_eq_none (by omega), List.getElem?_eq_none (by omega)]
  | some c =>
    obtain ⟨v, w, given, after, accepted⟩ := getElem?_validate valid here
    obtain ⟨x, before, holds⟩ := exists_of_rowFits fits here
    rw [getElem?_setNamed named spared, before] at given
    obtain rfl := Option.some.inj given
    rw [Column.accept_of_holds holds] at accepted
    rw [before, after, Except.ok.inj accepted]

theorem getElem?_of_assign {index : Nat} (fit : t.RowsFit) (h : t.assign index values = .ok u) {i : Nat}
    (spared : ∀ v ∈ values, t.columnIndex v.1 ≠ .ok i) :
    u.rows.map (fun r => r[i]?) = t.rows.map fun r => r[i]? := by
  obtain ⟨row, changed, stored, found, named, valid, rfl⟩ := assign_eq_ok h
  have same : stored[i]? = row[i]? := getElem?_of_assigned (fit row (List.mem_of_getElem? found)) named valid spared
  obtain ⟨inside, rfl⟩ := List.getElem?_eq_some_iff.1 found
  apply List.ext_getElem
  · simp
  · intro j _ _
    by_cases this : j = index
    · subst this
      simp [same]
    · simp [List.getElem_set_ne (Ne.symm this)]

/-! ## Identity columns and counters -/

def IsIdentity (t : Table) (name : String) : Prop :=
  ∃ c, t.identity = some c ∧ t.columnIndex name = .ok c

def CountsIntegers (t : Table) : Prop :=
  ∀ c, t.identity = some c → ∃ column, t.columns[c]? = some column ∧ column.type = .integer

def Identifies (t : Table) (key : UniqueKey) : Prop :=
  ∃ c ∈ key.columns, t.identity = some c

/-- The counter is above every number in the identity column. -/
def CountsAll (t : Table) : Prop :=
  ∀ c, t.identity = some c → ∀ r ∈ t.rows, ∀ i, r[c]? = some (.int i) → i < t.nextIdentity

/-- If the error is that a row repeats a key, it is a key without the identity column. -/
def BlamesOthers (t : Table) (e : Error) : Prop :=
  ∀ table key values, e = .keyViolation table key values →
    ∃ k ∈ t.keys, ¬ t.Identifies k ∧ ∃ row, e = t.violation k row

theorem identityAfter_le {next : Int} (h : t.identityAfter row = .ok next) : t.nextIdentity ≤ next := by
  unfold identityAfter at h
  split at h
  next i found =>
    split at h
    next =>
      obtain rfl := Except.ok.inj h
      omega
    next => cases h
  next =>
    obtain rfl := Except.ok.inj h
    exact Int.le_refl _

theorem lt_identityAfter {next i : Int} {c : Nat} (h : t.identityAfter row = .ok next) (identity : t.identity = some c)
    (here : row[c]? = some (.int i)) : i < next := by
  have found : (t.identity.bind fun c => row[c]?) = some (.int i) := by rw [identity, Option.bind_some, here]
  unfold identityAfter at h
  rw [found] at h
  dsimp only at h
  split at h
  next =>
    obtain rfl := Except.ok.inj h
    omega
  next => cases h

theorem append_countsAll (h : t.append row = .ok u) (counts : t.CountsAll) : u.CountsAll := by
  obtain ⟨stored, valid, h⟩ := bind_eq_ok.1 h
  split at h
  next => cases h
  next =>
    obtain ⟨next, counted, h⟩ := bind_eq_ok.1 h
    obtain rfl := pure_eq_ok.1 h
    intro c identity r member i here
    rcases List.mem_append.1 member with old | new
    · have below : i < t.nextIdentity := counts c identity r old i here
      have : t.nextIdentity ≤ next := identityAfter_le counted
      exact Int.lt_of_lt_of_le below this
    · obtain rfl := List.mem_singleton.1 new
      exact lt_identityAfter counted identity here

theorem assign_countsAll {index : Nat} (fit : t.RowsFit) (spared : ∀ v ∈ values, ¬ t.IsIdentity v.1)
    (h : t.assign index values = .ok u) (counts : t.CountsAll) : u.CountsAll := by
  have unchanged : u.identity = t.identity ∧ u.nextIdentity = t.nextIdentity := by
    obtain ⟨_, _, _, -, -, -, rfl⟩ := assign_eq_ok h
    exact ⟨rfl, rfl⟩
  intro c identity r member i here
  rw [unchanged.1] at identity
  rw [unchanged.2]
  -- the numbers are those of the rows before
  have same := getElem?_of_assign fit h fun v member found => spared v member ⟨c, identity, found⟩
  have number : some (Value.int i) ∈ t.rows.map fun r => r[c]? := by
    rw [← same, ← here]
    exact List.mem_map_of_mem member
  obtain ⟨old, stored, here⟩ := List.mem_map.1 number
  exact counts c identity old stored i here

theorem remove_countsAll (indices : List Nat) (counts : t.CountsAll) : (t.remove indices).CountsAll :=
  fun c identity r member => counts c identity r (mem_of_mem_remove member)

/-! ## Fresh numbers -/

theorem not_agreeOn_of_fresh (integers : t.CountsIntegers) (fit : t.RowsFit) (counts : t.CountsAll) {key : UniqueKey}
    (identifies : t.Identifies key) (spared : ∀ v ∈ values, ¬ t.IsIdentity v.1)
    (named : t.setNamed t.blankRow values = .ok row) (valid : t.validate row = .ok stored) {r : Row}
    (member : r ∈ t.rows) : agreeOn key.columns r stored = false := by
  obtain ⟨c, contained, identity⟩ := identifies
  obtain ⟨column, here, integer⟩ := integers c identity
  obtain ⟨inside, -⟩ := List.getElem?_eq_some_iff.1 here
  -- the row has the number of the counter, and stores it as it is
  have fresh : row[c]? = some (.int t.nextIdentity) := by
    rw [getElem?_setNamed named fun v member found => spared v member ⟨c, identity, found⟩]
    simp [blankRow, identity, inside]
  obtain ⟨v, w, before, after, accepted⟩ := getElem?_validate valid here
  obtain rfl : v = .int t.nextIdentity := Option.some.inj (before.symm.trans fresh)
  have number : w = .int t.nextIdentity := by
    have holds : column.Holds (.int t.nextIdentity) := by simp [Column.Holds, Value.type?, integer]
    rw [Column.accept_of_holds holds] at accepted
    exact (Except.ok.inj accepted).symm
  obtain ⟨x, found, holds⟩ := exists_of_rowFits (fit r member) here
  -- what is stored in the identity column is a smaller number or NULL
  have different : x.equates w = false := by
    unfold Column.Holds at holds
    rw [integer] at holds
    cases x with
    | int i =>
      have below : i < t.nextIdentity := counts c identity r member i found
      have order : compare i t.nextIdentity = .lt := Int.compare_eq_lt.2 below
      simp [number, Value.equates, Value.compare?, order]
    | null => simp [Value.equates, Value.compare?]
    | real | text | blob | bool => simp [Value.type?] at holds
  refine List.all_eq_false.2 ⟨c, contained, ?_⟩
  rw [found, after]
  simp [different]

theorem agreeOn_congr {columns : List Nat} {a b a' b' : Row} (left : ∀ c ∈ columns, a'[c]? = a[c]?)
    (right : ∀ c ∈ columns, b'[c]? = b[c]?) : agreeOn columns a' b' = agreeOn columns a b := by
  unfold agreeOn
  induction columns with
  | nil => rfl
  | cons c rest ih =>
    obtain ⟨first, others⟩ := List.forall_mem_cons.1 left
    obtain ⟨first', others'⟩ := List.forall_mem_cons.1 right
    simp only [List.all_cons, first, first', ih others others']

theorem pairwise_of_columns {columns : List Nat} {rows rows' : List Row} (length : rows'.length = rows.length)
    (apart : rows.Pairwise fun a b => agreeOn columns a b = false)
    (kept : ∀ i ∈ columns, rows'.map (fun r => r[i]?) = rows.map fun r => r[i]?) :
    rows'.Pairwise fun a b => agreeOn columns a b = false := by
  have same (j : Nat) (inside' : j < rows'.length) (inside : j < rows.length) :
      ∀ i ∈ columns, rows'[j][i]? = rows[j][i]? := by
    intro i contained
    have at_j := congrArg (fun values => values[j]?) (kept i contained)
    simpa [List.getElem?_eq_getElem inside', List.getElem?_eq_getElem inside] using at_j
  rw [List.pairwise_iff_getElem] at apart ⊢
  intro i j hi hj before
  rw [agreeOn_congr (same i hi (length ▸ hi)) (same j hj (length ▸ hj))]
  exact apart i j _ _ before

theorem commonKey?_eq_some {a b : Row} {key : UniqueKey} (h : t.commonKey? a b = some key) :
    key ∈ t.keys ∧ key.columns ≠ [] ∧ agreeOn key.columns a b = true := by
  have found := List.find?_some h
  rw [Bool.and_eq_true, Bool.not_eq_true', List.isEmpty_eq_false_iff] at found
  exact ⟨List.mem_of_find?_eq_some h, found⟩

/-- Numbers below the counter tell the stored rows apart on every key that has the identity column in it. -/
structure Spread (t : Table) : Prop where
  integers : t.CountsIntegers
  fit : t.RowsFit
  counts : ∀ key ∈ t.keys, t.Identifies key → t.CountsAll
  apart : ∀ key ∈ t.keys, t.Identifies key → t.rows.Pairwise fun a b => agreeOn key.columns a b = false

def Error.IsOther (e : Error) : Prop :=
  ∀ table key values, e ≠ .keyViolation table key values

theorem isOther_of_setNamed {e : Error} (h : t.setNamed row values = .error e) : e.IsOther := by
  induction values generalizing row with
  | nil => cases h
  | cons v rest ih =>
    unfold setNamed columnIndex at h
    split at h
    · exact ih h
    · obtain rfl := Except.error.inj h
      simp [Error.IsOther]

theorem isOther_of_validate {e : Error} (h : t.validate row = .error e) : e.IsOther := by
  unfold validate at h
  split at h
  · cases h
  · obtain rfl := Except.error.inj h
    simp [Error.IsOther]

theorem isOther_of_identityAfter {e : Error} (h : t.identityAfter row = .error e) : e.IsOther := by
  unfold identityAfter at h
  split at h
  next =>
    split at h
    next => cases h
    next =>
      obtain rfl := Except.error.inj h
      simp [Error.IsOther]
  next => cases h

theorem isOther_of_assign {index : Nat} {e : Error} (h : t.assign index values = .error e) : e.IsOther := by
  unfold assign at h
  split at h
  next =>
    obtain rfl := Except.error.inj h
    simp [Error.IsOther]
  next row found =>
    rcases bind_eq_error.1 h with failed | ⟨changed, -, h⟩
    · exact isOther_of_setNamed failed
    · rcases bind_eq_error.1 h with failed | ⟨stored, -, h⟩
      · exact isOther_of_validate failed
      · cases h

theorem append_eq_error {e : Error} (h : t.append row = .error e) :
    e.IsOther ∨ ∃ stored, t.validate row = .ok stored ∧
      ∃ r ∈ t.rows, ∃ key, t.commonKey? r stored = some key ∧ e = t.violation key stored := by
  rcases bind_eq_error.1 h with invalid | ⟨stored, valid, h⟩
  · exact .inl (isOther_of_validate invalid)
  split at h
  next key common =>
    obtain ⟨r, member, shared⟩ := List.exists_of_findSome?_eq_some common
    obtain rfl := Except.error.inj h
    exact .inr ⟨stored, valid, r, member, key, shared, rfl⟩
  next =>
    rcases bind_eq_error.1 h with exhausted | ⟨_, -, h⟩
    · exact .inl (isOther_of_identityAfter exhausted)
    · cases h

theorem checkUnique_eq_error {e : Error} (h : t.checkUnique = .error e) :
    ∃ key a b, [a, b].Sublist t.rows ∧ t.commonKey? a b = some key ∧ e = t.violation key a := by
  have repeated {rows : List Row} {key : UniqueKey} {a : Row} (found : t.firstRepeat? rows = some (key, a)) :
      ∃ b, [a, b].Sublist rows ∧ t.commonKey? a b = some key := by
    induction rows with
    | nil => cases found
    | cons first rest ih =>
      unfold firstRepeat? at found
      split at found
      next common =>
        obtain ⟨rfl, rfl⟩ := Prod.mk.inj (Option.some.inj found)
        obtain ⟨b, member, shared⟩ := List.exists_of_findSome?_eq_some common
        exact ⟨b, (List.singleton_sublist.2 member).cons_cons _, shared⟩
      next =>
        obtain ⟨b, inside, shared⟩ := ih found
        exact ⟨b, inside.cons _, shared⟩
  unfold checkUnique at h
  split at h
  next key a found =>
    obtain rfl := Except.error.inj h
    obtain ⟨b, inside, shared⟩ := repeated found
    exact ⟨key, a, b, inside, shared, rfl⟩
  next => cases h

theorem blamesOthers_of_other {e : Error} (h : e.IsOther) : t.BlamesOthers e :=
  fun table key values same => absurd same (h table key values)

def Admits (t : Table) (row : Row) : Prop :=
  ∀ stored, t.validate row = .ok stored → ∀ key ∈ t.keys, t.Identifies key →
    ∀ r ∈ t.rows, agreeOn key.columns r stored = false

theorem append_spread (spread : t.Spread) (admits : t.Admits row) (h : t.append row = .ok u) : u.Spread := by
  have fit := append_rowsFit h spread.fit
  have counts := append_countsAll h
  obtain ⟨stored, next, valid, rfl⟩ := append_eq_ok h
  refine ⟨spread.integers, fit, fun key member identifies => counts (spread.counts key member identifies), ?_⟩
  intro key member identifies
  refine List.pairwise_append.2 ⟨spread.apart key member identifies, List.pairwise_singleton _ _, ?_⟩
  intro a old b new
  rw [List.mem_singleton.1 new]
  exact admits stored valid key member identifies a old

theorem append_blamesOthers (admits : t.Admits row) {e : Error} (h : t.append row = .error e) : t.BlamesOthers e := by
  rcases append_eq_error h with other | ⟨stored, valid, r, member, key, shared, rfl⟩
  · exact blamesOthers_of_other other
  · obtain ⟨declared, -, agree⟩ := commonKey?_eq_some shared
    refine fun _ _ _ _ => ⟨key, declared, fun identifies => ?_, stored, rfl⟩
    rw [admits stored valid key declared identifies r member] at agree
    cases agree

theorem insert_spread (spread : t.Spread) (spared : ∀ v ∈ values, ¬ t.IsIdentity v.1) :
    (∀ u, t.insert values = .ok u → u.Spread) ∧ ∀ e, t.insert values = .error e → t.BlamesOthers e := by
  have admits {row : Row} (named : t.setNamed t.blankRow values = .ok row) : t.Admits row :=
    fun stored valid key member identifies r inside => not_agreeOn_of_fresh spread.integers spread.fit
      (spread.counts key member identifies) identifies spared named valid inside
  constructor
  · intro u h
    obtain ⟨row, named, appended⟩ := bind_eq_ok.1 h
    exact append_spread spread (admits named) appended
  · intro e h
    rcases bind_eq_error.1 h with failed | ⟨row, named, failed⟩
    · exact blamesOthers_of_other (isOther_of_setNamed failed)
    · exact append_blamesOthers (admits named) failed

theorem assign_spread {index : Nat} (spread : t.Spread)
    (spared : ∀ v ∈ values, ∀ key ∈ t.keys, t.Identifies key → ∀ i ∈ key.columns, t.columnIndex v.1 ≠ .ok i)
    (h : t.assign index values = .ok u) : u.Spread := by
  have fit : u.RowsFit := ((rowsFit_kept t.name).assign h ⟨rfl, spread.fit⟩).2
  have counts (spared : ∀ v ∈ values, ¬ t.IsIdentity v.1) := assign_countsAll spread.fit spared h
  have kept {i : Nat} := getElem?_of_assign spread.fit h (i := i)
  obtain ⟨_, _, _, -, -, -, rfl⟩ := assign_eq_ok h
  refine ⟨spread.integers, fit, fun key member identifies => ?_, fun key member identifies => ?_⟩
  · refine counts (fun v inside named => ?_) (spread.counts key member identifies)
    obtain ⟨c, numbered, found⟩ := named
    obtain ⟨c', contained, numbered'⟩ := identifies
    obtain rfl : c = c' := Option.some.inj (numbered.symm.trans numbered')
    exact spared v inside key member ⟨c, contained, numbered⟩ c contained found
  · exact pairwise_of_columns List.length_set (spread.apart key member identifies) fun i contained =>
      kept fun v inside => spared v inside key member identifies i contained

theorem assign_blamesOthers {index : Nat} {e : Error} (h : t.assign index values = .error e) : t.BlamesOthers e :=
  blamesOthers_of_other (isOther_of_assign h)

theorem remove_sublist (t : Table) (indices : List Nat) : (t.remove indices).rows.Sublist t.rows := by
  have kept : (t.remove indices).rows.Sublist (t.rows.zipIdx.map Prod.fst) := List.filter_sublist.map Prod.fst
  rwa [List.zipIdx_map_fst] at kept

theorem remove_spread (spread : t.Spread) (indices : List Nat) : (t.remove indices).Spread where
  integers := spread.integers
  fit := fun r member => spread.fit r (mem_of_mem_remove member)
  counts := fun key member identifies => remove_countsAll indices (spread.counts key member identifies)
  apart := fun key member identifies => (spread.apart key member identifies).sublist (t.remove_sublist indices)

theorem clear_spread (spread : t.Spread) : ({ t with rows := [] } : Table).Spread where
  integers := spread.integers
  fit := fun _ member => nomatch member
  counts := fun _ _ _ _ _ _ member => nomatch member
  apart := fun _ _ _ => .nil

theorem checkUnique_blamesOthers (spread : t.Spread) {e : Error} (h : t.checkUnique = .error e) :
    t.BlamesOthers e := by
  obtain ⟨key, a, b, inside, shared, rfl⟩ := checkUnique_eq_error h
  obtain ⟨declared, -, agree⟩ := commonKey?_eq_some shared
  refine fun _ _ _ _ => ⟨key, declared, fun identifies => ?_, a, rfl⟩
  have differ := List.rel_of_pairwise_cons ((spread.apart key declared identifies).sublist inside) (List.mem_singleton_self b)
  rw [agree] at differ
  cases differ

/-! ## Layouts -/

/-- The tables differ in their rows and counters alone. -/
def LaidOutAs (t t₀ : Table) : Prop :=
  ∃ rows next, t = { t₀ with rows := rows, nextIdentity := next }

theorem laidOut_kept (t₀ : Table) : KeptByWrites fun t => t.LaidOutAs t₀ where
  insert := by
    rintro _ u values h ⟨rows, next, rfl⟩
    obtain ⟨row, h⟩ := insert_eq_ok h
    obtain ⟨stored, next, -, rfl⟩ := append_eq_ok h
    exact ⟨_, next, rfl⟩
  assign := by
    rintro _ u index values h ⟨rows, next, rfl⟩
    obtain ⟨_, _, stored, -, -, -, rfl⟩ := assign_eq_ok h
    exact ⟨_, next, rfl⟩
  remove := by
    rintro _ indices ⟨rows, next, rfl⟩
    exact ⟨_, next, rfl⟩
  clear := by
    rintro _ ⟨rows, next, rfl⟩
    exact ⟨[], next, rfl⟩

end Table

namespace Execution

open Relational Table

variable {inserted changed : List String} {t₀ : Table}

/-- Counters stay ahead in statements that assign to no identity column. -/
theorem countsAll_operates (spared : ∀ name ∈ changed, ¬ t₀.IsIdentity name) :
    Operates inserted changed (fun t => t.LaidOutAs t₀ ∧ t.RowsFit ∧ t.CountsAll) fun _ => True where
  insert := by
    rintro t values - ⟨laid, fit, counts⟩
    refine ⟨fun u h => ⟨(laidOut_kept t₀).insert h laid, ((rowsFit_kept t.name).insert h ⟨rfl, fit⟩).2, ?_⟩,
      fun _ _ => trivial⟩
    obtain ⟨row, appended⟩ := insert_eq_ok h
    exact append_countsAll appended counts
  assign := by
    rintro t index values named ⟨laid, fit, counts⟩
    refine ⟨fun u h => ⟨(laidOut_kept t₀).assign h laid, ((rowsFit_kept t.name).assign h ⟨rfl, fit⟩).2, ?_⟩,
      fun _ _ => trivial⟩
    obtain ⟨rows, next, rfl⟩ := laid
    exact assign_countsAll fit (fun v member => spared v.1 (named v member)) h counts
  remove := fun indices h => ⟨(laidOut_kept t₀).remove indices h.1,
    fun r member => h.2.1 r (mem_of_mem_remove member), remove_countsAll indices h.2.2⟩
  clear := fun h => ⟨(laidOut_kept t₀).clear h.1, fun _ member => (nomatch member),
    fun _ _ _ member => nomatch member⟩
  check := fun _ _ _ => trivial
  reading := fun _ _ => trivial

theorem spread_operates (inserts : ∀ name ∈ inserted, ¬ t₀.IsIdentity name)
    (changes : ∀ name ∈ changed, ∀ key ∈ t₀.keys, t₀.Identifies key → ∀ i ∈ key.columns, t₀.columnIndex name ≠ .ok i) :
    Operates inserted changed (fun t => t.LaidOutAs t₀ ∧ t.Spread) fun e => ∀ e', e = .row e' → t₀.BlamesOthers e' where
  insert := by
    rintro t values named ⟨laid, spread⟩
    have kept {u : Table} (h : t.insert values = .ok u) := (laidOut_kept t₀).insert h laid
    -- the columns and keys are those of the first table, whose rows and counter change
    obtain ⟨rows, next, rfl⟩ := laid
    obtain ⟨done, failed⟩ := insert_spread spread fun v member => inserts v.1 (named v member)
    refine ⟨fun u h => ⟨kept h, done u h⟩, ?_⟩
    rintro e h _ ⟨⟩
    exact failed e h
  assign := by
    rintro t index values named ⟨laid, spread⟩
    have kept {u : Table} (h : t.assign index values = .ok u) := (laidOut_kept t₀).assign h laid
    obtain ⟨rows, next, rfl⟩ := laid
    refine ⟨fun u h => ⟨kept h, assign_spread spread (fun v member => changes v.1 (named v member)) h⟩, ?_⟩
    rintro e h _ ⟨⟩
    have failed := assign_blamesOthers h
    exact failed
  remove := fun indices h => ⟨(laidOut_kept t₀).remove indices h.1, remove_spread h.2 indices⟩
  clear := fun h => ⟨(laidOut_kept t₀).clear h.1, clear_spread h.2⟩
  check := by
    rintro t ⟨⟨rows, next, rfl⟩, spread⟩ e h _ ⟨⟩
    exact checkUnique_blamesOthers spread h
  reading := by
    rintro _ other e rfl
    refine blamesOthers_of_other ?_
    rintro table key values rfl
    cases other

/-! ## Runs -/

def SparesNumbers (db : Database) (s : Statement) : Prop :=
  ∀ t, targetTable? s = some t.name → db.find? t.name = some t → ∀ column ∈ changedColumns s, ¬ t.IsIdentity column

def SparesNumberedKeys (s : Statement) (t : Table) : Prop :=
  ∀ column ∈ changedColumns s, ∀ key ∈ t.keys, t.Identifies key → ∀ i ∈ key.columns, t.columnIndex column ≠ .ok i

/-- The databases that blocks leave, one after the other and whether they succeed or fail, of the empty database of a
model. A block that succeeds has assigned to no identity column. -/
inductive Reached (m : Model) : Database → Prop where
  | empty : Reached m m.database
  | step {db : Database} {b : Block} {ps : Parameters} (before : Reached m db)
      (spares : ∀ s n, b = .affected s → (run db b ps).1 = .ok (.affected n) → SparesNumbers db s) :
      Reached m (run db b ps).2

/-- Every counter of a well-formed database is ahead of the numbers in its table. -/
structure Ahead (db : Database) : Prop where
  wellFormed : db.WellFormed
  integers : ∀ t ∈ db.tables, t.CountsIntegers
  counts : ∀ t ∈ db.tables, t.CountsAll

theorem ahead_database (m : Model) : Ahead m.database where
  wellFormed := m.wellFormed_database
  integers := by
    intro t member c identity
    obtain ⟨e, -, rfl⟩ := List.mem_map.1 (Database.mem_of_mem_ofTables member)
    obtain ⟨inside, generated, -⟩ := List.findIdx?_eq_some_iff_getElem.1 identity
    rw [Bool.and_eq_true, beq_iff_eq] at generated
    let p := (m.columns e)[c]
    refine ⟨⟨p.column, p.type, p.nullable⟩, ?_, generated.2⟩
    simp [p, Model.tableOf, List.getElem?_eq_getElem inside]
  counts := by
    intro t member c identity r stored
    obtain ⟨e, -, rfl⟩ := List.mem_map.1 (Database.mem_of_mem_ofTables member)
    cases stored

theorem Ahead.step {db : Database} (h : Ahead db) {b : Block} {ps : Parameters}
    (spares : ∀ s n, b = .affected s → (run db b ps).1 = .ok (.affected n) → SparesNumbers db s) :
    Ahead (run db b ps).2 := by
  cases b with
  | select s => exact h
  | affected s =>
    have wellFormed := run_wellFormed h.wellFormed (.affected s) ps
    rcases runWrite_leaves db s ps with ⟨e, result⟩ | ⟨n, -, result⟩ |
      ⟨n, before, after, target, found, written, result⟩
    case inl => simpa only [run, result] using h
    case inr.inl => simpa only [run, result] using h
    case inr.inr =>
      have succeeded : run db (.affected s) ps = (.ok (.affected n), db.put after) := by
        simp only [run, result, Except.map]
      rw [succeeded] at wellFormed ⊢
      have named : before.name = after.name := Database.name_of_find? found
      have stored : before ∈ db.tables := Database.mem_of_find? found
      have spared : ∀ column ∈ changedColumns s, ¬ before.IsIdentity column :=
        spares s n rfl (by rw [succeeded]) before (named ▸ target) (named ▸ found)
      have kept := (writeChecked_ensures db ps s (countsAll_operates spared) before
        ⟨⟨before.rows, before.nextIdentity, rfl⟩, (h.wellFormed.table stored).rowsFit, h.counts before stored⟩).1
      rw [written] at kept
      -- the table has the layout of the one before, so that its identity column is the same
      obtain ⟨⟨rows, next, rfl⟩, -, counts⟩ := kept
      refine ⟨wellFormed, fun t member => ?_, fun t member => ?_⟩
      · rcases Database.mem_insertSorted member with rfl | old
        · exact h.integers before stored
        · exact h.integers t old
      · rcases Database.mem_insertSorted member with rfl | old
        · exact counts
        · exact h.counts t old

theorem Reached.ahead {m : Model} {db : Database} (h : Reached m db) : Ahead db := by
  induction h with
  | empty => exact ahead_database m
  | step _ spares ih => exact ih.step spares

/-- Where no statement that succeeds assigns to an identity column, every counter stays above the numbers in the
identity column of its table. A statement that then inserts rows without a number, and assigns to no key that has the
number in it, does not fail because of such a key. -/
theorem counters_stay_ahead {m : Model} {db : Database} (reached : Reached m db) :
    (∀ t ∈ db.tables, t.CountsAll) ∧
      ∀ (s : Statement) (ps : Parameters) (t : Table), targetTable? s = some t.name → db.find? t.name = some t →
        (∀ column ∈ insertedColumns db { parameters := ps } s, ¬ t.IsIdentity column) → SparesNumberedKeys s t →
        ∀ e, (run db (.affected s) ps).1 = .error (.row e) → t.BlamesOthers e := by
  have ahead := reached.ahead
  refine ⟨ahead.counts, fun s ps t target found inserts changes e failed => ?_⟩
  have stored : t ∈ db.tables := Database.mem_of_find? found
  have wellFormed := ahead.wellFormed.table stored
  -- keys are unique and counters ahead before the statement, which is where it starts from
  have spread : t.Spread := {
    integers := ahead.integers t stored
    fit := wellFormed.rowsFit
    counts := fun _ _ _ => ahead.counts t stored
    apart := fun key member ⟨c, contained, _⟩ => List.pairwise_iff_getElem.2 fun i j hi hj before =>
      wellFormed.keysUnique key member (List.ne_nil_of_mem contained) i j _ _ (Nat.ne_of_lt before)
        (List.getElem?_eq_getElem hi) (List.getElem?_eq_getElem hj) }
  have ensured := (writeChecked_ensures db ps s (spread_operates inserts changes) t ⟨⟨t.rows, t.nextIdentity, rfl⟩, spread⟩).2
  have blamed : (runWrite db s ps).1 = .error (.row e) := by
    unfold run at failed
    cases result : (runWrite db s ps).1 with
    | ok n => simp [result, Except.map] at failed
    | error e' => simpa [result, Except.map] using failed
  refine ensured (.row e) ?_ e rfl
  unfold runWrite at blamed
  rw [target] at blamed
  dsimp only at blamed
  rw [Database.get_eq_ok.2 found] at blamed
  dsimp only at blamed
  cases result : (writeChecked db ps s).run t with
  | mk outcome after =>
    rw [result] at blamed
    cases outcome with
    | ok n => simp at blamed
    | error e' => simpa using blamed

/-! ## Items that number themselves -/

/-- Items with numbers from a counter and values that do not repeat. -/
def numberedItems : Model :=
  ⟨[(((Entity.mapped "Item" "Items").withProperty ⟨"Id", "Id", .integer, false, true⟩).withProperty
    ⟨"Value", "Value", .integer, true, false⟩).withPrimaryKey ["Id"] |>.withAlternateKey ["Value"]]⟩

def addValues (values : List Int) : Statement :=
  .insertInto "Items" none {
    source := .literal ⟨"v", ["Value"], .immediate (values.map fun v => [.constant (.int v)])⟩
    projection := [⟨"Value", .column "v" "Value"⟩] }

/-- Two items, after an attempt to give both the same number. -/
def afterCollapse : Database :=
  runAll numberedItems.database [(.affected (addValues [10, 20]), {}), (collapseNumbers, {})]

def collapsedItems : Table :=
  { name := "Items"
    columns := [⟨"Id", .integer, false⟩, ⟨"Value", .integer, true⟩]
    identity := some 0
    keys := [⟨"PK_Items", [0]⟩, ⟨"AK_Items_Value", [1]⟩]
    nextIdentity := 3
    rows := [[.int 1, .int 10], [.int 2, .int 20]] }

/-- A third item with a value that is taken is refused for its value, not for its number. -/
theorem takenValue_blamed :
    Reached numberedItems afterCollapse ∧ afterCollapse.find? "Items" = some collapsedItems ∧
      collapsedItems.CountsAll ∧
      (run afterCollapse (.affected (addValues [20])) {}).1 =
        .error (.row (.keyViolation "Items" "AK_Items_Value" [.int 20])) ∧
      collapsedItems.BlamesOthers (.keyViolation "Items" "AK_Items_Value" [.int 20]) := by
  -- the update that collapses the numbers fails, so the run has only one insertion that succeeded
  have reached : Reached numberedItems afterCollapse := by
    refine .step (.step .empty fun s n same _ => ?_) fun s n same done => ?_
    · obtain rfl := Block.affected.inj same
      exact fun _ _ _ column changed => nomatch changed
    · have refused : (run (run numberedItems.database (.affected (addValues [10, 20])) {}).2 collapseNumbers {}).1 =
          .error (.row (.keyViolation "Items" "PK_Items" [.int 1])) := by decide
      cases refused.symm.trans done
  have found : afterCollapse.find? "Items" = some collapsedItems := by decide
  have refused : (run afterCollapse (.affected (addValues [20])) {}).1 =
      .error (.row (.keyViolation "Items" "AK_Items_Value" [.int 20])) := by decide
  obtain ⟨counts, blames⟩ := counters_stay_ahead reached
  refine ⟨reached, found, counts _ (Database.mem_of_find? found), refused, ?_⟩
  refine blames (addValues [20]) {} collapsedItems rfl found ?_ (fun column changed => nomatch changed) _ refused
  have inserted : insertedColumns afterCollapse { parameters := {} } (addValues [20]) = ["Value"] := by decide
  rw [inserted]
  rintro column member ⟨c, identity, index⟩
  obtain rfl := List.mem_singleton.1 member
  have second : collapsedItems.columnIndex "Value" = .ok 1 := by rfl
  rw [second] at index
  obtain rfl := Except.ok.inj index
  cases identity

def raiseNumbers : Block :=
  .affected (.update ⟨"Items", none, "i"⟩ [⟨"Id", .binary (.column "i" "Id") .add (.constant (.int 1))⟩] none [])

/-- An assignment to the identity column does not move the counter, so that the next item takes a number that is
stored already. -/
theorem raisedNumber_collides :
    let db := runAll numberedItems.database [(.affected (addValues [10]), {}), (raiseNumbers, {})]
    (db.find? "Items").map (fun t => (t.rows, t.nextIdentity)) = some ([[.int 2, .int 10]], 2) ∧
      (run db (.affected (addValues [20])) {}).1 = .error (.row (.keyViolation "Items" "PK_Items" [.int 2])) := by
  decide

end Execution

end Setwise
