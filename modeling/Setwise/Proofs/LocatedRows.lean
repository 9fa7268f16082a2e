import Setwise.Proofs.FinalKeys

/-!
Rows found by their positions.

A statement notes the positions of rows while it reads them, and writes by these positions later. What is noted is a
function of the rows, evaluated along their list (`located`, `positions`), and so are the writes: assignments by position
change each row on its own (`assignEach_located`), and removals by position filter the rows (`remove_positions`), also
behind assignments (`removed_outcomes`).
-/

set_option autoImplicit false

namespace Setwise

/-- What a function finds of some rows, beside their positions from `n` on. -/
def located {α : Type} (g : Row → Option α) (n : Nat) : List Row → List (Nat × α)
  | [] => []
  | r :: rest =>
    match g r with
    | some a => (n, a) :: located g (n + 1) rest
    | none => located g (n + 1) rest

/-- The positions, from `n` on, of the rows that satisfy a condition. -/
def positions (p : Row → Bool) (n : Nat) : List Row → List Nat
  | [] => []
  | r :: rest => if p r then n :: positions p (n + 1) rest else positions p (n + 1) rest

section

variable {α : Type} {g : Row → Option α} {p : Row → Bool} {n : Nat} {r : Row} {rest rows : List Row}

theorem located_cons_some {a : α} (h : g r = some a) : located g n (r :: rest) = (n, a) :: located g (n + 1) rest := by
  simp [located, h]

theorem located_cons_none (h : g r = none) : located g n (r :: rest) = located g (n + 1) rest := by
  simp [located, h]

theorem positions_cons : positions p n (r :: rest) =
    if p r then n :: positions p (n + 1) rest else positions p (n + 1) rest :=
  rfl

theorem located_cons : located g n (r :: rest) = ((g r).toList.map fun a => (n, a)) ++ located g (n + 1) rest := by
  cases found : g r <;> simp [located, found]

theorem positions_of_located : (located g n rows).map Prod.fst = positions (fun r => (g r).isSome) n rows := by
  induction rows generalizing n with
  | nil => rfl
  | cons r rest ih =>
    cases found : g r with
    | none => simp [located, positions, found, ih]
    | some a => simp [located, positions, found, ih]

theorem length_positions : (positions p n rows).length = rows.countP p := by
  induction rows generalizing n with
  | nil => rfl
  | cons r rest ih =>
    rw [positions_cons, List.countP_cons]
    split <;> simp [*]

theorem length_located : (located g n rows).length = rows.countP fun r => (g r).isSome := by
  rw [← length_positions (n := n), ← positions_of_located, List.length_map]

theorem le_of_mem_positions {i : Nat} (member : i ∈ positions p n rows) : n ≤ i := by
  induction rows generalizing n with
  | nil => cases member
  | cons r rest ih =>
    have later (behind : i ∈ positions p (n + 1) rest) : n ≤ i := by
      have := ih behind
      omega
    rw [positions_cons] at member
    split at member
    · rcases List.mem_cons.1 member with rfl | behind
      · exact Nat.le_refl i
      · exact later behind
    · exact later member

end

/-! ## Removals -/

namespace Table

def keptFrom (indices : List Nat) (n : Nat) (rows : List Row) : List Row :=
  ((rows.zipIdx n).filter fun x => !indices.contains x.2).map Prod.fst

theorem remove_rows (t : Table) (indices : List Nat) : t.remove indices = { t with rows := keptFrom indices 0 t.rows } :=
  rfl

variable {p : Row → Bool}

theorem keptFrom_cons (n : Nat) (r r' : Row) (rest rest' : List Row) :
    keptFrom (positions p n (r :: rest)) n (r' :: rest') =
      (if p r then [] else [r']) ++ keptFrom (positions p (n + 1) rest) (n + 1) rest' := by
  have later : (rest'.zipIdx (n + 1)).filter (fun x => !(positions p n (r :: rest)).contains x.2) =
      (rest'.zipIdx (n + 1)).filter fun x => !(positions p (n + 1) rest).contains x.2 := by
    apply List.filter_congr
    rintro ⟨_, i⟩ member
    have behind := (List.mem_zipIdx member).1
    rw [positions_cons]
    split
    · have different : i ≠ n := by omega
      simp [different]
    · rfl
  have fresh : n ∉ positions p (n + 1) rest := by
    intro member
    have := le_of_mem_positions member
    omega
  unfold keptFrom
  rw [List.zipIdx_cons, List.filter_cons, later]
  by_cases doomed : p r
  · simp [positions, doomed]
  · simp [positions, doomed, fresh]

/-- Removing the positions of the rows that satisfy a condition leaves the other rows in their order. -/
theorem remove_positions (t : Table) (p : Row → Bool) :
    t.remove (positions p 0 t.rows) = { t with rows := t.rows.filter fun r => !p r } := by
  have kept (n : Nat) (rows : List Row) : keptFrom (positions p n rows) n rows = rows.filter fun r => !p r := by
    induction rows generalizing n with
    | nil => rfl
    | cons r rest ih =>
      rw [keptFrom_cons, ih, List.filter_cons]
      by_cases doomed : p r <;> simp [doomed]
  rw [remove_rows, kept]

/-! ## Assignments -/

def reassign (t : Table) (columns : List String) (values : Option Row) (row : Row) : Except Error Row :=
  match values with
  | none => .ok row
  | some values => do
    let changed ← t.setNamed row (columns.zip values)
    t.validate changed

section

variable {t u : Table} {columns : List String}

theorem reassign_rows (t : Table) (rows : List Row) (columns : List String) (values : Option Row) (row : Row) :
    ({ t with rows } : Table).reassign columns values row = t.reassign columns values row := by
  unfold reassign
  cases values with
  | none => rfl
  | some values =>
    simp only [setNamed_rows]
    rfl

theorem assign_eq_reassign {front rest : List Row} {row v : Row} (here : t.rows = front ++ row :: rest) :
    t.assign front.length (columns.zip v) = do
      let row' ← t.reassign columns (some v) row
      return { t with rows := front ++ row' :: rest } := by
  unfold assign reassign
  rw [here, List.getElem?_append_right (Nat.le_refl _)]
  simp

theorem assignEach_behind {values : Row → Option Row} {front rows : List Row} (here : t.rows = front ++ rows) :
    t.assignEach columns (located values front.length rows) = .ok u ↔
      ∃ rows', List.Forall₂ (fun row row' => t.reassign columns (values row) row = .ok row') rows rows' ∧
        u = { t with rows := front ++ rows' } := by
  induction rows generalizing t front with
  | nil =>
    constructor
    · intro h
      obtain rfl := Except.ok.inj h
      exact ⟨[], .nil, by rw [← here]⟩
    · rintro ⟨rows', none, rfl⟩
      obtain rfl := List.forall₂_nil_left_iff.1 none
      rw [← here]
      rfl
  | cons row rest ih =>
    -- the rows behind are assigned to in a table whose front has grown by what becomes of the first one
    have later (row' : Row) : ({ t with rows := front ++ row' :: rest } : Table).assignEach columns
          (located values (front.length + 1) rest) = .ok u ↔
        ∃ rows', List.Forall₂ (fun row row' => t.reassign columns (values row) row = .ok row') rest rows' ∧
          u = { t with rows := front ++ row' :: rows' } := by
      have split : ({ t with rows := front ++ row' :: rest } : Table).rows = (front ++ [row']) ++ rest := by simp
      simpa [reassign_rows] using ih split
    cases found : values row with
    | none =>
      have same : t = { t with rows := front ++ row :: rest } := by rw [← here]
      rw [located_cons_none found]
      conv_lhs => rw [same]
      rw [later]
      constructor
      · rintro ⟨rows', rest', rfl⟩
        exact ⟨row :: rows', .cons (by rw [found]; rfl) rest', rfl⟩
      · rintro ⟨_, all, rfl⟩
        cases all with
        | @cons _ row' _ rows' first rest' =>
          rw [found] at first
          obtain rfl := Except.ok.inj first
          exact ⟨rows', rest', rfl⟩
    | some v =>
      rw [located_cons_some found]
      unfold assignEach
      rw [assign_eq_reassign here]
      constructor
      · intro h
        obtain ⟨_, assigned, last⟩ := bind_eq_ok.1 h
        obtain ⟨row', first, made⟩ := bind_eq_ok.1 assigned
        obtain rfl := pure_eq_ok.1 made
        obtain ⟨rows', rest', rfl⟩ := (later row').1 last
        exact ⟨row' :: rows', .cons (found ▸ first) rest', rfl⟩
      · rintro ⟨_, all, rfl⟩
        cases all with
        | @cons _ row' _ rows' first rest' =>
          rw [found] at first
          exact bind_eq_ok.2 ⟨_, bind_eq_ok.2 ⟨row', first, rfl⟩, (later row').2 ⟨rows', rest', rfl⟩⟩

/-- Assignments to located rows change each row on its own, and succeed where every single change does. -/
theorem assignEach_located {values : Row → Option Row} :
    t.assignEach columns (located values 0 t.rows) = .ok u ↔
      ∃ rows, List.Forall₂ (fun row row' => t.reassign columns (values row) row = .ok row') t.rows rows ∧
        u = { t with rows } :=
  @assignEach_behind t u columns values [] t.rows rfl

end

end Table

end Setwise
