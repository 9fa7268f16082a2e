import Setwise.Proofs.Steps

/-!
Fresh names and new labels.

A fresh name is what the search for one comes to, which tries the base and then one number behind it after the other
(`picks_freshName`): among one numbered candidate more than there are taken names, some candidate is free. So the name
is not taken, whatever its base (`freshName_not_mem`), and labels that are handed out one after the other differ
(`HandsOut.nodup`).
-/

set_option autoImplicit false

namespace Setwise.Planning

open Relational

theorem eq_of_numbered_eq {base : String} {i j : Nat} (h : base ++ toString i = base ++ toString j) :
    i = j := by
  have digits : Nat.toDigits 10 i = Nat.toDigits 10 j := by
    simpa [Nat.toString_eq_ofList_toDigits] using congrArg String.toList h
  rw [← Nat.ofDigitChars_ten_toDigits (n := i), digits, Nat.ofDigitChars_ten_toDigits]

section

variable (taken : List String) (base : String)

/-- Trying one number behind the base after the other, from the given one on, comes to a name that is not taken. -/
inductive Counts : Nat → String → Prop
  | free {i : Nat} (new : base ++ toString i ∉ taken) : Counts i (base ++ toString i)
  | used {i : Nat} {name : String} (old : base ++ toString i ∈ taken) (later : Counts (i + 1) name) : Counts i name

/-- The search for a name that is not taken comes to the base or, where that is taken, to a number behind it. -/
inductive Picks : String → Prop
  | base (new : base ∉ taken) : Picks base
  | numbered {name : String} (old : base ∈ taken) (counts : Counts taken base 0 name) : Picks name

theorem exists_numbered_not_mem : ∃ i < taken.length + 1, base ++ toString i ∉ taken := by
  refine Classical.byContradiction fun none => ?_
  simp only [not_exists, not_and, Classical.not_not] at none
  let numbered := (List.range (taken.length + 1)).map fun i => base ++ toString i
  have subset : numbered ⊆ taken := fun name member => by
    obtain ⟨i, bound, rfl⟩ := List.mem_map.1 member
    exact none i (List.mem_range.1 bound)
  have distinct : numbered.Nodup :=
    List.Pairwise.map _ (fun _ _ differ same => differ (eq_of_numbered_eq same)) List.nodup_range
  have length := distinct.length_le_of_subset subset
  rw [List.length_map, List.length_range] at length
  omega

end

section

variable {taken : List String} {base : String}

theorem Counts.not_mem {i : Nat} {name : String} (h : Counts taken base i name) : name ∉ taken := by
  induction h with
  | free new => exact new
  | used _ _ ih => exact ih

theorem Picks.not_mem {name : String} (h : Picks taken base name) : name ∉ taken := by
  cases h with
  | base new => exact new
  | numbered _ counts => exact counts.not_mem

theorem counts_of_first {i k : Nat} (before : i ≤ k) (used : ∀ j < k, base ++ toString j ∈ taken)
    (new : base ++ toString k ∉ taken) : Counts taken base i (base ++ toString k) := by
  obtain ⟨more, rfl⟩ := Nat.exists_eq_add_of_le before
  induction more generalizing i with
  | zero => exact .free new
  | succ more ih =>
    have next : i + (more + 1) = i + 1 + more := by omega
    rw [next] at used new ⊢
    exact .used (used i (by omega)) (ih (Nat.le_add_right _ _) used new)

/-- A fresh name is what the search for one comes to. -/
theorem picks_freshName (taken : List String) (base : String) : Picks taken base (freshName taken base) := by
  unfold freshName
  split
  next old =>
    refine .numbered (by simpa using old) ?_
    dsimp only
    rw [List.find?_map]
    cases found : (List.range (taken.length + 1)).find? _ with
    | some i =>
      obtain ⟨new, -, used⟩ := List.find?_range_eq_some.1 found
      exact counts_of_first (Nat.zero_le i) (by simpa using used) (by simpa using new)
    | none =>
      obtain ⟨i, bound, new⟩ := exists_numbered_not_mem taken base
      exact absurd (List.find?_range_eq_none.1 found i bound) (by simpa using new)
  next free => exact .base (by simpa using free)

end

/-- A fresh name is not among the names that are taken. -/
theorem freshName_not_mem (taken : List String) (base : String) : freshName taken base ∉ taken :=
  (picks_freshName taken base).not_mem

/-! ## Labels -/

theorem newLabel_yields {base label : String} {w w' : Workspace}
    (h : Step.Yields (newLabel base) w label w') :
    label ∉ w.labels ∧ w' = { w with labels := w.labels ++ [label] } := by
  simp only [newLabel, Step.yields_bind, Step.yields_get, Step.yields_set, Step.yields_pure] at h
  obtain ⟨_, _, ⟨rfl, rfl⟩, _, _, rfl, rfl, rfl⟩ := h
  exact ⟨freshName_not_mem _ _, rfl⟩

theorem newTable_yields {e : Entity} {t : StoredTable} {w w' : Workspace}
    (h : Step.Yields (newTable e) w t w') :
    t.label ∉ w.labels ∧ t = ⟨e.table, e.schema, t.label⟩ ∧
      w' = { w with labels := w.labels ++ [t.label] } := by
  simp only [newTable, Step.yields_bind, Step.yields_pure] at h
  obtain ⟨label, v, new, rfl, rfl⟩ := h
  obtain ⟨fresh, rfl⟩ := newLabel_yields new
  exact ⟨fresh, rfl, rfl⟩

/-- Names that are found one after the other, each of which is taken from then on. -/
inductive HandsOut : List String → List String → List String → Prop
  | nil {taken : List String} : HandsOut taken [] []
  | cons {taken bases names : List String} {base name : String} (search : Picks taken base name)
      (later : HandsOut (taken ++ [name]) bases names) : HandsOut taken (base :: bases) (name :: names)

section

variable {taken bases names : List String}

theorem HandsOut.not_mem (h : HandsOut taken bases names) : ∀ name ∈ names, name ∉ taken := by
  induction h with
  | nil => simp
  | cons search _ ih =>
    refine List.forall_mem_cons.2 ⟨search.not_mem, fun name member old => ?_⟩
    exact ih name member (List.mem_append_left _ old)

/-- No name is handed out twice. -/
theorem HandsOut.nodup (h : HandsOut taken bases names) : names.Nodup := by
  induction h with
  | nil => exact List.nodup_nil
  | cons _ later ih =>
    refine List.nodup_cons.2 ⟨fun again => ?_, ih⟩
    exact later.not_mem _ again (List.mem_append_right _ (List.mem_singleton_self _))

theorem exists_handsOut (taken bases : List String) : ∃ names, HandsOut taken bases names := by
  induction bases generalizing taken with
  | nil => exact ⟨[], .nil⟩
  | cons base rest ih =>
    obtain ⟨names, later⟩ := ih (taken ++ [freshName taken base])
    exact ⟨_, .cons (picks_freshName taken base) later⟩

end

theorem newLabels_yield (bases : List String) (w : Workspace) :
    ∃ labels, Step.Yields (bases.mapM newLabel) w labels { w with labels := w.labels ++ labels } ∧
      HandsOut w.labels (bases.map initial) labels := by
  induction bases generalizing w with
  | nil =>
    refine ⟨[], ?_, .nil⟩
    rw [List.append_nil, List.mapM_nil, Step.yields_pure]
    exact ⟨rfl, rfl⟩
  | cons base rest ih =>
    let label := freshName w.labels (initial base)
    obtain ⟨labels, run, later⟩ := ih { w with labels := w.labels ++ [label] }
    refine ⟨label :: labels, ?_, .cons (picks_freshName _ _) later⟩
    simp only [List.append_assoc, List.cons_append, List.nil_append] at run
    rw [List.mapM_cons]
    exact Step.yields_bind.2 ⟨label, _, rfl, Step.yields_bind.2 ⟨labels, _, run, Step.yields_pure.2 ⟨rfl, rfl⟩⟩⟩

end Setwise.Planning
