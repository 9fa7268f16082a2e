import Setwise.Proofs.Carrying
import Setwise.Proofs.Interpretation
import Setwise.Proofs.StableSorting

/-!
The order in which a select delivers its frames.

A select that does not group delivers a page of the frames that pass its predicate, stably sorted by its keys
(`deliveredFrames_arranged`). What a clause computes in the frames is what it computes in the elements of the
frames: a predicate keeps the elements that satisfy it (`keepWhere_map`), and keys sort them by the rows that
the keys make (`arranged_sorted`).
-/

set_option autoImplicit false

namespace Setwise.Execution

open Client Relational Sorting Planning

section

variable (env : Environment) (items : List OrderItem)

def keyRow (f : Frame) : Row :=
  (evalAll env f (items.map OrderItem.key)).toOption.getD []

/-- The first of two frames is not behind the second one. -/
def frameLe (f g : Frame) : Bool :=
  keyOrder items (keyRow env items f) (keyRow env items g) != .gt

def arranged (frames : List Frame) : List Frame :=
  frames.mergeSort (frameLe env items)

end

variable {env : Environment}

/-! ## Sorting -/

theorem frameLe_nil (f g : Frame) : frameLe env [] f g = true :=
  rfl

theorem arranged_nil (frames : List Frame) : arranged env [] frames = frames :=
  List.mergeSort_of_pairwise (List.pairwise_of_forall fun f g => frameLe_nil f g)

theorem preordered_nil (frames : List Frame) : Preordered (frameLe env []) frames where
  total := fun _ _ _ _ => rfl
  trans := fun _ _ _ _ _ _ _ _ => rfl

theorem withKeys_eq_ok {items : List OrderItem} {frames : List Frame} {keyed : List (Row × Frame)}
    (h : withKeys env items frames = .ok keyed) : keyed = frames.map fun f => (keyRow env items f, f) := by
  induction frames generalizing keyed with
  | nil =>
    obtain rfl := Except.ok.inj h
    rfl
  | cons f rest ih =>
    obtain ⟨key, here, h⟩ := bind_eq_ok.1 h
    obtain ⟨others, later, h⟩ := bind_eq_ok.1 h
    obtain rfl := pure_eq_ok.1 h
    have row : keyRow env items f = key := by
      unfold keyRow
      rw [here]
      rfl
    rw [ih later, List.map_cons, row]

theorem sortFrames_eq_ok {items : List OrderItem} {frames sorted : List Frame}
    (h : sortFrames env items frames = .ok sorted) : sorted = arranged env items frames := by
  unfold sortFrames at h
  split at h
  next empty =>
    obtain rfl := List.isEmpty_iff.1 empty
    obtain rfl := Except.ok.inj h
    exact (arranged_nil frames).symm
  next =>
    obtain ⟨keyed, keys, h⟩ := bind_eq_ok.1 h
    obtain rfl := pure_eq_ok.1 h
    obtain rfl := withKeys_eq_ok keys
    have sort := List.map_mergeSort (r := frameLe env items)
      (s := fun a b : Row × Frame => keyOrder items a.1 b.1 != .gt)
      (f := fun f => (keyRow env items f, f)) (l := frames) fun _ _ _ _ => rfl
    rw [← sort, List.map_map]
    exact List.map_id _

theorem evalAll_toOption (f : Frame) (es : List Scalar) :
    (evalAll env f es).toOption = es.mapM (valueOf env f) := by
  induction es with
  | nil => rfl
  | cons e rest ih =>
    unfold evalAll
    simp only [toOption_bind, ih, List.mapM_cons, valueOf]
    rfl

/-! ## Delivered frames -/

theorem restrict_ungrouped {predicate : Option Scalar} {frames kept : List Frame}
    (h : restrict env predicate [] none frames = .ok kept) : kept = frames.filter (passes env predicate) := by
  obtain ⟨filtered, first, grouping⟩ := bind_eq_ok.1 h
  obtain ⟨groups, grouped, last⟩ := bind_eq_ok.1 grouping
  obtain rfl := Except.ok.inj grouped
  obtain ⟨rfl, -⟩ := filterFrames_eq_ok first
  obtain ⟨rfl, -⟩ := filterFrames_eq_ok last
  exact List.filter_eq_self.2 fun _ _ => rfl

/-- Without grouping, a select delivers a page of its frames that pass the predicate, in order. -/
theorem deliveredFrames_arranged {db : Database} {s : Select} {frames : List Frame} (groupBy : s.groupBy = [])
    (having : s.having = none) (h : deliveredFrames db env s = .ok frames) :
    ∃ all, joinedFrames db env s = .ok all ∧
      page env s.limit s.offset (arranged env s.orderBy (all.filter (passes env s.predicate))) = .ok frames := by
  obtain ⟨kept, selected, h⟩ := bind_eq_ok.1 h
  obtain ⟨sorted, ordered, h⟩ := bind_eq_ok.1 h
  obtain ⟨all, joined, restricted⟩ := selectFrames_eq_ok.1 selected
  obtain rfl := sortFrames_eq_ok ordered
  rw [groupBy, having] at restricted
  exact ⟨all, joined, restrict_ungrouped restricted ▸ h⟩

theorem page_unpaged {α : Type} {items found : List α} :
    page env none none items = .ok found ↔ found = items := by
  constructor
  · intro h
    exact (Except.ok.inj h).symm
  · rintro rfl
    rfl

/-! ## Conditions -/

theorem passes_some (e : Scalar) (f : Frame) :
    passes env (some e) f = ((valueOf env f e).map Value.isTrue).getD false := by
  unfold passes holdsOption holds valueOf
  dsimp only
  cases eval env f e <;> rfl

theorem isTrue_of_operate (u v : Option Value) :
    ((Element.operate .and u v).map Value.isTrue).getD false =
      ((u.map Value.isTrue).getD false && (v.map Value.isTrue).getD false) := by
  cases u with
  | none => rfl
  | some a =>
    cases v with
    | none => simp [Element.operate]
    | some b =>
      cases result : a.apply .and b with
      | ok c =>
        simp only [Element.operate, Option.bind_eq_bind, Option.bind_some, result]
        exact Value.isTrue_of_conjunction result
      | error e =>
        -- without a truth value on some side, that side is not satisfied
        have untrue : (a.isTrue && b.isTrue) = false := by
          cases a <;> cases b <;> first | rfl | exact Bool.and_false _ | cases result
        simp only [Element.operate, Option.bind_eq_bind, Option.bind_some, result, Option.map_some,
          Option.getD_some, untrue]
        rfl

theorem passes_both (condition : Option Scalar) (e : Scalar) (f : Frame) :
    passes env (some (Scalar.both condition e)) f = (passes env condition f && passes env (some e) f) := by
  rw [passes_some, valueOf_both]
  cases condition with
  | none =>
    rw [passes_some]
    rfl
  | some c =>
    rw [passes_some, passes_some]
    exact isTrue_of_operate _ _

/-- A predicate keeps the elements of the frames that a condition keeps, where it decides alike. -/
theorem keepWhere_map {α β : Type} {p : β → Option Bool} {q : α → Bool} {g : α → β} {l : List α} {kept : List β}
    (same : ∀ a ∈ l, ∀ b, p (g a) = some b → q a = b) (h : keepWhere p (l.map g) = some kept) :
    kept = (l.filter q).map g := by
  induction l generalizing kept with
  | nil =>
    obtain rfl := Option.some.inj h
    rfl
  | cons a rest ih =>
    obtain ⟨first, others⟩ := List.forall_mem_cons.1 same
    simp only [List.map_cons, keepWhere, Option.bind_eq_bind, Option.bind_eq_some_iff, Option.pure_def,
      Option.some.injEq] at h
    obtain ⟨keep, here, later, behind, rfl⟩ := h
    rw [ih others behind, List.filter_cons, first keep here]
    cases keep <;> rfl

/-! ## Keys -/

theorem length_of_evalAll {f : Frame} {es : List Scalar} {row : Row} (h : evalAll env f es = .ok row) :
    row.length = es.length := by
  induction es generalizing row with
  | nil =>
    obtain rfl := Except.ok.inj h
    rfl
  | cons e rest ih =>
    obtain ⟨v, -, h⟩ := bind_eq_ok.1 h
    obtain ⟨others, later, h⟩ := bind_eq_ok.1 h
    obtain rfl := pure_eq_ok.1 h
    rw [List.length_cons, List.length_cons, ih later]

theorem toOption_eq_some {ε α : Type} {x : Except ε α} {a : α} : x.toOption = some a ↔ x = .ok a := by
  cases x <;> simp [Except.toOption]

theorem withRows_map (items : List OrderItem) {key : Element → Element} {element : Frame → Element}
    {frames : List Frame} {keyed : List (Row × Element)}
    (rows : ∀ f ∈ frames, (evalAll env f (items.map OrderItem.key)).toOption = (key (element f)).row?)
    (h : withRows key (frames.map element) = some keyed) :
    keyed = (frames.map fun f => (keyRow env items f, element f)) ∧
      ∀ f ∈ frames, (keyRow env items f).length = items.length := by
  induction frames generalizing keyed with
  | nil =>
    obtain rfl := Option.some.inj h
    exact ⟨rfl, fun _ h => nomatch h⟩
  | cons f rest ih =>
    obtain ⟨first, others⟩ := List.forall_mem_cons.1 rows
    simp only [List.map_cons, withRows, Option.bind_eq_bind, Option.bind_eq_some_iff, Option.pure_def,
      Option.some.injEq] at h
    obtain ⟨row, here, later, behind, rfl⟩ := h
    obtain ⟨same, lengths⟩ := ih others behind
    have computed : evalAll env f (items.map OrderItem.key) = .ok row := toOption_eq_some.1 (first.trans here)
    have found : keyRow env items f = row := by
      unfold keyRow
      rw [computed]
      rfl
    rw [same, List.map_cons, found]
    refine ⟨rfl, List.forall_mem_cons.2 ⟨?_, lengths⟩⟩
    rw [found, length_of_evalAll computed, List.length_map]

theorem keyOrder_eq_rowOrder (descending : Bool) {keys : List Scalar} {r r' : Row}
    (length : r.length = keys.length) :
    keyOrder (keys.map fun key => { key, descending }) r r' = rowOrder descending r r' := by
  induction keys generalizing r r' with
  | nil =>
    obtain rfl := List.length_eq_zero_iff.1 length
    cases r' <;> rfl
  | cons key rest ih =>
    cases r with
    | nil => cases length
    | cons v vs =>
      cases r' with
      | nil => rfl
      | cons w ws =>
        simp only [List.map_cons, keyOrder, rowOrder]
        rw [ih (Nat.succ.inj length)]

/-- Frames in the order of keys have the elements that the rows of these keys sort. -/
theorem arranged_sorted {descending : Bool} {keys : List Scalar} {key : Element → Element}
    {element : Frame → Element} {frames : List Frame} {keyed : List (Row × Element)} {sorted : List Element}
    (rows : ∀ f ∈ frames, (evalAll env f keys).toOption = (key (element f)).row?)
    (h : withRows key (frames.map element) = some keyed) (order : sorted? descending keyed = some sorted) :
    let items := keys.map fun key => { key, descending }
    Preordered (frameLe env items) frames ∧ (arranged env items frames).map element = sorted := by
  intro items
  have listed : items.map OrderItem.key = keys := by simp [items, Function.comp_def]
  obtain ⟨rfl, lengths⟩ := withRows_map items (listed.symm ▸ rows) h
  have same (f : Frame) (hf : f ∈ frames) (g : Frame) (_ : g ∈ frames) : frameLe env items f g =
      rowLe descending (keyRow env items f, element f) (keyRow env items g, element g) := by
    have length : (keyRow env items f).length = keys.length := by rw [lengths f hf, List.length_map]
    unfold frameLe rowLe
    rw [keyOrder_eq_rowOrder descending length]
  unfold sorted? at order
  split at order
  next preordered =>
    obtain rfl := Option.some.inj order
    refine ⟨(Preordered.of_map same).2 preordered, ?_⟩
    unfold arranged
    rw [← List.map_mergeSort same, List.map_map]
    rfl
  next => cases order

end Setwise.Execution
