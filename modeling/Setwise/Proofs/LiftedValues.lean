import Mathlib.Data.List.Forall2
import Setwise.Parameters.Lifting
import Setwise.Proofs.Labels
import Setwise.Proofs.Results

/-!
What lifting takes out of a mutation.

The client values of a mutation are listed in the order in which the traversal meets them, each with the hint
for its name; lifting adds exactly these, one after the other (`mutation_values`). A lifted name ends in the
number of its value, so the n-th client value is what the name with that number holds
(`find?_lifted`).
-/

set_option autoImplicit false

namespace Setwise

open Client

/-! ## Client values -/

namespace Client

mutual

/-- The captured values of an expression from left to right, with their names. -/
def Expr.clientValues : Expr → List (String × Parameter)
  | .captured name value => [(name, .scalar value)]
  | .param _ | .constant _ | .runtime _ => []
  | .member e _ | .not e => e.clientValues
  | .binary l _ r => l.clientValues ++ r.clientValues
  | .conditional test a b => test.clientValues ++ a.clientValues ++ b.clientValues
  | .new _ args bindings => Expr.clientValuesAll args ++ Expr.clientValuesOfBindings bindings

def Expr.clientValuesAll : List Expr → List (String × Parameter)
  | [] => []
  | e :: rest => e.clientValues ++ Expr.clientValuesAll rest

def Expr.clientValuesOfBindings : List (Binding Expr) → List (String × Parameter)
  | [] => []
  | b :: rest => Expr.clientValuesOfBinding b ++ Expr.clientValuesOfBindings rest

def Expr.clientValuesOfBinding : Binding Expr → List (String × Parameter)
  | .assign _ value => value.clientValues
  | .items _ values => Expr.clientValuesAll values

end

def Lambda.clientValues? : Option Lambda → List (String × Parameter)
  | none => []
  | some l => l.body.clientValues

/-- The rows of a collection, if its elements have a common shape. -/
def LocalRows.clientValues : LocalRows → List (String × Parameter)
  | .parameter .. => []
  | .records fields elements =>
    match Lifting.recordRows fields 0 elements with
    | .ok rows => [("rows", .rows rows)]
    | .error _ => []

def Query.clientValues : Query → List (String × Parameter)
  | .set _ => []
  | .rows c => c.clientValues
  | .filter input l | .map input l | .orderBy input l _ | .groupBy input l =>
    input.clientValues ++ l.body.clientValues
  | .join outer inner outerKey innerKey result =>
    outer.clientValues ++ inner.clientValues ++ outerKey.body.clientValues ++ innerKey.body.clientValues
      ++ result.body.clientValues
  | .take input count | .skip input count => input.clientValues ++ count.clientValues
  | .union left right => left.clientValues ++ right.clientValues

def RowsHint (vs : List (String × Parameter)) : Prop :=
  ∀ hint rows, (hint, Parameter.rows rows) ∈ vs → hint = "rows"

theorem rowsHint_append {vs ws : List (String × Parameter)} : RowsHint (vs ++ ws) ↔ RowsHint vs ∧ RowsHint ws := by
  simp [RowsHint, or_imp, forall_and]

mutual

theorem Expr.rowsHint (e : Expr) : RowsHint e.clientValues := by
  cases e with
  | captured | param | constant | runtime => simp [RowsHint, Expr.clientValues]
  | member e name => exact e.rowsHint
  | not e => exact e.rowsHint
  | binary l op r => exact rowsHint_append.2 ⟨l.rowsHint, r.rowsHint⟩
  | conditional test a b =>
    exact rowsHint_append.2 ⟨rowsHint_append.2 ⟨test.rowsHint, a.rowsHint⟩, b.rowsHint⟩
  | new type args bindings => exact rowsHint_append.2 ⟨Expr.rowsHint_all args, Expr.rowsHint_bindings bindings⟩

theorem Expr.rowsHint_all (es : List Expr) : RowsHint (Expr.clientValuesAll es) := by
  cases es with
  | nil => simp [RowsHint, Expr.clientValuesAll]
  | cons e rest => exact rowsHint_append.2 ⟨e.rowsHint, Expr.rowsHint_all rest⟩

theorem Expr.rowsHint_bindings (bs : List (Binding Expr)) : RowsHint (Expr.clientValuesOfBindings bs) := by
  cases bs with
  | nil => simp [RowsHint, Expr.clientValuesOfBindings]
  | cons b rest => exact rowsHint_append.2 ⟨Expr.rowsHint_binding b, Expr.rowsHint_bindings rest⟩

theorem Expr.rowsHint_binding (b : Binding Expr) : RowsHint (Expr.clientValuesOfBinding b) := by
  cases b with
  | assign member value => exact value.rowsHint
  | items member values => exact Expr.rowsHint_all values

end

theorem LocalRows.rowsHint (c : LocalRows) : RowsHint c.clientValues := by
  unfold LocalRows.clientValues
  split
  next => simp [RowsHint]
  next =>
    split
    next => simp [RowsHint]
    next => simp [RowsHint]

theorem Query.rowsHint (q : Query) : RowsHint q.clientValues := by
  induction q with
  | set => simp [RowsHint, Query.clientValues]
  | rows c => exact c.rowsHint
  | filter input l ih | map input l ih | orderBy input l _ ih | groupBy input l ih =>
    exact rowsHint_append.2 ⟨ih, l.body.rowsHint⟩
  | take input count ih | skip input count ih => exact rowsHint_append.2 ⟨ih, count.rowsHint⟩
  | join outer inner outerKey innerKey result iho ihi =>
    simp only [Query.clientValues, rowsHint_append]
    exact ⟨⟨⟨⟨iho, ihi⟩, outerKey.body.rowsHint⟩, innerKey.body.rowsHint⟩, result.body.rowsHint⟩
  | union left right ihl ihr => exact rowsHint_append.2 ⟨ihl, ihr⟩

def Query.collections : Query → List LocalRows
  | .set _ => []
  | .rows c => [c]
  | .filter input _ | .map input _ | .orderBy input _ _ | .groupBy input _ | .take input _ | .skip input _ =>
    input.collections
  | .join outer inner _ _ _ => outer.collections ++ inner.collections
  | .union left right => left.collections ++ right.collections

def Mutation.clientValues : Mutation → List (String × Parameter)
  | .delete q | .insertInto q _ => q.clientValues
  | .update q set => q.clientValues ++ set.body.clientValues
  | .updateJoin outer inner outerKey innerKey set condition =>
    outer.clientValues ++ inner.clientValues ++ outerKey.body.clientValues ++ innerKey.body.clientValues
      ++ set.body.clientValues ++ Lambda.clientValues? condition
  | .upsert _ source inserted updated =>
    source.elim [] Query.clientValues ++ inserted.body.clientValues ++ Lambda.clientValues? updated
  | .merge _ source targetKey sourceKey updated inserted _ =>
    source.clientValues ++ targetKey.body.clientValues ++ sourceKey.body.clientValues
      ++ Lambda.clientValues? updated ++ Lambda.clientValues? inserted

theorem Mutation.rowsHint (m : Mutation) : RowsHint m.clientValues := by
  have optional : ∀ l : Option Lambda, RowsHint (Lambda.clientValues? l) := by
    rintro (_ | l)
    · simp [RowsHint, Lambda.clientValues?]
    · exact l.body.rowsHint
  cases m with
  | delete q | insertInto q _ => exact q.rowsHint
  | update q set => exact rowsHint_append.2 ⟨q.rowsHint, set.body.rowsHint⟩
  | updateJoin outer inner outerKey innerKey set condition =>
    simp only [Mutation.clientValues, rowsHint_append]
    exact ⟨⟨⟨⟨⟨outer.rowsHint, inner.rowsHint⟩, outerKey.body.rowsHint⟩, innerKey.body.rowsHint⟩, set.body.rowsHint⟩,
      optional condition⟩
  | upsert target source inserted updated =>
    simp only [Mutation.clientValues, rowsHint_append]
    refine ⟨⟨?_, inserted.body.rowsHint⟩, optional updated⟩
    cases source with
    | none => simp [RowsHint]
    | some q => exact q.rowsHint
  | merge target source targetKey sourceKey updated inserted delete =>
    simp only [Mutation.clientValues, rowsHint_append]
    exact ⟨⟨⟨⟨source.rowsHint, targetKey.body.rowsHint⟩, sourceKey.body.rowsHint⟩, optional updated⟩,
      optional inserted⟩

def Mutation.collections : Mutation → List LocalRows
  | .delete q | .update q _ | .insertInto q _ => q.collections
  | .updateJoin outer inner .. => outer.collections ++ inner.collections
  | .upsert _ source _ _ => source.elim [] Query.collections
  | .merge _ source .. => source.collections

end Client

/-! ## Lifting adds the client values -/

namespace Lifting

def liftedName (hint : String) (n : Nat) : String :=
  "__" ++ hint ++ "_" ++ toString n

def addAll (s : Lifting) : List (String × Parameter) → Lifting
  | [] => s
  | (hint, p) :: rest => addAll ⟨s.values.insert (liftedName hint s.next) p, s.next + 1⟩ rest

theorem addAll_append (s : Lifting) (vs ws : List (String × Parameter)) :
    s.addAll (vs ++ ws) = (s.addAll vs).addAll ws := by
  induction vs generalizing s with
  | nil => rfl
  | cons v rest ih => exact ih _

theorem addAll_next (s : Lifting) (vs : List (String × Parameter)) : (s.addAll vs).next = s.next + vs.length := by
  induction vs generalizing s with
  | nil => rfl
  | cons v rest ih =>
    rw [addAll, ih, List.length_cons, Nat.add_assoc, Nat.add_comm 1]

mutual

theorem expr_values (e : Expr) (s : Lifting) : (expr e s).2 = s.addAll e.clientValues := by
  cases e with
  | captured | param | constant | runtime => rfl
  | member e name => exact expr_values e s
  | not e => exact expr_values e s
  | binary l op r =>
    rw [Expr.clientValues, addAll_append, ← expr_values l, ← expr_values r]
    rfl
  | conditional test a b =>
    rw [Expr.clientValues, addAll_append, addAll_append, ← expr_values test, ← expr_values a, ← expr_values b]
    rfl
  | new type args bindings =>
    rw [Expr.clientValues, addAll_append, ← exprs_values args, ← bindingList_values bindings]
    rfl

theorem exprs_values (es : List Expr) (s : Lifting) : (exprs es s).2 = s.addAll (Expr.clientValuesAll es) := by
  cases es with
  | nil => rfl
  | cons e rest =>
    rw [Expr.clientValuesAll, addAll_append, ← expr_values e, ← exprs_values rest]
    rfl

theorem bindingList_values (bs : List (Binding Expr)) (s : Lifting) :
    (bindingList bs s).2 = s.addAll (Expr.clientValuesOfBindings bs) := by
  cases bs with
  | nil => rfl
  | cons b rest =>
    rw [Expr.clientValuesOfBindings, addAll_append, ← binding_values b, ← bindingList_values rest]
    rfl

theorem binding_values (b : Binding Expr) (s : Lifting) :
    (binding b s).2 = s.addAll (Expr.clientValuesOfBinding b) := by
  cases b with
  | assign member value => exact expr_values value s
  | items member values => exact exprs_values values s

end

theorem lambda_values (l : Lambda) (s : Lifting) : (lambda l s).2 = s.addAll l.body.clientValues :=
  expr_values l.body s

theorem lambda?_values (l : Option Lambda) (s : Lifting) : (lambda? l s).2 = s.addAll (Lambda.clientValues? l) := by
  cases l with
  | none => rfl
  | some l => exact expr_values l.body s

section

variable {α β : Type} {s s' : Lifting}

@[simp] theorem fallible_bind {x : Fallible α} {f : α → Fallible β} {b : β} :
    (x >>= f) s = .ok (b, s') ↔ ∃ a t, x s = .ok (a, t) ∧ f a t = .ok (b, s') := by
  change x s >>= (fun (a, t) => f a t) = _ ↔ _
  simp [bind_eq_ok]

@[simp] theorem fallible_pure {a b : α} : (pure a : Fallible α) s = .ok (b, s') ↔ a = b ∧ s = s' := by
  change Except.ok (a, s) = _ ↔ _
  simp

@[simp] theorem fallible_lift {x : Except Parameters.Error α} {a : α} :
    (liftM x : Fallible α) s = .ok (a, s') ↔ x = .ok a ∧ s = s' := by
  change x >>= (fun a => Except.ok (a, s)) = _ ↔ _
  cases x <;> simp [bind, Except.bind]

@[simp] theorem fallible_surely {x : StateM Lifting α} {a : α} :
    surely x s = .ok (a, s') ↔ x s = (a, s') := by
  simp [surely]

end

theorem lambda_run {l l' : Lambda} {s s' : Lifting} (h : lambda l s = (l', s')) :
    s' = s.addAll l.body.clientValues := by
  rw [← lambda_values, h]

theorem expr_run {e e' : Expr} {s s' : Lifting} (h : expr e s = (e', s')) : s' = s.addAll e.clientValues := by
  rw [← expr_values, h]

theorem lambda?_run {l l' : Option Lambda} {s s' : Lifting} (h : lambda? l s = (l', s')) :
    s' = s.addAll (Lambda.clientValues? l) := by
  rw [← lambda?_values, h]

theorem records_run {fields : List String} {elements : List Record} {c : LocalRows} {s s' : Lifting}
    (h : collection (.records fields elements) s = .ok (c, s')) :
    ∃ rows, recordRows fields 0 elements = .ok rows ∧ c = .parameter (liftedName "rows" s.next) fields ∧
      s' = s.addAll [("rows", .rows rows)] := by
  simp only [collection, fallible_bind, fallible_lift, fallible_surely, fallible_pure] at h
  obtain ⟨rows, _, ⟨found, rfl⟩, name, _, added, rfl, rfl⟩ := h
  obtain ⟨rfl, rfl⟩ := Prod.mk.inj added
  exact ⟨rows, found, rfl, rfl⟩

theorem collection_run {c c' : LocalRows} {s s' : Lifting} (h : collection c s = .ok (c', s')) :
    s' = s.addAll c.clientValues := by
  cases c with
  | parameter =>
    obtain ⟨rfl, rfl⟩ := fallible_pure.1 h
    rfl
  | records fields elements =>
    obtain ⟨rows, found, rfl, rfl⟩ := records_run h
    simp [LocalRows.clientValues, found]

theorem query_run {q q' : Query} {s s' : Lifting} (h : query q s = .ok (q', s')) :
    s' = s.addAll q.clientValues := by
  induction q generalizing q' s s' with
  | set entity =>
    obtain ⟨rfl, rfl⟩ := fallible_pure.1 h
    rfl
  | rows c =>
    simp only [query, fallible_bind, fallible_pure] at h
    obtain ⟨_, _, lifted, rfl, rfl⟩ := h
    exact collection_run lifted
  | filter input l ih | map input l ih | orderBy input l _ ih | groupBy input l ih =>
    simp only [query, fallible_bind, fallible_surely, fallible_pure] at h
    obtain ⟨_, _, first, _, _, second, rfl, rfl⟩ := h
    rw [Query.clientValues, addAll_append, ← ih first, lambda_run second]
  | take input e ih | skip input e ih =>
    simp only [query, fallible_bind, fallible_surely, fallible_pure] at h
    obtain ⟨_, _, first, _, _, second, rfl, rfl⟩ := h
    rw [Query.clientValues, addAll_append, ← ih first, expr_run second]
  | join outer inner outerKey innerKey result iho ihi =>
    simp only [query, fallible_bind, fallible_surely, fallible_pure] at h
    obtain ⟨_, _, first, _, _, second, _, _, third, _, _, fourth, _, _, fifth, rfl, rfl⟩ := h
    simp only [Query.clientValues, addAll_append]
    rw [← iho first, ← ihi second, ← lambda_run third, ← lambda_run fourth, lambda_run fifth]
  | union left right ihl ihr =>
    simp only [query, fallible_bind, fallible_pure] at h
    obtain ⟨_, _, first, _, _, second, rfl, rfl⟩ := h
    rw [Query.clientValues, addAll_append, ← ihl first, ihr second]

theorem query?_run {q q' : Option Query} {s s' : Lifting} (h : query? q s = .ok (q', s')) :
    s' = s.addAll (q.elim [] Query.clientValues) := by
  cases q with
  | none =>
    obtain ⟨rfl, rfl⟩ := fallible_pure.1 h
    rfl
  | some q =>
    simp only [query?, fallible_bind, fallible_pure] at h
    obtain ⟨_, _, run, rfl, rfl⟩ := h
    exact query_run run

theorem mutation_run {m m' : Mutation} {s s' : Lifting} (h : mutation m s = .ok (m', s')) :
    s' = s.addAll m.clientValues := by
  cases m with
  | delete q | insertInto q _ =>
    simp only [mutation, fallible_bind, fallible_pure] at h
    obtain ⟨_, _, first, rfl, rfl⟩ := h
    exact query_run first
  | update q set =>
    simp only [mutation, fallible_bind, fallible_surely, fallible_pure] at h
    obtain ⟨_, _, first, _, _, second, rfl, rfl⟩ := h
    rw [Mutation.clientValues, addAll_append, ← query_run first, lambda_run second]
  | updateJoin outer inner outerKey innerKey set condition =>
    simp only [mutation, fallible_bind, fallible_surely, fallible_pure] at h
    obtain ⟨_, _, first, _, _, second, _, _, third, _, _, fourth, _, _, fifth, _, _, sixth, rfl, rfl⟩ := h
    simp only [Mutation.clientValues, addAll_append]
    rw [← query_run first, ← query_run second, ← lambda_run third, ← lambda_run fourth, ← lambda_run fifth,
      lambda?_run sixth]
  | upsert target source inserted updated =>
    simp only [mutation, fallible_bind, fallible_surely, fallible_pure] at h
    obtain ⟨_, _, first, _, _, second, _, _, third, rfl, rfl⟩ := h
    simp only [Mutation.clientValues, addAll_append]
    rw [← query?_run first, ← lambda_run second, lambda?_run third]
  | merge target source targetKey sourceKey updated inserted delete =>
    simp only [mutation, fallible_bind, fallible_surely, fallible_pure] at h
    obtain ⟨_, _, first, _, _, second, _, _, third, _, _, fourth, _, _, fifth, rfl, rfl⟩ := h
    simp only [Mutation.clientValues, addAll_append]
    rw [← query_run first, ← lambda_run second, ← lambda_run third, ← lambda?_run fourth, lambda?_run fifth]

end Lifting

/-! ## Numbered names -/

theorem underscore_not_mem (n : Nat) : '_' ∉ (toString n).toList := by
  intro member
  rw [Nat.toString_eq_ofList_toDigits, String.toList_ofList] at member
  have digit := Nat.isDigit_of_mem_toDigits (by decide) (by decide) member
  cases digit

theorem append_separator_inj {α : Type} {x : α} {as bs cs ds : List α} (first : x ∉ cs) (second : x ∉ ds)
    (h : as ++ x :: cs = bs ++ x :: ds) : as = bs ∧ cs = ds := by
  rcases List.append_eq_append_iff.1 h with ⟨es, rfl, same⟩ | ⟨es, rfl, same⟩ <;> cases es with
  | nil => simpa [eq_comm] using same
  | cons e es =>
    obtain ⟨rfl, rfl⟩ := List.cons.inj same
    simp at first second

theorem numbered_inj {a b : String} {i j : Nat} (h : a ++ "_" ++ toString i = b ++ "_" ++ toString j) :
    a = b ∧ i = j := by
  have lists : a.toList ++ '_' :: (toString i).toList = b.toList ++ '_' :: (toString j).toList := by
    simpa [String.append_assoc] using congrArg String.toList h
  obtain ⟨bases, numbers⟩ := append_separator_inj (underscore_not_mem i) (underscore_not_mem j) lists
  exact ⟨String.toList_inj.1 bases, Planning.eq_of_numbered_eq (congrArg ("" ++ ·) (String.toList_inj.1 numbers))⟩

namespace Lifting

theorem liftedName_inj {hint hint' : String} {n n' : Nat} (h : liftedName hint n = liftedName hint' n') :
    hint = hint' ∧ n = n' := by
  obtain ⟨names, numbers⟩ := numbered_inj h
  exact ⟨by simpa using names, numbers⟩

def Numbered (s : Lifting) : Prop :=
  ∀ name p, s.values.find? name = some p → ∃ hint n, n < s.next ∧ name = liftedName hint n

theorem numbered_empty : Numbered {} := by
  rintro name p ⟨⟩

theorem Numbered.insert {s : Lifting} (numbered : s.Numbered) (hint : String) (p : Parameter) :
    Numbered ⟨s.values.insert (liftedName hint s.next) p, s.next + 1⟩ := by
  intro name q found
  rw [Parameters.find?_insert] at found
  split at found
  next same => exact ⟨hint, s.next, Nat.lt_succ_self _, same⟩
  next =>
    obtain ⟨hint', n, less, rfl⟩ := numbered name q found
    exact ⟨hint', n, Nat.lt_succ_of_lt less, rfl⟩

theorem find?_addAll {s : Lifting} (numbered : s.Numbered) (vs : List (String × Parameter)) (name : String)
    (p : Parameter) :
    (s.addAll vs).values.find? name = some p ↔
      s.values.find? name = some p ∨ ∃ n hint, vs[n]? = some (hint, p) ∧ name = liftedName hint (s.next + n) := by
  induction vs generalizing s with
  | nil => simp [addAll]
  | cons v rest ih =>
    obtain ⟨hint, q⟩ := v
    rw [addAll, ih (numbered.insert hint q), Parameters.find?_insert]
    by_cases same : name = liftedName hint s.next
    · subst same
      -- no earlier and no later value has this name
      have before : s.values.find? (liftedName hint s.next) ≠ some p := fun found => by
        obtain ⟨hint', n, less, same⟩ := numbered _ _ found
        have := (liftedName_inj same).2
        omega
      simp only [if_true, before, false_or]
      constructor
      · rintro (found | ⟨n, hint', _, same⟩)
        · exact ⟨0, hint, by simpa using found, rfl⟩
        · have := (liftedName_inj same).2
          omega
      · rintro ⟨n, hint', found, same⟩
        obtain ⟨rfl, number⟩ := liftedName_inj same
        obtain rfl : n = 0 := by omega
        exact .inl (by simpa using found)
    · simp only [same, if_false]
      refine or_congr_right ⟨?_, ?_⟩
      · rintro ⟨n, hint', found, rfl⟩
        exact ⟨n + 1, hint', found, by rw [Nat.add_right_comm, Nat.add_assoc]⟩
      · rintro ⟨n, hint', found, rfl⟩
        cases n with
        | zero =>
          obtain ⟨rfl, rfl⟩ := Prod.mk.inj (Option.some.inj found)
          exact absurd rfl same
        | succ n => exact ⟨n, hint', found, by rw [Nat.add_right_comm, Nat.add_assoc]⟩

theorem Numbered.addAll {s : Lifting} (numbered : s.Numbered) (vs : List (String × Parameter)) :
    (s.addAll vs).Numbered := by
  induction vs generalizing s with
  | nil => exact numbered
  | cons v rest ih => exact ih (numbered.insert v.1 v.2)

/-! ## Collections -/

theorem recordRows_eq_ok {fields : List String} {index : Nat} {elements : List Record} {rows : List Row}
    (h : recordRows fields index elements = .ok rows) :
    rows = elements.map (fun r => r.fields.map Prod.snd) ∧ ∀ r ∈ elements, r.fields.map Prod.fst = fields := by
  induction elements generalizing index rows with
  | nil =>
    obtain rfl := Except.ok.inj h
    simp
  | cons r rest ih =>
    obtain ⟨row, values, h⟩ := bind_eq_ok.1 h
    obtain ⟨rows, later, h⟩ := bind_eq_ok.1 h
    obtain rfl := pure_eq_ok.1 h
    obtain ⟨rfl, same⟩ := ih later
    unfold recordValues at values
    split at values
    next => cases values
    next =>
      dsimp only at values
      split at values
      next names =>
        obtain rfl := Except.ok.inj values
        exact ⟨rfl, List.forall_mem_cons.2 ⟨names, same⟩⟩
      next => cases values

/-- A collection of the client becomes a parameter that holds the values of its elements. -/
def LiftedTo (ps : Parameters) : LocalRows → LocalRows → Prop
  | .records fields elements, c =>
    ∃ name, c = .parameter name fields ∧ ps.rows name = .ok (elements.map fun r => r.fields.map Prod.snd)
  | .parameter name fields, c => c = .parameter name fields

def Uniform : LocalRows → Prop
  | .records fields elements => ∀ r ∈ elements, r.fields.map Prod.fst = fields
  | .parameter .. => True

theorem LiftedTo.later {s : Lifting} (numbered : s.Numbered) (vs : List (String × Parameter)) {c c' : LocalRows}
    (h : LiftedTo s.values c c') : LiftedTo (s.addAll vs).values c c' := by
  cases c with
  | parameter => exact h
  | records fields elements =>
    obtain ⟨name, rfl, held⟩ := h
    exact ⟨name, rfl, Parameters.rows_eq_ok.2 ((find?_addAll numbered vs _ _).2 (.inl (Parameters.rows_eq_ok.1 held)))⟩

def CollectedAs (ps : Parameters) (c c' : LocalRows) : Prop :=
  LiftedTo ps c c' ∧ Uniform c

section

variable {s t : Lifting}

theorem later_collections (numbered : s.Numbered) (vs : List (String × Parameter)) {cs cs' : List LocalRows}
    (h : List.Forall₂ (CollectedAs s.values) cs cs') : List.Forall₂ (CollectedAs (s.addAll vs).values) cs cs' :=
  h.imp fun _ _ => And.imp_left (LiftedTo.later numbered vs)

theorem both_collections {q r q' r' : Query} {u : Lifting} (numbered : t.Numbered)
    (second : query r t = .ok (r', u)) (lefts : List.Forall₂ (CollectedAs t.values) q.collections q'.collections)
    (rights : List.Forall₂ (CollectedAs u.values) r.collections r'.collections) :
    List.Forall₂ (CollectedAs u.values) (q.collections ++ r.collections) (q'.collections ++ r'.collections) := by
  have lefts := later_collections numbered r.clientValues lefts
  rw [← query_run second] at lefts
  exact List.rel_append lefts rights

theorem query_collections {q q' : Query} (numbered : s.Numbered) (h : query q s = .ok (q', t)) :
    List.Forall₂ (CollectedAs t.values) q.collections q'.collections := by
  induction q generalizing q' s t with
  | set entity =>
    obtain ⟨rfl, rfl⟩ := fallible_pure.1 h
    exact .nil
  | rows c =>
    simp only [query, fallible_bind, fallible_pure] at h
    obtain ⟨c', _, lifted, rfl, rfl⟩ := h
    refine .cons ?_ .nil
    cases c with
    | parameter =>
      obtain ⟨rfl, rfl⟩ := fallible_pure.1 lifted
      exact ⟨rfl, trivial⟩
    | records fields elements =>
      obtain ⟨rows, found, rfl, rfl⟩ := records_run lifted
      -- the records become the rows of a new parameter, under the name that the collection keeps
      obtain ⟨rfl, uniform⟩ := recordRows_eq_ok found
      exact ⟨⟨_, rfl, Parameters.rows_eq_ok.2 ((find?_addAll numbered _ _ _).2 (.inr ⟨0, "rows", rfl, rfl⟩))⟩, uniform⟩
  | filter input l ih | map input l ih | orderBy input l _ ih | groupBy input l ih =>
    simp only [query, fallible_bind, fallible_surely, fallible_pure] at h
    obtain ⟨_, u, first, _, _, second, rfl, rfl⟩ := h
    have after : u.Numbered := query_run first ▸ numbered.addAll _
    rw [lambda_run second]
    have inputs := ih numbered first
    exact later_collections after _ inputs
  | take input e ih | skip input e ih =>
    simp only [query, fallible_bind, fallible_surely, fallible_pure] at h
    obtain ⟨_, u, first, _, _, second, rfl, rfl⟩ := h
    have after : u.Numbered := query_run first ▸ numbered.addAll _
    rw [expr_run second]
    have inputs := ih numbered first
    exact later_collections after _ inputs
  | join outer inner outerKey innerKey result iho ihi =>
    simp only [query, fallible_bind, fallible_surely, fallible_pure] at h
    obtain ⟨_, u, first, _, v, second, _, _, third, _, _, fourth, _, _, fifth, rfl, rfl⟩ := h
    have after : u.Numbered := query_run first ▸ numbered.addAll _
    have last : v.Numbered := query_run second ▸ after.addAll _
    have inputs := both_collections after second (iho numbered first) (ihi after second)
    rw [lambda_run fifth, lambda_run fourth, lambda_run third, ← addAll_append, ← addAll_append]
    exact later_collections last _ inputs
  | union left right ihl ihr =>
    simp only [query, fallible_bind, fallible_pure] at h
    obtain ⟨_, u, first, _, _, second, rfl, rfl⟩ := h
    have after : u.Numbered := query_run first ▸ numbered.addAll _
    have inputs := both_collections after second (ihl numbered first) (ihr after second)
    exact inputs

theorem mutation_collections {m m' : Mutation} (numbered : s.Numbered) (h : mutation m s = .ok (m', t)) :
    List.Forall₂ (CollectedAs t.values) m.collections m'.collections := by
  cases m with
  | delete q | insertInto q _ =>
    simp only [mutation, fallible_bind, fallible_pure] at h
    obtain ⟨_, _, first, rfl, rfl⟩ := h
    have inputs := query_collections numbered first
    exact inputs
  | update q set =>
    simp only [mutation, fallible_bind, fallible_surely, fallible_pure] at h
    obtain ⟨_, u, first, _, _, second, rfl, rfl⟩ := h
    have after : u.Numbered := query_run first ▸ numbered.addAll _
    have inputs := query_collections numbered first
    rw [lambda_run second]
    exact later_collections after _ inputs
  | updateJoin outer inner outerKey innerKey set condition =>
    simp only [mutation, fallible_bind, fallible_surely, fallible_pure] at h
    obtain ⟨_, u, first, _, v, second, _, _, third, _, _, fourth, _, _, fifth, _, _, sixth, rfl, rfl⟩ := h
    -- parameters are only added, so what an earlier part has collected is found again later
    have after : u.Numbered := query_run first ▸ numbered.addAll _
    have last : v.Numbered := query_run second ▸ after.addAll _
    have inputs := both_collections after second (query_collections numbered first) (query_collections after second)
    rw [lambda?_run sixth, lambda_run fifth, lambda_run fourth, lambda_run third, ← addAll_append, ← addAll_append,
      ← addAll_append]
    exact later_collections last _ inputs
  | upsert target source inserted updated =>
    simp only [mutation, fallible_bind, fallible_surely, fallible_pure] at h
    obtain ⟨source', u, first, _, _, second, _, _, third, rfl, rfl⟩ := h
    have after : u.Numbered := query?_run first ▸ numbered.addAll _
    rw [lambda?_run third, lambda_run second, ← addAll_append]
    refine later_collections after _ ?_
    cases source with
    | none =>
      obtain ⟨rfl, rfl⟩ := fallible_pure.1 first
      exact .nil
    | some q =>
      simp only [query?, fallible_bind, fallible_pure] at first
      obtain ⟨_, _, run, rfl, rfl⟩ := first
      have inputs := query_collections numbered run
      exact inputs
  | merge target source targetKey sourceKey updated inserted delete =>
    simp only [mutation, fallible_bind, fallible_surely, fallible_pure] at h
    obtain ⟨_, u, first, _, _, second, _, _, third, _, _, fourth, _, _, fifth, rfl, rfl⟩ := h
    have after : u.Numbered := query_run first ▸ numbered.addAll _
    have inputs := query_collections numbered first
    rw [lambda?_run fifth, lambda?_run fourth, lambda_run third, lambda_run second, ← addAll_append, ← addAll_append,
      ← addAll_append]
    exact later_collections after _ inputs

end

end Lifting

namespace Client.Mutation

variable {m form : Mutation} {ps : Parameters}

theorem lift_eq_ok (h : m.lift = .ok (form, ps)) : ∃ s, Lifting.mutation m {} = .ok (form, s) ∧ s.values = ps := by
  obtain ⟨⟨form', s⟩, run, h⟩ := bind_eq_ok.1 h
  obtain ⟨rfl, rfl⟩ := Prod.mk.inj (pure_eq_ok.1 h)
  exact ⟨s, run, rfl⟩

theorem collections_collected (h : m.lift = .ok (form, ps)) :
    List.Forall₂ (Lifting.CollectedAs ps) m.collections form.collections := by
  obtain ⟨s, run, rfl⟩ := lift_eq_ok h
  exact Lifting.mutation_collections Lifting.numbered_empty run

theorem collections_lifted (h : m.lift = .ok (form, ps)) :
    List.Forall₂ (Lifting.LiftedTo ps) m.collections form.collections :=
  (collections_collected h).imp fun _ _ => And.left

/-- The n-th client value of a mutation is what the lifted name with that number holds, and nothing else is
held. -/
theorem find?_lifted (h : m.lift = .ok (form, ps)) (name : String) (p : Parameter) :
    ps.find? name = some p ↔ ∃ n hint, m.clientValues[n]? = some (hint, p) ∧ name = Lifting.liftedName hint n := by
  obtain ⟨s, run, rfl⟩ := lift_eq_ok h
  rw [Lifting.mutation_run run, Lifting.find?_addAll Lifting.numbered_empty]
  simp [Parameters.find?]

end Client.Mutation

end Setwise
