import Setwise.Proofs.Blanking

/-!
Lifting loses nothing.

The form of a mutation names the n-th client value by its number, so that no name comes up twice, and the parameters hold
exactly the client values. Putting the captured values and the records back in the place of their names gives the mutation
again, and the form depends on nothing else (`lifting_is_lossless`).
-/

set_option autoImplicit false

namespace Setwise

open Client

/-! ## Names -/

namespace Lifting

def namesFrom (n : Nat) (vs : List (String × Parameter)) : List String :=
  (vs.zipIdx n).map fun v => liftedName v.1.1 v.2

theorem namesFrom_append (n : Nat) (vs ws : List (String × Parameter)) :
    namesFrom n (vs ++ ws) = namesFrom n vs ++ namesFrom (n + vs.length) ws := by
  simp [namesFrom, List.zipIdx_append]

theorem namesFrom_length (n : Nat) (vs : List (String × Parameter)) : (namesFrom n vs).length = vs.length := by
  simp [namesFrom]

theorem not_mem_of_numbered {s : Lifting} (numbered : s.Numbered) (hint : String) :
    liftedName hint s.next ∉ s.values.entries.map Prod.fst := by
  intro member
  obtain ⟨e, among, same⟩ := List.mem_map.1 member
  obtain ⟨p, found⟩ : ∃ p, s.values.find? e.1 = some p := by
    cases found : s.values.find? e.1 with
    | some p => exact ⟨p, rfl⟩
    | none => simpa using List.lookup_eq_none_iff.1 found e among
  -- an earlier value would have a smaller number
  obtain ⟨hint', n, less, named⟩ := numbered _ _ found
  have := (liftedName_inj (same.symm.trans named)).2
  omega

theorem addAll_names {s : Lifting} (numbered : s.Numbered) (vs : List (String × Parameter)) :
    (s.addAll vs).values.entries.map Prod.fst = s.values.entries.map Prod.fst ++ namesFrom s.next vs := by
  induction vs generalizing s with
  | nil => simp [addAll, namesFrom]
  | cons v rest ih =>
    rw [addAll, ih (numbered.insert v.1 v.2)]
    change (Parameters.setEntry _ _ s.values.entries).map Prod.fst ++ namesFrom (s.next + 1) rest = _
    rw [Parameters.setEntry_names, if_neg (not_mem_of_numbered numbered v.1)]
    simp [namesFrom]

/-! ## The client value behind a name -/

def hintOf (name : String) : String :=
  String.ofList (((name.toList.reverse.dropWhile (· ≠ '_')).drop 1).reverse.drop 2)

theorem hintOf_liftedName (hint : String) (n : Nat) : hintOf (liftedName hint n) = hint := by
  have digits : ∀ c ∈ (toString n).toList.reverse, (decide (c ≠ '_')) = true := by
    intro c member
    have other : c ≠ '_' := fun same => underscore_not_mem n (same ▸ List.mem_reverse.1 member)
    simpa using other
  have name : (liftedName hint n).toList.reverse =
      (toString n).toList.reverse ++ '_' :: (hint.toList.reverse ++ ['_', '_']) := by
    simp [liftedName]
  unfold hintOf
  rw [name, List.dropWhile_append_of_pos digits]
  simp

/-! ## Expressions put back -/

def RestoredBy (capture : String → Value → Expr) (back : String → Expr) (s : Lifting) : Prop :=
  ∀ hint n v, s.values.find? (liftedName hint n) = some (.scalar v) → back (liftedName hint n) = capture hint v

section

variable {capture : String → Value → Expr} {back : String → Expr} {s t : Lifting}

theorem RestoredBy.earlier (numbered : s.Numbered) (vs : List (String × Parameter))
    (h : RestoredBy capture back (s.addAll vs)) : RestoredBy capture back s := fun hint n v found =>
  h hint n v ((find?_addAll numbered vs _ _).2 (.inl found))

theorem RestoredBy.before (numbered : s.Numbered) {e : Expr} (h : RestoredBy capture back (expr e s).2) :
    RestoredBy capture back s := by
  rw [expr_values] at h
  exact h.earlier numbered e.clientValues

mutual

theorem expr_restored {s : Lifting} (numbered : s.Numbered) (e : Expr)
    (later : RestoredBy capture back (expr e s).2) (own : ∀ name ∈ e.parameterNames, back name = .runtime name) :
    (expr e s).1.replace .captured back = e.replace capture .runtime := by
  match e with
  | .param _ | .constant _ => rfl
  | .runtime name => exact own name (List.mem_singleton_self name)
  | .captured hint v =>
    apply later hint s.next v
    change (s.values.insert (liftedName hint s.next) (.scalar v)).find? _ = _
    rw [Parameters.find?_insert, if_pos rfl]
  | .member of name => exact congrArg (Expr.member · name) (expr_restored numbered of later own)
  | .not operand => exact congrArg Expr.not (expr_restored numbered operand later own)
  | .binary l op r =>
    have parts := List.forall_mem_append.1 own
    have after := numbered.expr l
    exact congrArg₂ (Expr.binary · op ·) (expr_restored numbered l (later.before after) parts.1)
      (expr_restored after r later parts.2)
  | .conditional test a b =>
    have parts := List.forall_mem_append.1 own
    have first := List.forall_mem_append.1 parts.1
    -- the three parts are lifted in turn, each with the parameters of those before it
    have tested := numbered.expr test
    have behind := later.before (tested.expr a)
    have branches := congrArg₂ (Expr.conditional ((expr test s).1.replace .captured back))
      (expr_restored tested a behind first.2) (expr_restored (tested.expr a) b later parts.2)
    have tests := expr_restored numbered test (behind.before tested) first.1
    exact branches.trans (congrArg (Expr.conditional · _ _) tests)
  | .new type args bindings =>
    have parts := List.forall_mem_append.1 own
    have after : (exprs args s).2.Numbered := exprs_values args s ▸ numbered.addAll _
    have arguments := later
    change RestoredBy capture back (bindingList bindings (exprs args s).2).2 at arguments
    rw [bindingList_values] at arguments
    exact congrArg₂ (Expr.new type) (exprs_restored numbered args (arguments.earlier after _) parts.1)
      (bindingList_restored after bindings later parts.2)

theorem exprs_restored {s : Lifting} (numbered : s.Numbered) (es : List Expr)
    (later : RestoredBy capture back (exprs es s).2)
    (own : ∀ name ∈ Expr.parameterNamesOfList es, back name = .runtime name) :
    Expr.replaceList .captured back (exprs es s).1 = Expr.replaceList capture .runtime es := by
  match es with
  | [] => rfl
  | e :: rest =>
    have parts := List.forall_mem_append.1 own
    have after := numbered.expr e
    have first := later
    change RestoredBy capture back (exprs rest (expr e s).2).2 at first
    rw [exprs_values] at first
    exact congrArg₂ List.cons (expr_restored numbered e (first.earlier after _) parts.1)
      (exprs_restored after rest later parts.2)

theorem bindingList_restored {s : Lifting} (numbered : s.Numbered) (bs : List (Binding Expr))
    (later : RestoredBy capture back (bindingList bs s).2)
    (own : ∀ name ∈ Expr.parameterNamesOfBindings bs, back name = .runtime name) :
    Expr.replaceBindings .captured back (bindingList bs s).1 = Expr.replaceBindings capture .runtime bs := by
  match bs with
  | [] => rfl
  | b :: rest =>
    have parts := List.forall_mem_append.1 own
    have after : (binding b s).2.Numbered := binding_values b s ▸ numbered.addAll _
    have first := later
    change RestoredBy capture back (bindingList rest (binding b s).2).2 at first
    rw [bindingList_values] at first
    exact congrArg₂ List.cons (binding_restored numbered b (first.earlier after _) parts.1)
      (bindingList_restored after rest later parts.2)

theorem binding_restored {s : Lifting} (numbered : s.Numbered) (b : Binding Expr)
    (later : RestoredBy capture back (binding b s).2)
    (own : ∀ name ∈ Expr.parameterNamesOfBinding b, back name = .runtime name) :
    Expr.replaceBinding .captured back (binding b s).1 = Expr.replaceBinding capture .runtime b := by
  match b with
  | .assign member value => exact congrArg (Binding.assign member) (expr_restored numbered value later own)
  | .items member values => exact congrArg (Binding.items member) (exprs_restored numbered values later own)

end

mutual

theorem expr_names (e : Expr) (s : Lifting) (own : e.parameterNames = []) :
    (expr e s).1.parameterNames = namesFrom s.next e.clientValues := by
  match e with
  | .param _ | .constant _ | .captured .. => rfl
  | .runtime _ => cases own
  | .member of name => exact expr_names of s own
  | .not operand => exact expr_names operand s own
  | .binary l op r =>
    have parts := List.append_eq_nil_iff.1 own
    -- the right operand is numbered on from the left one
    change (expr l s).1.parameterNames ++ (expr r (expr l s).2).1.parameterNames = _
    rw [expr_names l s parts.1, expr_names r _ parts.2, expr_values, addAll_next, ← namesFrom_append]
    rfl
  | .conditional test a b =>
    have parts := List.append_eq_nil_iff.1 own
    have first := List.append_eq_nil_iff.1 parts.1
    change (expr test s).1.parameterNames ++ (expr a (expr test s).2).1.parameterNames ++
      (expr b (expr a (expr test s).2).2).1.parameterNames = _
    rw [expr_names test s first.1, expr_names a _ first.2, expr_names b _ parts.2]
    simp only [expr_values, addAll_next, Expr.clientValues, namesFrom_append, List.length_append, Nat.add_assoc]
  | .new type args bindings =>
    have parts := List.append_eq_nil_iff.1 own
    change Expr.parameterNamesOfList (exprs args s).1 ++
      Expr.parameterNamesOfBindings (bindingList bindings (exprs args s).2).1 = _
    rw [exprs_names args s parts.1, bindingList_names bindings _ parts.2, exprs_values, addAll_next, ← namesFrom_append]
    rfl

theorem exprs_names (es : List Expr) (s : Lifting) (own : Expr.parameterNamesOfList es = []) :
    Expr.parameterNamesOfList (exprs es s).1 = namesFrom s.next (Expr.clientValuesAll es) := by
  match es with
  | [] => rfl
  | e :: rest =>
    have parts := List.append_eq_nil_iff.1 own
    change (expr e s).1.parameterNames ++ Expr.parameterNamesOfList (exprs rest (expr e s).2).1 = _
    rw [expr_names e s parts.1, exprs_names rest _ parts.2, expr_values, addAll_next, ← namesFrom_append]
    rfl

theorem bindingList_names (bs : List (Binding Expr)) (s : Lifting) (own : Expr.parameterNamesOfBindings bs = []) :
    Expr.parameterNamesOfBindings (bindingList bs s).1 = namesFrom s.next (Expr.clientValuesOfBindings bs) := by
  match bs with
  | [] => rfl
  | b :: rest =>
    have parts := List.append_eq_nil_iff.1 own
    change Expr.parameterNamesOfBinding (binding b s).1 ++
      Expr.parameterNamesOfBindings (bindingList rest (binding b s).2).1 = _
    rw [binding_names b s parts.1, bindingList_names rest _ parts.2, binding_values, addAll_next, ← namesFrom_append]
    rfl

theorem binding_names (b : Binding Expr) (s : Lifting) (own : Expr.parameterNamesOfBinding b = []) :
    Expr.parameterNamesOfBinding (binding b s).1 = namesFrom s.next (Expr.clientValuesOfBinding b) := by
  match b with
  | .assign member value => exact expr_names value s own
  | .items member values => exact exprs_names values s own

end

end

/-! ## Queries and mutations put back -/

def Fits (fields : List String) (r : Record) : Prop :=
  r.type = none ∧ r.fields.map Prod.fst = fields

/-- The records of a collection are anonymous and have its fields. -/
def Shaped : LocalRows → Prop
  | .records fields elements => ∀ r ∈ elements, Fits fields r
  | .parameter .. => True

theorem recordValues_eq_ok {fields : List String} {index : Nat} {r : Record} {row : Row} :
    recordValues fields index r = .ok row ↔ Fits fields r ∧ row = r.fields.map Prod.snd := by
  unfold recordValues Fits
  split
  next type named => simp [named]
  next anonymous =>
    by_cases same : r.fields.map Prod.fst = fields
    · simp [anonymous, same, eq_comm]
    · simp [same]

theorem recordRows_succeeds {fields : List String} (index : Nat) {elements : List Record} :
    (∃ rows, recordRows fields index elements = .ok rows) ↔ ∀ r ∈ elements, Fits fields r := by
  induction elements generalizing index with
  | nil => simp [recordRows]
  | cons r rest ih =>
    simp only [recordRows, bind_eq_ok, pure_eq_ok, recordValues_eq_ok, List.forall_mem_cons]
    rw [← ih (index + 1)]
    constructor
    · rintro ⟨_, _, ⟨fits, -⟩, rows, later, -⟩
      exact ⟨fits, rows, later⟩
    · rintro ⟨fits, rows, later⟩
      exact ⟨_, _, ⟨fits, rfl⟩, rows, later, rfl⟩

def recordOf (fields : List String) (row : Row) : Record :=
  ⟨none, fields.zip row⟩

/-- Single values and rows of a state are put back in the places of their names. -/
structure Undoes (back : String → Expr) (records : LocalRows → LocalRows) (s : Lifting) : Prop where
  values : RestoredBy .captured back s
  rows : ∀ name fields rows, s.values.find? name = some (.rows rows) →
    records (.parameter name fields) = .records fields (rows.map (recordOf fields))

section

variable {back : String → Expr} {records : LocalRows → LocalRows} {s t : Lifting}

theorem Undoes.earlier (numbered : s.Numbered) {vs : List (String × Parameter)}
    (h : Undoes back records (s.addAll vs)) : Undoes back records s where
  values := h.values.earlier numbered vs
  rows := fun name fields rows found => h.rows name fields rows ((find?_addAll numbered vs _ _).2 (.inl found))

variable (back records) in
/-- A traversal from one state to another adds some values and their names, and what it leads to is as said once these
are put back. -/
structure Returned (s t : Lifting) (names : List String) (values : List (String × Parameter)) (restored : Prop) :
    Prop where
  added : t = s.addAll values
  numbered : t.Numbered
  names : names = namesFrom s.next values
  restored : Undoes back records t → restored

theorem Returned.imp {names : List String} {values : List (String × Parameter)} {P Q : Prop}
    (h : Returned back records s t names values P) (more : P → Q) : Returned back records s t names values Q :=
  { h with restored := fun undoes => more (h.restored undoes) }

theorem Returned.and {u : Lifting} {names names' : List String} {values values' : List (String × Parameter)} {P Q : Prop}
    (first : Returned back records s u names values P)
    (second : u.Numbered → Returned back records u t names' values' Q) :
    Returned back records s t (names ++ names') (values ++ values') (P ∧ Q) := by
  obtain ⟨rfl, numbered, rfl, before⟩ := first
  obtain ⟨rfl, later, rfl, behind⟩ := second numbered
  refine ⟨(addAll_append ..).symm, later, ?_, fun undoes => ⟨before (undoes.earlier numbered), behind undoes⟩⟩
  rw [addAll_next, ← namesFrom_append]

theorem expr_back {e e' : Expr} (own : e.parameterNames = []) (run : expr e s = (e', t)) (numbered : s.Numbered) :
    Returned back records s t e'.parameterNames e.clientValues (e'.replace .captured back = e) := by
  obtain ⟨rfl, rfl⟩ := Prod.mk.inj run
  refine ⟨expr_values e s, numbered.expr e, expr_names e s own, fun undoes => ?_⟩
  rw [expr_restored numbered e undoes.values (by simp [own])]
  exact e.replace_unnamed fun _ _ => rfl

theorem lambda_back {l l' : Lambda} (own : l.body.parameterNames = []) (run : lambda l s = (l', t))
    (numbered : s.Numbered) :
    Returned back records s t l'.body.parameterNames l.body.clientValues
      (l'.rewrite (Expr.replace .captured back) = l) := by
  obtain ⟨rfl, rfl⟩ := Prod.mk.inj run
  exact (expr_back own rfl numbered).imp (congrArg (Lambda.mk l.params))

theorem lambda?_back {l l' : Option Lambda} (own : Lambda.parameterNames? l = []) (run : lambda? l s = (l', t))
    (numbered : s.Numbered) :
    Returned back records s t (Lambda.parameterNames? l') (Lambda.clientValues? l)
      (l'.map (Lambda.rewrite (Expr.replace .captured back)) = l) := by
  cases l with
  | none =>
    obtain ⟨rfl, rfl⟩ := Prod.mk.inj run
    exact ⟨rfl, numbered, rfl, fun _ => rfl⟩
  | some l =>
    obtain ⟨rfl, rfl⟩ := Prod.mk.inj run
    exact (lambda_back own rfl numbered).imp (congrArg some)

theorem collection_back {c c' : LocalRows} (own : c.parameterNames = []) (run : collection c s = .ok (c', t))
    (numbered : s.Numbered) :
    Returned back records s t c'.parameterNames c.clientValues (records c' = c) := by
  have added := collection_run run
  cases c with
  | parameter => cases own
  | records fields elements =>
    obtain ⟨rows, found, rfl, rfl⟩ := records_run run
    have fits := (recordRows_succeeds 0).1 ⟨rows, found⟩
    obtain ⟨rfl, -⟩ := recordRows_eq_ok found
    refine ⟨added, numbered.addAll _, ?_, fun undoes => ?_⟩
    · simp [LocalRows.parameterNames, LocalRows.clientValues, found, namesFrom]
    · have held := undoes.rows _ fields _ ((find?_addAll numbered _ _ _).2 (.inr ⟨0, "rows", rfl, rfl⟩))
      refine held.trans ?_
      rw [List.map_map]
      refine congrArg (LocalRows.records fields) ((List.map_congr_left fun r member => ?_).trans (List.map_id elements))
      obtain ⟨anonymous, names⟩ := fits r member
      cases r with
      | mk type entries =>
        obtain rfl := anonymous
        exact congrArg (Record.mk none) (List.zip_of_prod names rfl).symm

theorem query_back {q q' : Query} (own : q.parameterNames = []) (run : query q s = .ok (q', t))
    (numbered : s.Numbered) :
    Returned back records s t q'.parameterNames q.clientValues
      (q'.rewrite (Expr.replace .captured back) records = q) := by
  induction q generalizing q' s t with
  | set entity =>
    obtain ⟨rfl, rfl⟩ := fallible_pure.1 run
    exact ⟨rfl, numbered, rfl, fun _ => rfl⟩
  | rows c =>
    simp only [query, fallible_bind, fallible_pure] at run
    obtain ⟨c', _, lifted, rfl, rfl⟩ := run
    exact (collection_back own lifted numbered).imp (congrArg Query.rows)
  | filter input l ih | map input l ih | orderBy input l _ ih | groupBy input l ih =>
    simp only [query, fallible_bind, fallible_surely, fallible_pure] at run
    obtain ⟨_, _, first, _, _, second, rfl, rfl⟩ := run
    -- no part of the query has parameters of its own, so all that are found come from lifting
    have parts := List.append_eq_nil_iff.1 own
    refine ((ih parts.1 first numbered).and (lambda_back parts.2 second)).imp ?_
    rintro ⟨inputs, bodies⟩
    simp only [Query.rewrite, inputs, bodies]
  | take input e ih | skip input e ih =>
    simp only [query, fallible_bind, fallible_surely, fallible_pure] at run
    obtain ⟨_, _, first, _, _, second, rfl, rfl⟩ := run
    have parts := List.append_eq_nil_iff.1 own
    refine ((ih parts.1 first numbered).and (expr_back parts.2 second)).imp ?_
    rintro ⟨inputs, counts⟩
    simp only [Query.rewrite, inputs, counts]
  | join outer inner outerKey innerKey result iho ihi =>
    simp only [query, fallible_bind, fallible_surely, fallible_pure] at run
    obtain ⟨_, _, first, _, _, second, _, _, third, _, _, fourth, _, _, fifth, rfl, rfl⟩ := run
    simp only [Query.parameterNames, List.append_eq_nil_iff] at own
    obtain ⟨⟨⟨⟨outers, inners⟩, outerKeys⟩, innerKeys⟩, results⟩ := own
    refine (((((iho outers first numbered).and (ihi inners second)).and (lambda_back outerKeys third)).and
      (lambda_back innerKeys fourth)).and (lambda_back results fifth)).imp ?_
    rintro ⟨⟨⟨⟨outers, inners⟩, outerKeys⟩, innerKeys⟩, results⟩
    simp only [Query.rewrite, outers, inners, outerKeys, innerKeys, results]
  | union left right ihl ihr =>
    simp only [query, fallible_bind, fallible_pure] at run
    obtain ⟨_, _, first, _, _, second, rfl, rfl⟩ := run
    have parts := List.append_eq_nil_iff.1 own
    refine ((ihl parts.1 first numbered).and (ihr parts.2 second)).imp ?_
    rintro ⟨lefts, rights⟩
    simp only [Query.rewrite, lefts, rights]

theorem query?_back {q q' : Option Query} (own : q.elim [] Query.parameterNames = []) (run : query? q s = .ok (q', t))
    (numbered : s.Numbered) :
    Returned back records s t (q'.elim [] Query.parameterNames) (q.elim [] Query.clientValues)
      (q'.map (Query.rewrite (Expr.replace .captured back) records) = q) := by
  cases q with
  | none =>
    obtain ⟨rfl, rfl⟩ := fallible_pure.1 run
    exact ⟨rfl, numbered, rfl, fun _ => rfl⟩
  | some q =>
    simp only [query?, fallible_bind, fallible_pure] at run
    obtain ⟨_, _, lifted, rfl, rfl⟩ := run
    exact (query_back own lifted numbered).imp (congrArg some)

theorem mutation_back {m m' : Mutation} (own : m.parameterNames = []) (run : mutation m s = .ok (m', t))
    (numbered : s.Numbered) :
    Returned back records s t m'.parameterNames m.clientValues
      (m'.rewrite (Expr.replace .captured back) records = m) := by
  cases m with
  | delete q | insertInto q target =>
    simp only [mutation, fallible_bind, fallible_pure] at run
    obtain ⟨_, _, first, rfl, rfl⟩ := run
    refine (query_back own first numbered).imp fun queries => ?_
    simp only [Mutation.rewrite, queries]
  | update q set =>
    simp only [mutation, fallible_bind, fallible_surely, fallible_pure] at run
    obtain ⟨_, _, first, _, _, second, rfl, rfl⟩ := run
    have parts := List.append_eq_nil_iff.1 own
    refine ((query_back parts.1 first numbered).and (lambda_back parts.2 second)).imp ?_
    rintro ⟨queries, sets⟩
    simp only [Mutation.rewrite, queries, sets]
  | updateJoin outer inner outerKey innerKey set condition =>
    simp only [mutation, fallible_bind, fallible_surely, fallible_pure] at run
    obtain ⟨_, _, first, _, _, second, _, _, third, _, _, fourth, _, _, fifth, _, _, sixth, rfl, rfl⟩ := run
    simp only [Mutation.parameterNames, List.append_eq_nil_iff] at own
    -- each part returns what was lifted from it, behind the parameters of the parts before it
    obtain ⟨⟨⟨⟨⟨outers, inners⟩, outerKeys⟩, innerKeys⟩, sets⟩, conditions⟩ := own
    refine ((((((query_back outers first numbered).and (query_back inners second)).and
      (lambda_back outerKeys third)).and (lambda_back innerKeys fourth)).and (lambda_back sets fifth)).and
      (lambda?_back conditions sixth)).imp ?_
    rintro ⟨⟨⟨⟨⟨outers, inners⟩, outerKeys⟩, innerKeys⟩, sets⟩, conditions⟩
    simp only [Mutation.rewrite, outers, inners, outerKeys, innerKeys, sets, conditions]
  | upsert target source inserted updated =>
    simp only [mutation, fallible_bind, fallible_surely, fallible_pure] at run
    obtain ⟨_, _, first, _, _, second, _, _, third, rfl, rfl⟩ := run
    simp only [Mutation.parameterNames, List.append_eq_nil_iff] at own
    obtain ⟨⟨sources, inserts⟩, updates⟩ := own
    refine (((query?_back sources first numbered).and (lambda_back inserts second)).and
      (lambda?_back updates third)).imp ?_
    rintro ⟨⟨sources, inserts⟩, updates⟩
    simp only [Mutation.rewrite, sources, inserts, updates]
  | merge target source targetKey sourceKey updated inserted deleted =>
    simp only [mutation, fallible_bind, fallible_surely, fallible_pure] at run
    obtain ⟨_, _, first, _, _, second, _, _, third, _, _, fourth, _, _, fifth, rfl, rfl⟩ := run
    simp only [Mutation.parameterNames, List.append_eq_nil_iff] at own
    obtain ⟨⟨⟨⟨sources, targetKeys⟩, sourceKeys⟩, updates⟩, inserts⟩ := own
    refine (((((query_back sources first numbered).and (lambda_back targetKeys second)).and
      (lambda_back sourceKeys third)).and (lambda?_back updates fourth)).and (lambda?_back inserts fifth)).imp ?_
    rintro ⟨⟨⟨⟨sources, targetKeys⟩, sourceKeys⟩, updates⟩, inserts⟩
    simp only [Mutation.rewrite, sources, targetKeys, sourceKeys, updates, inserts]

end

/-! ## When lifting fails -/

section

variable {α β : Type}

def SucceedsIff (x : Fallible α) (P : Prop) : Prop :=
  ∀ s, (∃ r, x s = .ok r) ↔ P

theorem SucceedsIff.surely {x : StateM Lifting α} : SucceedsIff (surely x) True :=
  fun s => iff_of_true ⟨x s, rfl⟩ trivial

theorem SucceedsIff.bind {x : Fallible α} {f : α → Fallible β} {P Q : Prop} (first : SucceedsIff x P)
    (next : ∀ a, SucceedsIff (f a) Q) : SucceedsIff (x >>= f) (P ∧ Q) := by
  intro s
  rw [← first s]
  constructor
  · rintro ⟨⟨b, t⟩, run⟩
    obtain ⟨a, u, here, later⟩ := fallible_bind.1 run
    exact ⟨⟨_, here⟩, (next a u).1 ⟨_, later⟩⟩
  · rintro ⟨⟨⟨a, u⟩, here⟩, holds⟩
    obtain ⟨⟨b, t⟩, later⟩ := (next a u).2 holds
    exact ⟨_, fallible_bind.2 ⟨a, u, here, later⟩⟩

theorem SucceedsIff.then {x : Fallible α} {f : α → Fallible β} {P : Prop} (first : SucceedsIff x P)
    (next : ∀ a, SucceedsIff (f a) True) : SucceedsIff (x >>= f) P := by
  have both := first.bind next
  rwa [and_true] at both

theorem SucceedsIff.behind {x : StateM Lifting α} {f : α → Fallible β} {P : Prop} (next : ∀ a, SucceedsIff (f a) P) :
    SucceedsIff (Lifting.surely x >>= f) P := by
  have both := (SucceedsIff.surely (x := x)).bind next
  rwa [true_and] at both

theorem SucceedsIff.pure (a : α) : SucceedsIff (Pure.pure a) True :=
  SucceedsIff.surely (x := Pure.pure a)

theorem collection_succeeds (c : LocalRows) : SucceedsIff (collection c) (Shaped c) := by
  cases c with
  | parameter => exact .pure _
  | records fields elements =>
    have rows : SucceedsIff (liftM (recordRows fields 0 elements) : Fallible (List Row)) (∀ r ∈ elements, Fits fields r) := by
      intro s
      rw [← recordRows_succeeds 0]
      simp only [Prod.exists, fallible_lift]
      constructor
      · rintro ⟨rows, _, found, _⟩
        exact ⟨rows, found⟩
      · rintro ⟨rows, found⟩
        exact ⟨rows, s, found, rfl⟩
    exact rows.then fun _ => .behind fun _ => .pure _

theorem query_succeeds (q : Query) : SucceedsIff (query q) (∀ c ∈ q.collections, Shaped c) := by
  induction q with
  | set entity =>
    have none : ∀ c ∈ (Query.set entity).collections, Shaped c := by simp [Query.collections]
    rw [eq_true none]
    exact .pure _
  | rows c =>
    have only : (∀ d ∈ (Query.rows c).collections, Shaped d) = Shaped c := by simp [Query.collections]
    rw [only]
    exact (collection_succeeds c).then fun _ => .pure _
  | filter input l ih | map input l ih | orderBy input l _ ih | groupBy input l ih | take input e ih | skip input e ih =>
    exact ih.then fun _ => .behind fun _ => .pure _
  | join outer inner outerKey innerKey result iho ihi =>
    simp only [Query.collections, List.forall_mem_append]
    exact iho.bind fun _ => ihi.then fun _ => .behind fun _ => .behind fun _ => .behind fun _ => .pure _
  | union left right ihl ihr =>
    simp only [Query.collections, List.forall_mem_append]
    exact ihl.bind fun _ => ihr.then fun _ => .pure _

theorem mutation_succeeds (m : Mutation) : SucceedsIff (mutation m) (∀ c ∈ m.collections, Shaped c) := by
  cases m with
  | delete q | insertInto q _ => exact (query_succeeds q).then fun _ => .pure _
  | update q set => exact (query_succeeds q).then fun _ => .behind fun _ => .pure _
  | updateJoin outer inner outerKey innerKey set condition =>
    simp only [Mutation.collections, List.forall_mem_append]
    exact (query_succeeds outer).bind fun _ => (query_succeeds inner).then fun _ => .behind fun _ => .behind fun _ =>
      .behind fun _ => .behind fun _ => .pure _
  | upsert target source inserted updated =>
    have sources : SucceedsIff (query? source) (∀ c ∈ source.elim [] Query.collections, Shaped c) := by
      cases source with
      | none =>
        simp only [Option.elim, List.not_mem_nil, false_implies, implies_true]
        exact .pure _
      | some q => exact (query_succeeds q).then fun _ => .pure _
    exact sources.then fun _ => .behind fun _ => .behind fun _ => .pure _
  | merge target source targetKey sourceKey updated inserted deleted =>
    exact (query_succeeds source).then fun _ => .behind fun _ => .behind fun _ => .behind fun _ => .behind fun _ =>
      .pure _

end

end Lifting

namespace Client

/-! ## The number of client values -/

theorem LocalRows.clientValues_length {c : LocalRows} (own : c.parameterNames = []) (shaped : Lifting.Shaped c) :
    c.clientValues.length = 1 := by
  cases c with
  | parameter => cases own
  | records fields elements =>
    obtain ⟨rows, found⟩ := (Lifting.recordRows_succeeds 0).2 shaped
    simp [LocalRows.clientValues, found]

theorem Query.clientValues_length {q : Query} (own : q.parameterNames = [])
    (shaped : ∀ c ∈ q.collections, Lifting.Shaped c) :
    q.clientValues.length = (q.expressions.flatMap Expr.clientValues).length + q.collections.length := by
  induction q with
  | set => rfl
  | rows c => exact LocalRows.clientValues_length own (shaped c (List.mem_singleton_self c))
  | filter input l ih | map input l ih | orderBy input l _ ih | groupBy input l ih | take input e ih | skip input e ih =>
    -- each operator adds the values of its expression behind those of its input
    have input := ih (List.append_eq_nil_iff.1 own).1 shaped
    simp only [Query.clientValues, Query.expressions, Query.collections, List.flatMap_append, List.flatMap_cons,
      List.flatMap_nil, List.length_append, List.length_nil, input]
    omega
  | join outer inner outerKey innerKey result iho ihi =>
    simp only [Query.parameterNames, List.append_eq_nil_iff] at own
    have sides := List.forall_mem_append.1 shaped
    have outers := iho own.1.1.1.1 sides.1
    have inners := ihi own.1.1.1.2 sides.2
    simp only [Query.clientValues, Query.expressions, Query.collections, List.flatMap_append, List.flatMap_cons,
      List.flatMap_nil, List.length_append, List.length_nil, outers, inners]
    omega
  | union left right ihl ihr =>
    have own := List.append_eq_nil_iff.1 own
    have sides := List.forall_mem_append.1 shaped
    have lefts := ihl own.1 sides.1
    have rights := ihr own.2 sides.2
    simp only [Query.clientValues, Query.expressions, Query.collections, List.flatMap_append, List.length_append, lefts,
      rights]
    omega

theorem Mutation.clientValues_length {m : Mutation} (own : m.parameterNames = [])
    (shaped : ∀ c ∈ m.collections, Lifting.Shaped c) :
    m.clientValues.length = (m.expressions.flatMap Expr.clientValues).length + m.collections.length := by
  -- an absent lambda has no values, and neither has its absent body
  have bodies (l : Option Lambda) :
      Lambda.clientValues? l = (l.toList.map Lambda.body).flatMap Expr.clientValues := by
    cases l <;> simp [Lambda.clientValues?]
  cases m with
  | delete q | insertInto q target => exact Query.clientValues_length own shaped
  | update q set =>
    have queries := Query.clientValues_length (List.append_eq_nil_iff.1 own).1 shaped
    simp only [Mutation.clientValues, Mutation.expressions, Mutation.collections, List.flatMap_append, List.flatMap_cons,
      List.flatMap_nil, List.length_append, List.length_nil, queries]
    omega
  | updateJoin outer inner outerKey innerKey set condition =>
    simp only [Mutation.parameterNames, List.append_eq_nil_iff] at own
    have sides := List.forall_mem_append.1 shaped
    have outers := Query.clientValues_length own.1.1.1.1.1 sides.1
    have inners := Query.clientValues_length own.1.1.1.1.2 sides.2
    simp only [Mutation.clientValues, Mutation.expressions, Mutation.collections, List.flatMap_append, List.flatMap_cons,
      List.flatMap_nil, List.length_append, List.length_nil, outers, inners, bodies]
    omega
  | upsert target source inserted updated =>
    simp only [Mutation.parameterNames, List.append_eq_nil_iff] at own
    have sources : (source.elim [] Query.clientValues).length =
        ((source.elim [] Query.expressions).flatMap Expr.clientValues).length +
          (source.elim [] Query.collections).length := by
      cases source with
      | none => rfl
      | some q => exact Query.clientValues_length own.1.1 shaped
    simp only [Mutation.clientValues, Mutation.expressions, Mutation.collections, List.flatMap_append, List.flatMap_cons,
      List.flatMap_nil, List.length_append, List.length_nil, sources, bodies]
    omega
  | merge target source targetKey sourceKey updated inserted deleted =>
    simp only [Mutation.parameterNames, List.append_eq_nil_iff] at own
    have sources := Query.clientValues_length own.1.1.1.1 shaped
    simp only [Mutation.clientValues, Mutation.expressions, Mutation.collections, List.flatMap_append, List.flatMap_cons,
      List.flatMap_nil, List.length_append, List.length_nil, sources, bodies]
    omega

end Client

/-! ## Values put back in their places -/

def Parameters.capturedFor (ps : Parameters) (name : String) : Expr :=
  match ps.scalar name with
  | .ok v => .captured (Lifting.hintOf name) v
  | .error _ => .runtime name

def Parameters.recordsFor (ps : Parameters) : LocalRows → LocalRows
  | .records fields elements => .records fields elements
  | .parameter name fields =>
    match ps.rows name with
    | .ok rows => .records fields (rows.map (Lifting.recordOf fields))
    | .error _ => .parameter name fields

namespace Client

/-- The values of parameters in the places of their names. -/
def Mutation.restore (m : Mutation) (ps : Parameters) : Mutation :=
  m.rewrite (Expr.replace .captured ps.capturedFor) ps.recordsFor

def LocalRows.outline : LocalRows → LocalRows
  | .records fields _ => .records fields []
  | .parameter name fields => .parameter name fields

/-- What is left of a mutation without its captured values and its records. -/
def Mutation.outline (m : Mutation) : Mutation :=
  m.rewrite Expr.blank LocalRows.outline

end Client

theorem Parameters.undoes (s : Lifting) : Lifting.Undoes s.values.capturedFor s.values.recordsFor s where
  values := by
    intro hint n v found
    simp only [capturedFor, Parameters.scalar_eq_ok.2 found, Lifting.hintOf_liftedName]
  rows := by
    intro name fields rows found
    simp only [recordsFor, Parameters.rows_eq_ok.2 found]

namespace Client.Mutation

variable {m form : Mutation} {ps : Parameters}

theorem lift_succeeds : (∃ r, m.lift = .ok r) ↔ ∀ c ∈ m.collections, Lifting.Shaped c := by
  rw [← Lifting.mutation_succeeds m {}]
  unfold lift
  cases Lifting.mutation m {} with
  | error e => exact iff_of_false nofun nofun
  | ok r => exact iff_of_true ⟨_, rfl⟩ ⟨r, rfl⟩

theorem lift_fails : (∃ e, m.lift = .error e) ↔ ∃ fields elements, .records fields elements ∈ m.collections ∧
    ∃ r ∈ elements, r.type ≠ none ∨ r.fields.map Prod.fst ≠ fields := by
  have failed : (∃ e, m.lift = .error e) ↔ ¬ ∃ r, m.lift = .ok r := by
    cases m.lift <;> simp
  rw [failed, lift_succeeds]
  constructor
  · intro misshaped
    push Not at misshaped
    obtain ⟨c, member, misfit⟩ := misshaped
    cases c with
    | parameter => exact absurd trivial misfit
    | records fields elements =>
      simp only [Lifting.Shaped, Lifting.Fits, not_forall] at misfit
      obtain ⟨r, among, misfit⟩ := misfit
      exact ⟨fields, elements, member, r, among, not_and_or.1 misfit⟩
  · rintro ⟨fields, elements, member, r, among, misfit⟩ shaped
    exact not_and_or.2 misfit (shaped _ member r among)

theorem lift_outline (h : m.lift = .ok (form, ps)) : ∃ ps', m.outline.lift = .ok (form, ps') := by
  have rows : ∀ c ∈ m.collections,
      Lifting.Blanked (fun _ => []) (Lifting.collection c) (Lifting.collection c.outline) := by
    intro c member
    have shaped := lift_succeeds.1 ⟨_, h⟩ c member
    cases c with
    | parameter name fields => exact Lifting.parameter_blank name fields
    | records fields elements =>
      obtain ⟨rows, found⟩ := (Lifting.recordRows_succeeds 0).2 shaped
      exact Lifting.records_blank (by rw [found]; rfl)
  have lifted := m.lift_blank rows
  rw [h] at lifted
  exact ⟨_, lifted⟩

/-- Lifting gives every client value a name of its own and loses nothing: with the values in the places of their names, the
form is the mutation again, and it is the form of every mutation that differs in client values only. Lifting fails
exactly if a collection has an element with a type name or with other fields. -/
theorem lifting_is_lossless (m : Mutation) (own : m.parameterNames = []) :
    ((∃ e, m.lift = .error e) ↔ ∃ fields elements, .records fields elements ∈ m.collections ∧
      ∃ r ∈ elements, r.type ≠ none ∨ r.fields.map Prod.fst ≠ fields) ∧
    ∀ form ps, m.lift = .ok (form, ps) →
      form.parameterNames = ps.entries.map Prod.fst ∧ form.parameterNames.Nodup ∧
      ps.size = (m.expressions.flatMap Expr.clientValues).length + m.collections.length ∧
      form.restore ps = m ∧
      ∀ m' : Mutation, m'.outline = m.outline → (∀ c ∈ m'.collections, Lifting.Shaped c) →
        ∃ ps', m'.lift = .ok (form, ps') := by
  refine ⟨lift_fails, fun form ps lifted => ?_⟩
  obtain ⟨s, run, rfl⟩ := lift_eq_ok lifted
  have returned : Lifting.Returned s.values.capturedFor s.values.recordsFor {} s form.parameterNames m.clientValues
      (form.restore s.values = m) := Lifting.mutation_back own run Lifting.numbered_empty
  have held : s.values.entries.map Prod.fst = form.parameterNames := by
    rw [returned.added, Lifting.addAll_names Lifting.numbered_empty, returned.names]
    rfl
  have size : s.values.size = m.clientValues.length :=
    calc s.values.size = (s.values.entries.map Prod.fst).length := (List.length_map _).symm
      _ = (Lifting.namesFrom 0 m.clientValues).length := by rw [held, returned.names]
      _ = m.clientValues.length := Lifting.namesFrom_length 0 _
  have counted := clientValues_length own (lift_succeeds.1 ⟨_, lifted⟩)
  refine ⟨held.symm, held ▸ s.values.distinct, size.trans counted, returned.restored (Parameters.undoes s), fun m' same shaped => ?_⟩
  -- both mutations have the form of what they have in common
  obtain ⟨⟨form', ps'⟩, lifted'⟩ := lift_succeeds.2 shaped
  obtain ⟨qs, outline⟩ := lift_outline lifted
  obtain ⟨qs', outline'⟩ := lift_outline lifted'
  rw [same, outline] at outline'
  obtain ⟨rfl, -⟩ := Prod.mk.inj (Except.ok.inj outline')
  exact ⟨ps', lifted'⟩

/-- Two records, counted by captured values whose names contain underscores and digits. -/
def recount : Mutation :=
  .insertInto
    (.map (.rows (.records ["Id"] [⟨none, [("Id", .int 1)]⟩, ⟨none, [("Id", .int 2)]⟩]))
      ⟨["r"], .new (some "Item") [] [.assign "Id" (.member (.param "r") "Id"),
        .assign "Value" (.binary (.captured "by_1" (.int 7)) .add (.captured "by" (.int 5)))]⟩)
    "Item"

/-- The three client values of the recount have names of their own and come back to their places. -/
theorem recount_restored : recount.parameterNames = [] ∧ ∃ form ps, recount.lift = .ok (form, ps) ∧
    form.parameterNames = ["__rows_0", "__by_1_1", "__by_2"] ∧ form.parameterNames.Nodup ∧ ps.size = 3 ∧
    form.restore ps = recount := by
  refine ⟨by decide, _, _, rfl, by decide, ?_⟩
  obtain ⟨-, lossless⟩ := lifting_is_lossless recount (by decide)
  obtain ⟨-, distinct, size, restored, -⟩ := lossless _ _ rfl
  exact ⟨distinct, size, restored⟩

end Client.Mutation

end Setwise
