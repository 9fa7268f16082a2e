import Setwise.Operation
import Setwise.Proofs.AgreeingSelects
import Setwise.Proofs.Conditions
import Setwise.Proofs.Fallbacks
import Setwise.Proofs.Initialisers
import Setwise.Proofs.LiftedValues
import Setwise.Proofs.MergedRows
import Setwise.Proofs.RootQueries

/-!
Full merges reconcile a table with a collection.

A merge that deletes what has no match compares properties of its target with members of a collection of the client
(`KeyPairs`). Preparation keeps what matters of it (`Reconciling`), planning makes equations of columns of the keys and
assignments of the inserts (`Settles`), binding counts the elements or empties the table if there are none, and the run
leaves rows that equal elements on the pairs, and one for every element (`full_merges_reconcile`).
-/

set_option autoImplicit false

namespace Setwise

open Client Relational Planning

/-! ## Keys of a merge -/

namespace Client

def membersOf (p : String) (members : List (String × String)) : List (Binding Expr) :=
  members.map fun (field, member) => .assign field (.member (.param p) member)

/-- Keys that read members of the two elements, and the pairs that are compared: one member of each, or the fields of
two records by their names. -/
inductive KeyPairs : Lambda → Lambda → List (String × String) → Prop where
  | single (t s key member : String) :
      KeyPairs ⟨[t], .member (.param t) key⟩ ⟨[s], .member (.param s) member⟩ [(key, member)]
  | record (t s : String) (type type' : Option String) {keys members pairs : List (String × String)}
      (paired : List.Forall₂ (fun key pair => pair.1 = key.2 ∧ members.lookup key.1 = some pair.2) keys pairs) :
      KeyPairs ⟨[t], .new type [] (membersOf t keys)⟩ ⟨[s], .new type' [] (membersOf s members)⟩ pairs

structure Expr.Plain (e : Expr) : Prop where
  lifts : ∀ s, Lifting.expr e s = (e, s)
  folds : e.fold = .ok e

theorem Expr.Plain.lambda {l : Lambda} (h : l.body.Plain) (s : Lifting) : Lifting.lambda l s = (l, s) := by
  change (fun x => (({ l with body := x.1 } : Lambda), x.2)) (Lifting.expr l.body s) = _
  rw [h.lifts]

theorem Expr.Plain.lambda_fold {l : Lambda} (h : l.body.Plain) : l.fold = .ok l := by
  unfold Lambda.fold
  rw [h.folds]
  rfl

theorem plain_member (p member : String) : Expr.Plain (.member (.param p) member) :=
  ⟨fun _ => rfl, rfl⟩

theorem lift_membersOf (p : String) (members : List (String × String)) (s : Lifting) :
    Lifting.bindingList (membersOf p members) s = (membersOf p members, s) := by
  induction members with
  | nil => rfl
  | cons m rest ih =>
    change (fun x => (Binding.assign m.1 (.member (.param p) m.2) :: x.1, x.2))
      (Lifting.bindingList (membersOf p rest) s) = _
    rw [ih]
    rfl

theorem fold_membersOf (p : String) (members : List (String × String)) :
    Expr.foldBindings (membersOf p members) = .ok (membersOf p members) := by
  induction members with
  | nil => rfl
  | cons m rest ih =>
    change (Expr.foldBindings (membersOf p rest)).bind _ = _
    rw [ih]
    rfl

theorem plain_record (p : String) (type : Option String) (members : List (String × String)) :
    Expr.Plain (.new type [] (membersOf p members)) := by
  constructor
  · intro s
    change (fun x => (Expr.new type [] x.1, x.2)) (Lifting.bindingList (membersOf p members) s) = _
    rw [lift_membersOf]
  · change (Expr.foldBindings (membersOf p members)).bind _ = _
    rw [fold_membersOf]
    rfl

theorem KeyPairs.plain {targetKey sourceKey : Lambda} {pairs : List (String × String)}
    (h : KeyPairs targetKey sourceKey pairs) : targetKey.body.Plain ∧ sourceKey.body.Plain := by
  cases h with
  | single t s key member => exact ⟨plain_member t key, plain_member s member⟩
  | record t s type type' => exact ⟨plain_record t type _, plain_record s type' _⟩

theorem assign_lifted {member : String} {value : Expr} (plain : value.Plain) {bs : List (Binding Expr)}
    (inside : .assign member value ∈ bs) (s : Lifting) : .assign member value ∈ (Lifting.bindingList bs s).1 := by
  induction bs generalizing s with
  | nil => cases inside
  | cons b rest ih =>
    change _ ∈ (Lifting.binding b s).1 :: (Lifting.bindingList rest (Lifting.binding b s).2).1
    rcases List.mem_cons.1 inside with rfl | later
    · have here : (Lifting.binding (.assign member value) s).1 = .assign member (Lifting.expr value s).1 := rfl
      rw [here, plain.lifts]
      exact List.mem_cons_self
    · exact List.mem_cons_of_mem _ (ih later _)

theorem assign_folded {member : String} {value : Expr} (plain : value.Plain) {bs bs' : List (Binding Expr)}
    (inside : .assign member value ∈ bs) (h : Expr.foldBindings bs = .ok bs') : .assign member value ∈ bs' := by
  induction bs generalizing bs' with
  | nil => cases inside
  | cons b rest ih =>
    obtain ⟨b', first, h⟩ := bind_eq_ok.1 h
    obtain ⟨rest', second, h⟩ := bind_eq_ok.1 h
    obtain rfl := pure_eq_ok.1 h
    rcases List.mem_cons.1 inside with rfl | later
    · obtain ⟨value', folds, first⟩ := bind_eq_ok.1 first
      obtain rfl := pure_eq_ok.1 first
      obtain rfl := Except.ok.inj (plain.folds.symm.trans folds)
      exact List.mem_cons_self
    · exact List.mem_cons_of_mem _ (ih later second)

/-! ## Merges that can reconcile -/

/-- A merge compares properties of its target with members of its source, inserts assign the ones from the others, and
updates assign none of their columns. -/
structure Reconciling (m : Model) (e : Entity) (targetKey sourceKey : Lambda) (update : Option Lambda) (insert : Lambda)
    (pairs : List (String × String)) : Prop where
  compares : KeyPairs targetKey sourceKey pairs
  inserts : ∃ p type bindings, insert = ⟨[p], .new type [] bindings⟩ ∧
    ∀ pair ∈ pairs, .assign pair.1 (.member (.param p) pair.2) ∈ bindings
  spares : ∀ l ∈ update, ∀ pair ∈ pairs, ∀ p, e.property? pair.1 = some p → p.column ∉ columnsAssigned m e l.body

namespace Reconciling

variable {m : Model} {e : Entity} {targetKey sourceKey insert : Lambda} {update : Option Lambda}
  {pairs : List (String × String)}

theorem lift (h : Reconciling m e targetKey sourceKey update insert pairs) {s s' t t' : Lifting}
    {update' insert' : Option Lambda} (updates : Lifting.lambda? update s = (update', s'))
    (inserts : Lifting.lambda? (some insert) t = (insert', t')) :
    ∃ l, insert' = some l ∧ Reconciling m e targetKey sourceKey update' l pairs := by
  obtain rfl : update' = (Lifting.lambda? update s).1 := congrArg Prod.fst updates.symm
  obtain ⟨p, type, bindings, rfl, assigns⟩ := h.inserts
  refine ⟨(Lifting.lambda ⟨[p], .new type [] bindings⟩ t).1, congrArg Prod.fst inserts.symm, h.compares,
    ⟨p, type, (Lifting.bindingList bindings t).1, rfl, fun pair member =>
      assign_lifted (plain_member p pair.2) (assigns pair member) t⟩, fun l' lifted pair member p property => ?_⟩
  cases update with
  | none => cases lifted
  | some l =>
    obtain rfl := Option.some.inj lifted
    have spared := h.spares l rfl pair member p property
    rwa [← columnsAssigned_lift e l.body s] at spared

theorem fold (h : Reconciling m e targetKey sourceKey update insert pairs) {update' : Option Lambda} {insert' : Lambda}
    (updates : Lambda.foldOption update = .ok update') (inserts : insert.fold = .ok insert') :
    Reconciling m e targetKey sourceKey update' insert' pairs where
  compares := h.compares
  inserts := by
    obtain ⟨p, type, bindings, rfl, assigns⟩ := h.inserts
    obtain ⟨body, folded, inserts⟩ := bind_eq_ok.1 inserts
    obtain rfl := pure_eq_ok.1 inserts
    obtain ⟨bindings', each, folded⟩ := bind_eq_ok.1 folded
    obtain rfl := pure_eq_ok.1 folded
    exact ⟨p, type, bindings', rfl, fun pair member => assign_folded (plain_member p pair.2) (assigns pair member) each⟩
  spares := by
    intro l' folded pair member p property
    cases update with
    | none =>
      obtain rfl := Except.ok.inj updates
      cases folded
    | some l =>
      obtain ⟨_, folds, updates⟩ := bind_eq_ok.1 updates
      obtain rfl := pure_eq_ok.1 updates
      obtain rfl := Option.some.inj folded
      obtain ⟨body, here, folds⟩ := bind_eq_ok.1 folds
      obtain rfl := pure_eq_ok.1 folds
      exact fun inside => h.spares l rfl pair member p property (columnsAssigned_fold e l.body here inside)

theorem prepared (h : Reconciling m e targetKey sourceKey update insert pairs) {target : String} {fields : List String}
    {elements : List Record} {form folded : Mutation} {ps : Parameters}
    (lifted : (Mutation.merge target (.rows (.records fields elements)) targetKey sourceKey update (some insert)
      true).lift = .ok (form, ps)) (folds : form.fold = .ok folded) :
    ∃ name update' insert',
      folded = .merge target (.rows (.parameter name fields)) targetKey sourceKey update' (some insert') true ∧
      ps.rows name = .ok (elements.map fun r => r.fields.map Prod.snd) ∧
      (∀ r ∈ elements, r.fields.map Prod.fst = fields) ∧
      Reconciling m e targetKey sourceKey update' insert' pairs := by
  -- the collection becomes a parameter, the key lambdas have nothing to lift, and the clauses keep what they assign
  have collected := Mutation.collections_collected lifted
  obtain ⟨s, run, rfl⟩ := Mutation.lift_eq_ok lifted
  simp only [Lifting.mutation, Lifting.query, Lifting.fallible_bind, Lifting.fallible_surely,
    Lifting.fallible_pure] at run
  obtain ⟨_, t, ⟨c, _, -, rfl, rfl⟩, targetKey', _, first, sourceKey', _, second, update', _, third, insert', _, fourth,
    rfl, rfl⟩ := run
  obtain ⟨plainTarget, plainSource⟩ := h.compares.plain
  obtain ⟨rfl, rfl⟩ := Prod.mk.inj ((plainTarget.lambda _).symm.trans first)
  obtain ⟨rfl, rfl⟩ := Prod.mk.inj ((plainSource.lambda _).symm.trans second)
  obtain ⟨l, rfl, h⟩ := h.lift third fourth
  obtain ⟨⟨name, rfl, rows⟩, uniform⟩ := (List.forall₂_cons.1 collected).1
  obtain ⟨source, same, folds⟩ := bind_eq_ok.1 folds
  obtain rfl := Except.ok.inj same
  obtain ⟨_, same, folds⟩ := bind_eq_ok.1 folds
  obtain rfl := Except.ok.inj (plainTarget.lambda_fold.symm.trans same)
  obtain ⟨_, same, folds⟩ := bind_eq_ok.1 folds
  obtain rfl := Except.ok.inj (plainSource.lambda_fold.symm.trans same)
  obtain ⟨update', updates, folds⟩ := bind_eq_ok.1 folds
  obtain ⟨_, inserts, folds⟩ := bind_eq_ok.1 folds
  obtain ⟨insert', made, same⟩ := bind_eq_ok.1 inserts
  obtain rfl := pure_eq_ok.1 same
  obtain rfl := pure_eq_ok.1 folds
  exact ⟨name, update', insert', rfl, rows, uniform, h.fold updates made⟩

end Reconciling

end Client

namespace Planning

variable {m : Model} {e : Entity} {label rows : String} {fields : List String} {w w' : Workspace}

/-! ## Keys as columns -/

def rowShape (rows : String) (fields : List String) : Shape :=
  .record (fields.map fun c => (c, .scalar (.column rows c)))

theorem property_of_member (known : m.entity? e.name = some e) {t key : String} {c : Scalar}
    (h : Step.Yields (expr m [(t, .entity { entity := e.name, label })] (.member (.param t) key)) w (.scalar c) w') :
    ∃ p, e.property? key = some p ∧ c = .column label p.column := by
  obtain ⟨r, _, here, h⟩ := member_yields.1 h
  rw [param_yields, List.lookup_cons_self, Option.some.injEq] at here
  obtain ⟨rfl, rfl⟩ := here
  rcases readMember_yields h with ⟨read, -⟩ | ⟨_, _, _, _, _, _, -, followed⟩
  · cases Shape.StaticMember.of_found read with
    | property known' property =>
      obtain rfl := Option.some.inj (known.symm.trans known')
      exact ⟨_, property, rfl⟩
  · obtain ⟨_, other, -⟩ := follow_yields followed
    cases other

theorem column_of_member {s member : String} {shape : Shape}
    (h : Step.Yields (expr m [(s, rowShape rows fields)] (.member (.param s) member)) w shape w') :
    shape = .scalar (.column rows member) := by
  obtain ⟨r, _, here, h⟩ := member_yields.1 h
  rw [param_yields, List.lookup_cons_self, Option.some.injEq] at here
  obtain ⟨rfl, rfl⟩ := here
  rcases readMember_yields h with ⟨read, -⟩ | ⟨_, _, _, _, _, _, reference, -⟩
  · simp only [rowShape, Shape.staticMember?] at read
    have found := mem_of_lookup read
    obtain ⟨c, -, same⟩ := List.mem_map.1 found
    obtain ⟨rfl, rfl⟩ := Prod.mk.inj same
    rfl
  · cases reference.shape

theorem membersOf_yields {scope : Scope} {whole : Expr} {p : String} {members : List (String × String)}
    {fs : List (String × Shape)} (h : Step.Yields (fieldList m scope whole (membersOf p members)) w fs w') :
    List.Forall₂ (fun member f => f.1 = member.1 ∧
      ∃ v v', Step.Yields (expr m scope (.member (.param p) member.2)) v f.2 v') members fs := by
  induction members generalizing w fs w' with
  | nil =>
    obtain ⟨rfl, -⟩ := noFields_yields.1 h
    exact .nil
  | cons member rest ih =>
    change Step.Yields (fieldList m scope whole (.assign member.1 (.member (.param p) member.2) :: membersOf p rest)) w
      fs w' at h
    obtain ⟨_, _, _, here, later, rfl⟩ := assign_yields.1 h
    exact .cons ⟨rfl, _, _, here⟩ (ih later)

theorem member_of_lookup {α β : Type} {R : α → β → Prop} {members : List (String × α)} {fs : List (String × β)}
    (h : List.Forall₂ (fun member f => f.1 = member.1 ∧ R member.2 f.2) members fs) {name : String} {b : β}
    (found : fs.lookup name = some b) : ∃ a, members.lookup name = some a ∧ R a b := by
  induction h with
  | nil => cases found
  | @cons member f _ _ here _ ih =>
    rw [List.lookup_cons] at found ⊢
    rw [← here.1]
    split at found
    next => exact ⟨_, rfl, Option.some.inj found ▸ here.2⟩
    next => exact ih found

/-! ## Equality of keys -/

def Implies (on condition : Scalar) : Prop :=
  ∀ env f, Execution.holds env f on = .ok true → Execution.holds env f condition = .ok true

theorem Implies.refl (on : Scalar) : Implies on on :=
  fun _ _ => id

theorem fieldsEquality_implies {subject : Subject} {fs others : List (String × Shape)} {before : Option Scalar}
    {on : Scalar} (h : Shape.fieldsEquality m subject fs others before = .ok (some on)) :
    (∀ condition ∈ before, Implies on condition) ∧
      ∀ f ∈ fs, ∃ other condition, others.lookup f.1 = some other ∧
        Shape.equality m subject f.2 other = .ok condition ∧ Implies on condition := by
  induction fs generalizing before with
  | nil =>
    obtain rfl := Except.ok.inj h
    refine ⟨fun condition same => ?_, fun _ member => nomatch member⟩
    obtain rfl := Option.some.inj same
    exact .refl on
  | cons f rest ih =>
    obtain ⟨here, first, h⟩ := bind_eq_ok.1 h
    obtain ⟨earlier, later⟩ := ih h
    -- the condition so far holds wherever the whole does, and so does the condition of this field
    have both (env : Execution.Environment) (frame : Execution.Frame) (h : Execution.holds env frame on = .ok true) :
        Execution.holdsOption env frame before = .ok true ∧ Execution.holds env frame here = .ok true := by
      obtain ⟨a, b, left, right, whole⟩ := Execution.holds_both (earlier _ rfl env frame h)
      obtain ⟨rfl, rfl⟩ := Bool.and_eq_true_iff.1 whole.symm
      exact ⟨left, right⟩
    refine ⟨fun condition same env frame h => ?_, List.forall_mem_cons.2 ⟨?_, later⟩⟩
    · have left := (both env frame h).1
      rwa [Option.mem_def.1 same] at left
    · obtain ⟨name, s⟩ := f
      unfold Shape.fieldEquality at first
      split at first
      next other found => exact ⟨other, here, found, first, fun env frame h => (both env frame h).2⟩
      next => exact absurd first (not_fail_eq_ok _ _)

theorem equality_scalar {subject : Subject} {l : Shape} {b on : Scalar}
    (h : Shape.equality m subject l (.scalar b) = .ok on) : ∃ a, l = .scalar a ∧ on = .binary a .equal b := by
  cases Shape.Equated.of_ok h with
  | scalars a _ => exact ⟨a, rfl, rfl⟩

theorem equality_implies {targetKey sourceKey : Lambda} {pairs : List (String × String)}
    (compares : KeyPairs targetKey sourceKey pairs) (known : m.entity? e.name = some e) {subject : Subject}
    {l r : Shape} {on : Scalar} {v v' u u' : Workspace}
    (left : Step.Yields (expr m (targetKey.params.zip [.entity { entity := e.name, label }]) targetKey.body) v l v')
    (right : Step.Yields (expr m (sourceKey.params.zip [rowShape rows fields]) sourceKey.body) u r u')
    (h : Shape.equality m subject l r = .ok on) :
    ∀ pair ∈ pairs, ∃ p, e.property? pair.1 = some p ∧
      Implies on (.binary (.column label p.column) .equal (.column rows pair.2)) := by
  cases compares with
  | single t s key member =>
    intro pair same
    obtain rfl := List.mem_singleton.1 same
    obtain rfl := column_of_member right
    obtain ⟨a, rfl, rfl⟩ := equality_scalar h
    obtain ⟨p, property, rfl⟩ := property_of_member known left
    exact ⟨p, property, .refl _⟩
  | @record t s type type' keys members _ paired =>
    obtain ⟨-, fs, keysPlanned, rfl⟩ := new_yields.1 left
    obtain ⟨-, others, membersPlanned, rfl⟩ := new_yields.1 right
    have left := membersOf_yields keysPlanned
    have right := membersOf_yields membersPlanned
    cases Shape.Equated.of_ok h with
    | records _ all =>
      obtain ⟨-, implied⟩ := fieldsEquality_implies all
      intro pair member
      -- the pair stands at one position in both keys, and the equality compares the members at this position
      obtain ⟨i, at_i⟩ := List.mem_iff_getElem?.1 member
      obtain ⟨key, here, keyed, lookup⟩ := Table.getElem?_of_forall₂ paired at_i
      obtain ⟨f, field, named, _, _, read⟩ := Table.getElem?_of_forall₂ left.flip here
      obtain ⟨other, condition, found, equal, implies⟩ := implied f (List.mem_of_getElem? field)
      obtain ⟨source, lookup', _, _, read'⟩ := member_of_lookup
        (R := fun member shape => ∃ v v', Step.Yields (expr m _ (.member (.param s) member)) v shape v') right found
      rw [named, lookup] at lookup'
      obtain rfl := Option.some.inj lookup'
      obtain rfl := column_of_member read'
      obtain ⟨a, scalar, rfl⟩ := equality_scalar equal
      rw [scalar] at read
      obtain ⟨p, property, rfl⟩ := property_of_member known read
      exact ⟨p, keyed ▸ property, implies⟩

/-! ## Planned merges -/

/-- A planned merge is satisfied by equal values alone, its updates assign none of the compared columns, and its inserts
assign to each of them its counterpart. -/
structure Settles (e : Entity) (label rows : String) (pairs : List (String × String)) (on : Scalar)
    (matched : Option (List Projection)) (inserted : List Projection) : Prop where
  equated : ∀ pair ∈ pairs, ∃ p, e.property? pair.1 = some p ∧
    Implies on (.binary (.column label p.column) .equal (.column rows pair.2))
  spared : ∀ pair ∈ pairs, ∀ p, e.property? pair.1 = some p → p.column ∉ Execution.assignedColumns (matched.getD [])
  distinct : (Execution.assignedColumns inserted).Nodup
  assigned : ∀ pair ∈ pairs, ∀ p, e.property? pair.1 = some p → ⟨p.column, .column rows pair.2⟩ ∈ inserted

section

variable {mutation : Mutation} {l : Lambda} {what : String} {list : List Assignment}

theorem clause_spares {args : List Shape} {update : Option Lambda} {matched : Option (List Projection)}
    (h : ClauseYields m mutation e what args (effectiveUpdate? update) w matched w') {column : String}
    (spares : ∀ l ∈ update, column ∉ columnsAssigned m e l.body) :
    column ∉ Execution.assignedColumns (matched.getD []) := by
  rcases h with ⟨-, rfl, -⟩ | ⟨l, list, fs, effective, rfl, assigns, run⟩
  · exact List.not_mem_nil
  · obtain ⟨-, assigns, -⟩ := assigned_eq_ok assigns
    have columns := (assignInto_extends l.body assigns).columns
    intro inside
    rw [Option.getD_some, Execution.assignedColumns, standaloneFields_names run] at inside
    obtain ⟨a, member, rfl⟩ := List.mem_map.1 inside
    have given : l ∈ update := (Option.filter_eq_some_iff.1 effective).1
    exact spares l given ((columns a member).resolve_left List.not_mem_nil)

theorem clause_assigns {inserted : Option (List Projection)} {p : String} {type : Option String}
    {bindings : List (Binding Expr)}
    (h : ClauseYields m mutation e what [rowShape rows fields] (some ⟨[p], .new type [] bindings⟩) w inserted w') :
    ∃ fs, inserted = some fs ∧ (Execution.assignedColumns fs).Nodup ∧
      ∀ key member, .assign key (.member (.param p) member) ∈ bindings → ∀ property, e.property? key = some property →
        ⟨property.column, .column rows member⟩ ∈ fs := by
  rcases h with ⟨none, -, -⟩ | ⟨l, list, fs, some, rfl, assigns, run⟩
  · cases none
  · obtain rfl := Option.some.inj some
    obtain ⟨-, assigns, -⟩ := assigned_eq_ok assigns
    refine ⟨fs, rfl, ?_, fun key member inside property found => ?_⟩
    · rw [Execution.assignedColumns, standaloneFields_names run]
      exact (assignInto_extends _ assigns).distinct List.nodup_nil
    · obtain ⟨-, -, all⟩ := assignInto_eq_ok assigns
      obtain ⟨_, c, _, read, projected⟩ := standaloneFields_values run (mem_of_binding all inside found)
      obtain rfl := Shape.scalar.inj (column_of_member read)
      exact projected

end

theorem settles_of_reconciling {capabilities : Capabilities} {name target : String}
    {targetKey sourceKey insert : Lambda} {update : Option Lambda} {pairs : List (String × String)}
    (known : m.entity? target = some e)
    (h : Reconciling m e targetKey sourceKey update insert pairs) {plan : Plan}
    (run : Step.Yields (mutationPlan m capabilities
      (.merge target (.rows (.parameter name fields)) targetKey sourceKey update (some insert) true)) w plan w') :
    ∃ label rows on matched inserted, rows ≠ label ∧ Settles e label rows pairs on matched inserted ∧
      plan = writePlan (.merge ⟨e.table, e.schema, label⟩ (.literal ⟨rows, fields, .pending name⟩) on matched
        (some inserted) true) [⟨name, .truncate ⟨e.table, e.schema, label⟩⟩] := by
  obtain ⟨e', table, v, s, u, source, shape, x, l, y, r, z, on, matched, z', inserted, found, new, read, sourced, left,
    right, equal, updated, made, rfl⟩ := merge_yields run
  obtain rfl := Option.some.inj (known.symm.trans (targetEntity_eq_ok found).1)
  obtain ⟨-, shaped, rfl⟩ := newTable_yields new
  simp only [query, localRows, Step.yields_bind, Step.yields_pure] at read
  obtain ⟨rows, _, labelled, rfl, rfl⟩ := read
  obtain ⟨fresh, rfl⟩ := newLabel_yields labelled
  -- rows of a collection alone are joined as they are
  obtain ⟨p, wrapped, select, rfl⟩ := asSource_yields sourced
  rcases wrapIf_yields wrapped with ⟨closed, -⟩ | ⟨-, rfl, rfl⟩
  · cases closed
  obtain rfl := congrArg Select.source select
  have equated := equality_implies h.compares (name_of_entity? known ▸ known) (standalone_yields left).1
    (standalone_yields right).1 equal
  obtain ⟨parameter, type, bindings, rfl, assigns⟩ := h.inserts
  obtain ⟨fs, rfl, distinct, assigned⟩ := clause_assigns (clauseFields_yields made)
  refine ⟨table.label, rows, on, matched, fs, ?_, ⟨equated, ?_, distinct, ?_⟩, ?_⟩
  · rintro rfl
    exact fresh (List.mem_append_right _ (List.mem_singleton_self _))
  · intro pair member property found
    exact clause_spares (clauseFields_yields updated) fun l given => h.spares l given pair member property found
  · exact fun pair member => assigned pair.1 pair.2 (assigns pair member)
  · rw [← shaped]
    rfl

end Planning

namespace Execution

open Planning

/-! ## Rows and elements -/

/-- A stored row equals an element: the property and the member of every pair have values that compare equal. -/
def KeyEqual (e : Entity) (t : Table) (pairs : List (String × String)) (row : Row) (r : Record) : Prop :=
  ∀ pair ∈ pairs, ∃ p i w v, e.property? pair.1 = some p ∧ t.columnIndex p.column = .ok i ∧ row[i]? = some w ∧
    r.fields.lookup pair.2 = some v ∧ w.equates v = true

/-- A member of an element is a real number that is nearest to different integers in two stored rows. -/
def NearestToBoth (e : Entity) (t : Table) (pairs : List (String × String)) (row row' : Row) (r : Record) : Prop :=
  ∃ pair ∈ pairs, ∃ p i v w w', e.property? pair.1 = some p ∧ t.columnIndex p.column = .ok i ∧ row[i]? = some w ∧
    row'[i]? = some w' ∧ r.fields.lookup pair.2 = some v ∧ v.NearestToBoth w w'

def columnPairs (e : Entity) (pairs : List (String × String)) : List (String × String) :=
  pairs.filterMap fun pair => (e.property? pair.1).map fun p => (p.column, pair.2)

theorem mem_columnPairs {e : Entity} {pairs : List (String × String)} {columns : String × String} :
    columns ∈ columnPairs e pairs ↔
      ∃ pair ∈ pairs, ∃ p, e.property? pair.1 = some p ∧ (p.column, pair.2) = columns := by
  simp [columnPairs, List.mem_filterMap]

def elementRows (label : String) (fields : List String) (elements : List Record) : RowSet :=
  ⟨label, fields, elements.map fun r => r.fields.map Prod.snd⟩

theorem columnValue_fields {label name : String} {fields : List (String × Value)} {v : Value} :
    columnValue label (fields.map Prod.fst) (fields.map Prod.snd) name = .ok v ↔ fields.lookup name = some v := by
  induction fields with
  | nil => simp [columnValue]
  | cons f rest ih =>
    obtain ⟨field, value⟩ := f
    unfold columnValue at ih ⊢
    rw [List.map_cons, List.map_cons, List.findIdx?_cons, List.lookup_cons, Bool.beq_comm]
    cases name == field with
    | true => simp
    | false =>
      rw [← ih]
      cases List.findIdx? (fun c => c == name) (rest.map Prod.fst) <;> simp

section

variable {e : Entity} {t : Table} {pairs : List (String × String)} {label : String} {fields : List String}
  {elements : List Record} {row row' : Row} {r : Record}

theorem keyEqual_iff (uniform : r.fields.map Prod.fst = fields)
    (known : ∀ pair ∈ pairs, ∃ p, e.property? pair.1 = some p) :
    EqualOn t (elementRows label fields elements) (columnPairs e pairs) row (r.fields.map Prod.snd) ↔
      KeyEqual e t pairs row r := by
  subst uniform
  constructor
  · intro equal pair member
    obtain ⟨p, property⟩ := known pair member
    obtain ⟨i, w, v, index, stored, value, equates⟩ := equal _ (mem_columnPairs.2 ⟨pair, member, p, property, rfl⟩)
    exact ⟨p, i, w, v, property, index, stored, columnValue_fields.1 value, equates⟩
  · intro equal columns member
    obtain ⟨pair, compared, p, property, rfl⟩ := mem_columnPairs.1 member
    obtain ⟨p', i, w, v, property', index, stored, value, equates⟩ := equal pair compared
    obtain rfl := Option.some.inj (property.symm.trans property')
    exact ⟨i, w, v, index, stored, columnValue_fields.2 value, equates⟩

/-! ## Merges that succeed -/

theorem equalOn_of_meets {label rows : String} {on : Scalar} {matched : Option (List Projection)}
    {inserted : List Projection} (settles : Settles e label rows pairs on matched inserted) (apart : rows ≠ label)
    {env : Environment} (meets : Meets env (.ofTable t label) (elementRows rows fields elements) on row row') :
    EqualOn t (elementRows rows fields elements) (columnPairs e pairs) row row' := by
  intro columns member
  obtain ⟨pair, compared, p, property, rfl⟩ := mem_columnPairs.1 member
  obtain ⟨p', property', implies⟩ := settles.equated pair compared
  obtain rfl := Option.some.inj (property.symm.trans property')
  obtain ⟨w, v, stored, given, equal⟩ := holds_equation (implies _ _ meets)
  unfold eval at stored given
  rw [List.find?_cons_of_pos (by simp [RowSet.visible, RowSet.ofTable])] at stored
  rw [List.find?_cons_of_neg (by simpa [RowSet.visible, RowSet.ofTable] using apart.symm),
    List.find?_cons_of_pos (by simp [RowSet.visible, elementRows])] at given
  obtain ⟨i, index, stored⟩ := Table.columnValue_eq_ok.1 stored
  exact ⟨i, w, v, index, stored, given, equal.symm⟩

theorem settled {label rows : String} {on : Scalar} {matched : Option (List Projection)} {inserted : List Projection}
    (settles : Settles e label rows pairs on matched inserted) (apart : rows ≠ label) (fit : t.RowsFit)
    (uniform : ∀ r ∈ elements, r.fields.map Prod.fst = fields)
    (exact : ∀ pair ∈ pairs, ∀ p i c, e.property? pair.1 = some p → t.columnIndex p.column = .ok i →
      t.columns[i]? = some c → c.type ≠ .real)
    (present : ∀ r ∈ elements, ∀ pair ∈ pairs, r.fields.lookup pair.2 ≠ some .null) {db : Database}
    {parameter : String} {ps : Parameters}
    (held : ps.rows parameter = .ok (elements.map fun r => r.fields.map Prod.snd)) {n : Nat} {u : Table}
    (h : (merge db ⟨ps, none⟩ ⟨e.table, e.schema, label⟩
      (.literal ⟨rows, fields, .resolved parameter elements.length⟩) on matched (some inserted) true).run t =
        (.ok n, u)) :
    u.LaidOutAs t ∧ (∀ row ∈ u.rows, ∃ r ∈ elements, KeyEqual e t pairs row r) ∧
      ∀ r ∈ elements, ∃ row ∈ u.rows, KeyEqual e t pairs row r := by
  have known (pair : String × String) (member : pair ∈ pairs) : ∃ p, e.property? pair.1 = some p :=
    (settles.equated pair member).imp fun _ => And.left
  have read : sourceRows db ⟨ps, none⟩ (.literal ⟨rows, fields, .resolved parameter elements.length⟩) =
      .ok (elementRows rows fields elements) := by
    rw [← List.length_map fun r : Record => r.fields.map Prod.snd]
    exact literalRows_resolved held
  -- what is said of the pairs of members, said of the pairs of columns behind them
  have spared (columns : String × String) (member : columns ∈ columnPairs e pairs) :
      columns.1 ∉ assignedColumns (matched.getD []) := by
    obtain ⟨pair, compared, p, property, rfl⟩ := mem_columnPairs.1 member
    exact settles.spared pair compared p property
  have assigned (columns : String × String) (member : columns ∈ columnPairs e pairs) :
      ⟨columns.1, .column rows columns.2⟩ ∈ inserted := by
    obtain ⟨pair, compared, p, property, rfl⟩ := mem_columnPairs.1 member
    exact settles.assigned pair compared p property
  have exact (columns : String × String) (member : columns ∈ columnPairs e pairs) (i : Nat) (c : Column)
      (index : t.columnIndex columns.1 = .ok i) (column : t.columns[i]? = some c) : c.type ≠ .real := by
    obtain ⟨pair, compared, p, property, rfl⟩ := mem_columnPairs.1 member
    exact exact pair compared p i c property index column
  have present (row : Row) (member : row ∈ (elementRows rows fields elements).rows) (columns : String × String)
      (compared : columns ∈ columnPairs e pairs) : columnValue rows fields row columns.2 ≠ .ok .null := by
    obtain ⟨r, element, rfl⟩ := List.mem_map.1 member
    obtain ⟨pair, given, p, -, rfl⟩ := mem_columnPairs.1 compared
    intro null
    rw [← uniform r element] at null
    exact present r element pair given (columnValue_fields.1 null)
  obtain ⟨laid, each, every⟩ := merge_reconciles read fit (fun _ _ => equalOn_of_meets settles apart) spared
    settles.distinct assigned exact present h
  refine ⟨laid, fun row member => ?_, fun r member => ?_⟩
  · obtain ⟨_, inside, equal⟩ := each row member
    obtain ⟨r, element, rfl⟩ := List.mem_map.1 inside
    exact ⟨r, element, (keyEqual_iff (uniform r element) known).1 equal⟩
  · obtain ⟨row, inside, equal⟩ := every _ (List.mem_map_of_mem member)
    exact ⟨row, inside, (keyEqual_iff (uniform r member) known).1 equal⟩

theorem key_of_declared {m : Model} (laid : t.LaidOutAs (m.tableOf e)) {key : Key} (declared : key ∈ e.keys) :
    ∃ stored ∈ t.keys, stored.name = key.name ∧ ∀ i, i ∈ stored.columns ↔
      ∃ name ∈ key.properties, ∃ p, e.property? name = some p ∧ t.columnIndex p.column = .ok i := by
  obtain ⟨rows, next, rfl⟩ := laid
  have index (column : String) (i : Nat) :
      (m.columns e).findIdx? (fun c => c.column == column) = some i ↔ (m.tableOf e).columnIndex column = .ok i := by
    unfold Table.columnIndex Model.tableOf
    dsimp only
    rw [List.findIdx?_map]
    simp only [Function.comp_def]
    cases (m.columns e).findIdx? fun c => c.column == column <;> simp
  refine ⟨_, List.mem_map_of_mem declared, rfl, fun i => ?_⟩
  simp only [Model.keyColumns, List.mem_filterMap, Option.bind_eq_some_iff]
  exact exists_congr fun name => and_congr_right fun _ => exists_congr fun p => and_congr_right fun _ =>
    index p.column i

/-- Of the rows that equal one element there is one, if the pairs cover a key, unless the element has a real number that
is nearest to integers in two rows. -/
theorem one_row {m : Model} (laid : t.LaidOutAs (m.tableOf e)) (wellFormed : t.WellFormed) {key : Key}
    (declared : key ∈ e.keys) (some : key.properties ≠ [])
    (covered : ∀ name ∈ key.properties, ∃ pair ∈ pairs, pair.1 = name)
    (exact : ∀ pair ∈ pairs, ∀ p i c, e.property? pair.1 = .some p → t.columnIndex p.column = .ok i →
      t.columns[i]? = .some c → c.type ≠ .real) {a b : Nat} (here : t.rows[a]? = .some row)
    (there : t.rows[b]? = .some row') (equal : KeyEqual e t pairs row r) (equal' : KeyEqual e t pairs row' r) :
    a = b ∨ NearestToBoth e t pairs row row' r := by
  obtain ⟨stored, member, -, columns⟩ := key_of_declared laid declared
  -- the key is covered by the pairs, so two rows that equal one element agree on it
  have compared (i : Nat) (inside : i ∈ stored.columns) :
      ∃ pair ∈ columnPairs e pairs, t.columnIndex pair.1 = .ok i := by
    obtain ⟨name, listed, p, property, index⟩ := (columns i).1 inside
    obtain ⟨pair, given, rfl⟩ := covered name listed
    exact ⟨_, mem_columnPairs.2 ⟨pair, given, p, property, rfl⟩, index⟩
  have nonempty : stored.columns ≠ [] := by
    obtain ⟨name, listed⟩ := List.exists_mem_of_ne_nil _ some
    obtain ⟨pair, given, rfl⟩ := covered name listed
    obtain ⟨p, i, w, v, property, index, -⟩ := equal pair given
    exact List.ne_nil_of_mem ((columns i).2 ⟨pair.1, listed, p, property, index⟩)
  have known (pair : String × String) (member : pair ∈ pairs) : ∃ p, e.property? pair.1 = .some p := by
    obtain ⟨p, _, _, _, property, -⟩ := equal pair member
    exact ⟨p, property⟩
  have exact (columns : String × String) (member : columns ∈ columnPairs e pairs) (i : Nat) (c : Column)
      (index : t.columnIndex columns.1 = .ok i) (column : t.columns[i]? = .some c) : c.type ≠ .real := by
    obtain ⟨pair, compared, p, property, rfl⟩ := mem_columnPairs.1 member
    exact exact pair compared p i c property index column
  have equalOn {row : Row} (equal : KeyEqual e t pairs row r) :
      EqualOn t (elementRows "" (r.fields.map Prod.fst) []) (columnPairs e pairs) row (r.fields.map Prod.snd) :=
    (keyEqual_iff rfl known).2 equal
  rcases unique_of_key wellFormed.keysUnique wellFormed.rowsFit member nonempty compared exact here there
    (equalOn equal) (equalOn equal') with same | ⟨columns, inside, i, v, w, w', index, first, second, value, nearest⟩
  · exact .inl same
  · obtain ⟨pair, given, p, property, rfl⟩ := mem_columnPairs.1 inside
    exact .inr ⟨pair, given, p, i, v, w, w', property, index, first, second, columnValue_fields.1 value, nearest⟩

end

/-- A full merge of a collection becomes the deletion of all rows if there are no elements, and a merge of the counted
elements otherwise. -/
theorem bind_fullMerge {parameter : String} {ps : Parameters} {rows : List Row} (held : ps.rows parameter = .ok rows)
    {table : StoredTable} {label : String} {fields : List String} {on : Scalar}
    {matched inserted : Option (List Projection)} {b : Block} (h : Plan.bind
      ⟨.affected (.merge table (.literal ⟨label, fields, .pending parameter⟩) on matched inserted true),
        [⟨parameter, .truncate table⟩]⟩ ps = .ok b) :
    rows = [] ∧ b = .affected (.truncate table) ∨
      b = .affected
        (.merge table (.literal ⟨label, fields, .resolved parameter rows.length⟩) on matched inserted true) := by
  unfold Plan.bind at h
  simp only [emptyStatement?, held] at h
  cases rows with
  | nil => exact .inl ⟨rfl, (pure_eq_ok.1 h).symm⟩
  | cons first rest =>
    refine .inr ?_
    change Block.mapLiteralTables (LiteralTable.resolve ps)
      (.affected (.merge table (.literal ⟨label, fields, .pending parameter⟩) on matched inserted true)) = .ok b at h
    obtain ⟨s, statement, h⟩ := bind_eq_ok.1 h
    obtain ⟨source, literal, statement⟩ := bind_eq_ok.1 statement
    obtain ⟨v, resolved, literal⟩ := bind_eq_ok.1 literal
    obtain rfl := pure_eq_ok.1 h
    obtain rfl := pure_eq_ok.1 statement
    obtain rfl := pure_eq_ok.1 literal
    obtain ⟨_, again, rfl⟩ := resolve_pending resolved
    obtain rfl := Except.ok.inj (held.symm.trans again)
    rfl

theorem run_leaves {db after : Database} {s : Statement} {ps : Parameters} {outcome : Outcome}
    (h : run db (.affected s) ps = (.ok outcome, after)) {name : String} (target : targetTable? s = some name)
    {t : Table} (stored : db.find? name = some t) :
    ∃ n u, (writeChecked db ps s).run t = (.ok n, u) ∧ after.find? name = some u := by
  obtain ⟨n, written, -⟩ := run_affected_eq_ok.1 h
  rcases runWrite_leaves db s ps with ⟨e, failed⟩ | ⟨k, none, -⟩ | ⟨k, before, u, named, found, changed, finished⟩
  · cases (Prod.mk.inj (failed.symm.trans written)).1
  · cases target.symm.trans none
  · obtain ⟨-, rfl⟩ := Prod.mk.inj (finished.symm.trans written)
    obtain rfl := Option.some.inj (target.symm.trans named)
    obtain rfl := Option.some.inj (stored.symm.trans found)
    exact ⟨k, u, changed, db.find?_put_self u⟩

/-- After a full merge that compares properties with members of a collection, inserts the ones from the others and
updates none of their columns, every row equals an element and every element a row, where the elements have values in
these members and the columns are not real. If the properties are a declared key, it is one row for an element, unless
the element has a real number that is nearest to integers in two rows. -/
theorem full_merges_reconcile {c : Planner} (honest : c.Honest) {target : String} {e : Entity}
    (known : c.model.entity? target = some e) {targetKey sourceKey insert : Lambda} {update : Option Lambda}
    {pairs : List (String × String)} (reconciling : Reconciling c.model e targetKey sourceKey update insert pairs)
    {fields : List String} {elements : List Record}
    (present : ∀ r ∈ elements, ∀ pair ∈ pairs, r.fields.lookup pair.2 ≠ some .null) {db : Database}
    (wellFormed : db.WellFormed) {t : Table} (stored : db.find? e.table = some t)
    (exact : ∀ pair ∈ pairs, ∀ p i column, e.property? pair.1 = some p → t.columnIndex p.column = .ok i →
      t.columns[i]? = some column → column.type ≠ .real) {b : Block} {ps : Parameters}
    (prepared : (c.prepare (.merge target (.rows (.records fields elements)) targetKey sourceKey update (some insert)
      true)).1 = .ok (b, ps))
    {outcome : Outcome} {after : Database} (succeeds : run db b ps = (.ok outcome, after)) :
    ∃ u, after.find? e.table = some u ∧ u.LaidOutAs t ∧
      (∀ row ∈ u.rows, ∃ r ∈ elements, KeyEqual e u pairs row r) ∧
      (∀ r ∈ elements, ∃ row ∈ u.rows, KeyEqual e u pairs row r) ∧
      (t.LaidOutAs (c.model.tableOf e) → ∀ key ∈ e.keys, key.properties ≠ [] →
        (∀ name ∈ key.properties, ∃ pair ∈ pairs, pair.1 = name) →
        ∀ (a b : Nat) row row' r, u.rows[a]? = some row → u.rows[b]? = some row' → KeyEqual e u pairs row r →
          KeyEqual e u pairs row' r → a = b ∨ NearestToBoth e u pairs row row' r) := by
  obtain ⟨plan, planned, bound⟩ := Planner.prepare_eq_ok prepared
  obtain ⟨form, folded, made, w, lifted, folds, run, rfl⟩ := honest.folded planned
  obtain ⟨parameter, update', insert', rfl, held, uniform, reconciling⟩ := reconciling.prepared lifted folds
  obtain ⟨label, rows, on, matched, inserted, apart, settles, rfl⟩ := settles_of_reconciling known reconciling run
  have fit := (wellFormed.tables _ _ stored).2.rowsFit
  obtain ⟨u, found, laid, each, every, checked⟩ : ∃ u, after.find? e.table = some u ∧ u.LaidOutAs t ∧
      (∀ row ∈ u.rows, ∃ r ∈ elements, KeyEqual e t pairs row r) ∧
      (∀ r ∈ elements, ∃ row ∈ u.rows, KeyEqual e t pairs row r) ∧ u.WellFormed := by
    -- an empty collection empties the table; otherwise the merge runs
    rcases bind_fullMerge held bound with ⟨empty, rfl⟩ | rfl
    all_goals
      obtain ⟨n, u, written, found⟩ := run_leaves succeeds rfl stored
      have checked := wellFormed_of_writeChecked fit written
      have written := (writeChecked_eq_ok.1 written).1
    · obtain ⟨-, rfl⟩ := Prod.mk.inj written
      obtain rfl := List.map_eq_nil_iff.1 empty
      exact ⟨_, found, ⟨[], t.nextIdentity, rfl⟩, fun _ member => (nomatch member), fun _ member => (nomatch member),
        checked⟩
    · rw [List.length_map] at written
      obtain ⟨laid, each, every⟩ := settled settles apart fit uniform exact present held written
      exact ⟨u, found, laid, each, every, checked⟩
  refine ⟨u, found, laid, ?_⟩
  obtain ⟨stored, next, rfl⟩ := laid
  refine ⟨each, every, fun declared key member some covered a b row row' r here there equal equal' => ?_⟩
  have declared : Table.LaidOutAs _ _ := (Table.LaidOutAs.trans ⟨stored, next, rfl⟩ declared)
  exact one_row declared checked member some covered exact here there equal equal'

def itemType : Entity where
  name := "Item"
  table := "Items"
  properties := [⟨"Id", "Id", .integer, false, false⟩, ⟨"Value", "Value", .integer, true, false⟩]
  keys := [⟨"PK_Items", ["Id"], true⟩]

def numberElements (numbers : List Value) : List Record :=
  numbers.map fun v => ⟨none, [("Number", v)]⟩

def mergeNumbers (numbers : List Value) : Mutation :=
  .merge "Item" (.rows (.records ["Number"] (numberElements numbers))) ⟨["i"], .member (.param "i") "Id"⟩
    ⟨["r"], .member (.param "r") "Number"⟩ none
    (some ⟨["r"], .new (some "Item") [] [.assign "Id" (.member (.param "r") "Number")]⟩) true

theorem mergeNumbers_reconciling :
    Reconciling itemModel itemType ⟨["i"], .member (.param "i") "Id"⟩ ⟨["r"], .member (.param "r") "Number"⟩ none
      ⟨["r"], .new (some "Item") [] [.assign "Id" (.member (.param "r") "Number")]⟩ [("Id", "Number")] where
  compares := .single "i" "r" "Id" "Number"
  inserts := ⟨"r", _, _, rfl, List.forall_mem_singleton.2 (List.mem_singleton_self _)⟩
  spares := fun _ none => nomatch none

theorem not_real_of_integers {t : Table} (integers : ∀ c ∈ t.columns, c.type = .integer) {i : Nat} {c : Column}
    (column : t.columns[i]? = some c) : c.type ≠ .real := by
  rw [integers c (List.mem_of_getElem? column)]
  exact ColumnType.noConfusion

/-- Of the items 1 and 2, merging the numbers 2 and 3 deletes the first and inserts an item 3. -/
theorem mergeNumbers_reconciles :
    ∃ b ps after u,
      (Planner.prepare { model := itemModel, capabilities := .inMemory } (mergeNumbers [.int 2, .int 3])).1 =
          .ok (b, ps) ∧
        run twoItems b ps = (.ok (.affected 2), after) ∧ after.find? "Items" = some u ∧
        u.rows = [[.int 2, .null], [.int 3, .null]] ∧
        (∀ row ∈ u.rows, ∃ r ∈ numberElements [.int 2, .int 3], KeyEqual itemType u [("Id", "Number")] row r) ∧
        ∀ r ∈ numberElements [.int 2, .int 3], ∃ row ∈ u.rows, KeyEqual itemType u [("Id", "Number")] row r := by
  obtain ⟨b, ps, prepared, succeeds, rows⟩ :
      ∃ b ps,
        (Planner.prepare { model := itemModel, capabilities := .inMemory } (mergeNumbers [.int 2, .int 3])).1 =
            .ok (b, ps) ∧
          (run twoItems b ps).1 = .ok (.affected 2) ∧
          ((run twoItems b ps).2.find? "Items").map Table.rows = some [[.int 2, .null], [.int 3, .null]] :=
    ⟨_, _, rfl, rfl, rfl⟩
  obtain ⟨u, found, -, each, every, -⟩ := full_merges_reconcile (Planner.honest_of_no_plans rfl) rfl
    mergeNumbers_reconciling (by decide) twoItems_wellFormed rfl
    (fun _ _ _ _ _ _ _ column => not_real_of_integers (by decide) column) prepared (Prod.ext succeeds rfl)
  rw [found] at rows
  exact ⟨b, ps, _, u, prepared, Prod.ext succeeds rfl, found, Option.some.inj rows, each, every⟩

def largeItems : Table where
  name := "Items"
  columns := [⟨"Id", .integer, false⟩, ⟨"Value", .integer, true⟩]
  keys := [⟨"PK_Items", [0]⟩]
  rows := [[.int 9007199254740992, .null], [.int 9007199254740993, .null]]

theorem largeItems_wellFormed : (Database.ofTables [largeItems]).WellFormed := by
  refine Database.wellFormed_of_tables fun t member => ?_
  obtain rfl := List.mem_singleton.1 member
  refine ⟨fun r stored => ?_, Table.keysUnique_of_checkUnique (by decide)⟩
  simp only [largeItems, List.mem_cons, List.not_mem_nil, or_false] at stored
  rcases stored with rfl | rfl <;> simp [largeItems, Column.Holds, Value.type?]

/-- Merging that real number succeeds and leaves both items, which equal it on their key. -/
theorem mergeNumbers_keeps_both :
    (Database.ofTables [largeItems]).WellFormed ∧ itemType.keys = [⟨"PK_Items", ["Id"], true⟩] ∧
      (∃ b ps,
        (Planner.prepare { model := itemModel, capabilities := .inMemory }
          (mergeNumbers [.real 9007199254740992.0])).1 = .ok (b, ps) ∧
        run (.ofTables [largeItems]) b ps = (.ok (.affected 0), .ofTables [largeItems])) ∧
      ∀ r ∈ numberElements [.real 9007199254740992.0], ∀ row ∈ largeItems.rows,
        KeyEqual itemType largeItems [("Id", "Number")] row r := by
  refine ⟨largeItems_wellFormed, rfl, ⟨_, _, rfl, rfl⟩, ?_⟩
  refine List.forall_mem_singleton.2 (List.forall_mem_cons.2 ⟨?_, List.forall_mem_singleton.2 ?_⟩) <;>
    exact List.forall_mem_singleton.2 ⟨_, 0, _, _, rfl, rfl, rfl, rfl, by decide⟩

end Execution

end Setwise
