import Setwise.Proofs.Rewriting

/-!
Lifting does not look at client values.

A mutation is blanked by putting NULL in the place of every captured value and other records in the place of those of
its collections. Lifting the blanked mutation goes the same way and gives the same form, with the parameters blanked
(`Mutation.lift_blank`).
-/

set_option autoImplicit false

namespace Setwise

open Client

/-! ## Blank values -/

def Parameter.blank (cells : List Row → List Row) : Parameter → Parameter
  | .scalar _ => .scalar .null
  | .rows rs => .rows (cells rs)

namespace Parameters

variable (cells : List Row → List Row)

def blank (ps : Parameters) : Parameters where
  entries := ps.entries.map fun e => (e.1, e.2.blank cells)
  distinct := by simpa [Function.comp_def] using ps.distinct

theorem setEntry_blank (name : String) (p : Parameter) (es : List (String × Parameter)) :
    (setEntry name p es).map (fun e => (e.1, e.2.blank cells)) =
      setEntry name (p.blank cells) (es.map fun e => (e.1, e.2.blank cells)) := by
  induction es with
  | nil => rfl
  | cons e rest ih =>
    by_cases same : e.1 = name
    · simp [setEntry, same]
    · simp [setEntry, same, ih]

theorem insert_blank (ps : Parameters) (name : String) (p : Parameter) :
    (ps.insert name p).blank cells = (ps.blank cells).insert name (p.blank cells) := by
  simp only [blank, insert, mk.injEq]
  exact setEntry_blank cells name p ps.entries

theorem find?_blank (ps : Parameters) (name : String) :
    (ps.blank cells).find? name = (ps.find? name).map (Parameter.blank cells) := by
  have entries (es : List (String × Parameter)) :
      (es.map fun e => (e.1, e.2.blank cells)).lookup name = (es.lookup name).map (Parameter.blank cells) := by
    induction es with
    | nil => rfl
    | cons e rest ih =>
      obtain ⟨n, p⟩ := e
      by_cases same : name = n
      · simp [same]
      · simp [List.lookup_cons, beq_eq_false_iff_ne.2 same, ih]
  exact entries ps.entries

end Parameters

namespace Client

def Expr.blank (e : Expr) : Expr :=
  e.replace (fun name _ => .captured name .null) .runtime

def Expr.blankList (es : List Expr) : List Expr :=
  Expr.replaceList (fun name _ => .captured name .null) .runtime es

def Expr.blankBindings (bs : List (Binding Expr)) : List (Binding Expr) :=
  Expr.replaceBindings (fun name _ => .captured name .null) .runtime bs

end Client

/-! ## Lifting blank values -/

namespace Lifting

variable {cells : List Row → List Row}

def blank (cells : List Row → List Row) (s : Lifting) : Lifting :=
  { s with values := s.values.blank cells }

theorem add_blank (cells : List Row → List Row) (hint : String) (p : Parameter) (s : Lifting) :
    add hint (p.blank cells) (s.blank cells) = ((add hint p s).1, (add hint p s).2.blank cells) := by
  simp [add, blank, Parameters.insert_blank]

mutual

theorem expr_blank (e : Expr) (s : Lifting) :
    expr e.blank (s.blank cells) = ((expr e s).1, (expr e s).2.blank cells) := by
  match e with
  | .param _ | .constant _ | .runtime _ => rfl
  | .captured name v =>
    have added := add_blank cells name (.scalar v) s
    exact congrArg (fun r : String × Lifting => (Expr.runtime r.1, r.2)) added
  | .member of name => exact congrArg (fun r : Expr × Lifting => (r.1.member name, r.2)) (expr_blank of s)
  | .not operand => exact congrArg (fun r : Expr × Lifting => (r.1.not, r.2)) (expr_blank operand s)
  | .binary l op r =>
    change (let (a, t) := expr l.blank (s.blank cells); let (b, u) := expr r.blank t; (Expr.binary a op b, u)) = _
    simp only [expr_blank l s, expr_blank r]
    rfl
  | .conditional test a b =>
    change (let (c, t) := expr test.blank (s.blank cells); let (d, u) := expr a.blank t
      let (e, v) := expr b.blank u; (Expr.conditional c d e, v)) = _
    simp only [expr_blank test s, expr_blank a, expr_blank b]
    rfl
  | .new type args bindings =>
    change (let (as, t) := exprs (Expr.blankList args) (s.blank cells)
      let (bs, u) := bindingList (Expr.blankBindings bindings) t; (Expr.new type as bs, u)) = _
    simp only [exprs_blank args s, bindingList_blank bindings]
    rfl

theorem exprs_blank (es : List Expr) (s : Lifting) :
    exprs (Expr.blankList es) (s.blank cells) = ((exprs es s).1, (exprs es s).2.blank cells) := by
  match es with
  | [] => rfl
  | e :: rest =>
    change (let (a, t) := expr e.blank (s.blank cells); let (as, u) := exprs (Expr.blankList rest) t; (a :: as, u)) = _
    simp only [expr_blank e s, exprs_blank rest]
    rfl

theorem bindingList_blank (bs : List (Binding Expr)) (s : Lifting) :
    bindingList (Expr.blankBindings bs) (s.blank cells) = ((bindingList bs s).1, (bindingList bs s).2.blank cells) := by
  match bs with
  | [] => rfl
  | .assign member value :: rest =>
    change (let (a, t) := expr value.blank (s.blank cells)
      let (as, u) := bindingList (Expr.blankBindings rest) t; (Binding.assign member a :: as, u)) = _
    simp only [expr_blank value s, bindingList_blank rest]
    rfl
  | .items member values :: rest =>
    change (let (a, t) := exprs (Expr.blankList values) (s.blank cells)
      let (as, u) := bindingList (Expr.blankBindings rest) t; (Binding.items member a :: as, u)) = _
    simp only [exprs_blank values s, bindingList_blank rest]
    rfl

end

/-- The second traversal goes the way of the first one, with blank values. -/
def Blanked (cells : List Row → List Row) {α : Type} (x x' : Fallible α) : Prop :=
  ∀ s, x' (s.blank cells) = (x s).map fun r => (r.1, r.2.blank cells)

namespace Blanked

variable {α β : Type}

theorem pure (a : α) : Blanked cells (Pure.pure a) (Pure.pure a) :=
  fun _ => rfl

theorem bind {x x' : Fallible α} {f f' : α → Fallible β} (first : Blanked cells x x')
    (next : ∀ a, Blanked cells (f a) (f' a)) : Blanked cells (x >>= f) (x' >>= f') := by
  intro s
  change x' (s.blank cells) >>= (fun (a, t) => f' a t) = (x s >>= fun (a, t) => f a t).map _
  rw [first s]
  cases x s with
  | error e => rfl
  | ok r => exact next r.1 r.2

theorem surely {x x' : StateM Lifting α} (h : ∀ s, x' (s.blank cells) = ((x s).1, (x s).2.blank cells)) :
    Blanked cells (surely x) (Lifting.surely x') :=
  fun s => congrArg Except.ok (h s)

theorem expr (e : Expr) : Blanked cells (Lifting.surely (Lifting.expr e)) (Lifting.surely (Lifting.expr e.blank)) :=
  surely (expr_blank e)

theorem lambda (l : Lambda) :
    Blanked cells (Lifting.surely (Lifting.lambda l)) (Lifting.surely (Lifting.lambda (l.rewrite Expr.blank))) :=
  surely fun s => congrArg (fun r : Expr × Lifting => (Lambda.mk l.params r.1, r.2)) (expr_blank l.body s)

theorem lambda? (l : Option Lambda) :
    Blanked cells (Lifting.surely (Lifting.lambda? l))
      (Lifting.surely (Lifting.lambda? (l.map (Lambda.rewrite Expr.blank)))) := by
  cases l with
  | none => exact fun _ => rfl
  | some l =>
    refine surely fun s => ?_
    exact congrArg (fun r : Expr × Lifting => (some (Lambda.mk l.params r.1), r.2)) (expr_blank l.body s)

end Blanked

variable {g : LocalRows → LocalRows}

theorem query_blank (q : Query) (rows : ∀ c ∈ q.collections, Blanked cells (collection c) (collection (g c))) :
    Blanked cells (query q) (query (q.rewrite Expr.blank g)) := by
  induction q with
  | set entity => exact .pure _
  | rows c => exact (rows c (List.mem_singleton_self c)).bind fun _ => .pure _
  | filter input l ih | map input l ih | orderBy input l _ ih | groupBy input l ih =>
    exact (ih rows).bind fun _ => (Blanked.lambda l).bind fun _ => .pure _
  | take input e ih | skip input e ih => exact (ih rows).bind fun _ => (Blanked.expr e).bind fun _ => .pure _
  | join outer inner outerKey innerKey result iho ihi =>
    have sides := List.forall_mem_append.1 rows
    exact (iho sides.1).bind fun _ => (ihi sides.2).bind fun _ => (Blanked.lambda outerKey).bind fun _ =>
      (Blanked.lambda innerKey).bind fun _ => (Blanked.lambda result).bind fun _ => .pure _
  | union left right ihl ihr =>
    have sides := List.forall_mem_append.1 rows
    exact (ihl sides.1).bind fun _ => (ihr sides.2).bind fun _ => .pure _

theorem mutation_blank (m : Mutation) (rows : ∀ c ∈ m.collections, Blanked cells (collection c) (collection (g c))) :
    Blanked cells (mutation m) (mutation (m.rewrite Expr.blank g)) := by
  cases m with
  | delete q | insertInto q _ => exact (query_blank q rows).bind fun _ => .pure _
  | update q set => exact (query_blank q rows).bind fun _ => (Blanked.lambda set).bind fun _ => .pure _
  | updateJoin outer inner outerKey innerKey set condition =>
    have sides := List.forall_mem_append.1 rows
    exact (query_blank outer sides.1).bind fun _ => (query_blank inner sides.2).bind fun _ =>
      (Blanked.lambda outerKey).bind fun _ => (Blanked.lambda innerKey).bind fun _ => (Blanked.lambda set).bind fun _ =>
      (Blanked.lambda? condition).bind fun _ => .pure _
  | upsert target source inserted updated =>
    have sources : Blanked cells (query? source) (query? (source.map (Query.rewrite Expr.blank g))) := by
      cases source with
      | none => exact .pure _
      | some q => exact (query_blank q rows).bind fun _ => .pure _
    exact sources.bind fun _ => (Blanked.lambda inserted).bind fun _ => (Blanked.lambda? updated).bind fun _ => .pure _
  | merge target source targetKey sourceKey updated inserted deleted =>
    exact (query_blank source rows).bind fun _ => (Blanked.lambda targetKey).bind fun _ =>
      (Blanked.lambda sourceKey).bind fun _ => (Blanked.lambda? updated).bind fun _ =>
      (Blanked.lambda? inserted).bind fun _ => .pure _

theorem parameter_blank (name : String) (fields : List String) :
    Blanked cells (collection (.parameter name fields)) (collection (.parameter name fields)) :=
  .pure _

theorem records_blank {fields : List String} {elements elements' : List Record}
    (same : recordRows fields 0 elements' = (recordRows fields 0 elements).map cells) :
    Blanked cells (collection (.records fields elements)) (collection (.records fields elements')) := by
  intro s
  simp only [collection]
  rw [same]
  cases recordRows fields 0 elements with
  | error e => rfl
  | ok rows =>
    have added := add_blank cells "rows" (.rows rows) s
    exact congrArg (fun r : String × Lifting => Except.ok (LocalRows.parameter r.1 fields, r.2)) added

end Lifting

/-- The blanked mutation has the same form, with blank parameters, or cannot be lifted for the same reason. -/
theorem Client.Mutation.lift_blank {cells : List Row → List Row} {g : LocalRows → LocalRows} (m : Mutation)
    (rows : ∀ c ∈ m.collections, Lifting.Blanked cells (Lifting.collection c) (Lifting.collection (g c))) :
    (m.rewrite Expr.blank g).lift = m.lift.map fun r => (r.1, r.2.blank cells) := by
  have run := Lifting.mutation_blank m rows {}
  change Lifting.mutation (m.rewrite Expr.blank g) {} = _ at run
  unfold Mutation.lift
  rw [run]
  cases Lifting.mutation m {} <;> rfl

end Setwise
