import Setwise.Planner
import Setwise.Proofs.LiftedValues
import Setwise.Proofs.Parts

/-!
The runtime parameters of a form have values.

Lifting and folding go through the expressions of a mutation one by one (`mutation_lifts`, `mutation_folds`). Where
an expression has no runtime parameters of its own, those of the lifted one are names of captured values, and folding
adds none (`scalars_held`). The collections stay as they were lifted (`collections_held`).
-/

set_option autoImplicit false

namespace Setwise

open Client

def Parameters.HoldsScalars (ps : Parameters) (es : List Expr) : Prop :=
  ∀ name, Expr.runtime name ∈ es → ∃ v, ps.scalar name = .ok v

def Client.Expr.RuntimeFree (e : Expr) : Prop :=
  ∀ name, Expr.runtime name ∉ e.parts

namespace Parameters.HoldsScalars

variable {ps : Parameters} {es fs : List Expr}

theorem nil : ps.HoldsScalars [] :=
  fun _ member => absurd member List.not_mem_nil

theorem append (first : ps.HoldsScalars es) (second : ps.HoldsScalars fs) : ps.HoldsScalars (es ++ fs) :=
  fun name member => (List.mem_append.1 member).elim (first name) (second name)

theorem cons {e : Expr} (other : ∀ name, e ≠ .runtime name) (later : ps.HoldsScalars es) :
    ps.HoldsScalars (e :: es) := by
  intro name member
  rcases List.mem_cons.1 member with rfl | member
  · exact absurd rfl (other name)
  · exact later name member

end Parameters.HoldsScalars

/-! ## Lifted expressions -/

namespace Lifting

open Parameters.HoldsScalars

theorem Numbered.expr {s : Lifting} (numbered : s.Numbered) (e : Expr) : (expr e s).2.Numbered :=
  expr_values e s ▸ numbered.addAll _

theorem later_scalars {s : Lifting} (numbered : s.Numbered) (vs : List (String × Parameter)) {es : List Expr}
    (h : s.values.HoldsScalars es) : (s.addAll vs).values.HoldsScalars es := by
  intro name member
  obtain ⟨v, held⟩ := h name member
  exact ⟨v, Parameters.scalar_eq_ok.2 ((find?_addAll numbered vs _ _).2 (.inl (Parameters.scalar_eq_ok.1 held)))⟩

mutual

theorem expr_scalars {s : Lifting} (numbered : s.Numbered) (e : Expr) (own : e.RuntimeFree) :
    (expr e s).2.values.HoldsScalars (expr e s).1.parts := by
  match e with
  | .param _ | .constant _ => exact cons nofun nil
  | .runtime name => exact absurd (by simp [Expr.parts]) (own name)
  | .captured hint v =>
    intro name member
    change Expr.runtime name ∈ (Expr.runtime (liftedName hint s.next)).parts at member
    obtain rfl : name = liftedName hint s.next := by simpa [Expr.parts] using member
    refine ⟨v, Parameters.scalar_eq_ok.2 ?_⟩
    change (s.values.insert (liftedName hint s.next) (.scalar v)).find? _ = _
    rw [Parameters.find?_insert, if_pos rfl]
  | .member of name =>
    exact cons nofun (expr_scalars numbered of fun n inside => own n (by simp [Expr.parts, inside]))
  | .not operand =>
    exact cons nofun (expr_scalars numbered operand fun n inside => own n (by simp [Expr.parts, inside]))
  | .binary l op r =>
    have left := expr_scalars numbered l fun n inside => own n (by simp [Expr.parts, inside])
    have right := expr_scalars (numbered.expr l) r fun n inside => own n (by simp [Expr.parts, inside])
    -- what the right operand adds hides none of the parameters of the left one
    have left := later_scalars (numbered.expr l) r.clientValues left
    rw [← expr_values] at left
    exact cons nofun (append left right)
  | .conditional test a b =>
    have tested := expr_scalars numbered test fun n inside => own n (by simp [Expr.parts, inside])
    have first := expr_scalars (numbered.expr test) a fun n inside => own n (by simp [Expr.parts, inside])
    have second := expr_scalars ((numbered.expr test).expr a) b fun n inside => own n (by simp [Expr.parts, inside])
    have tested := later_scalars (numbered.expr test) a.clientValues tested
    rw [← expr_values] at tested
    have both := later_scalars ((numbered.expr test).expr a) b.clientValues (append tested first)
    rw [← expr_values] at both
    exact cons nofun (append both second)
  | .new type args bindings =>
    have after : (exprs args s).2.Numbered := exprs_values args s ▸ numbered.addAll _
    exact cons nofun (bindingList_scalars after bindings fun n inside => own n (by simp [Expr.parts, inside]))

theorem bindingList_scalars {s : Lifting} (numbered : s.Numbered) (bs : List (Binding Expr))
    (own : ∀ name, Expr.runtime name ∉ bindingsParts bs) :
    (bindingList bs s).2.values.HoldsScalars (bindingsParts (bindingList bs s).1) := by
  match bs with
  | [] => exact nil
  | b :: rest =>
    have here := binding_scalars numbered b fun n inside => own n (by simp [bindingsParts, inside])
    have after : (binding b s).2.Numbered := binding_values b s ▸ numbered.addAll _
    have later := bindingList_scalars after rest fun n inside => own n (by simp [bindingsParts, inside])
    have here := later_scalars after (Expr.clientValuesOfBindings rest) here
    rw [← bindingList_values] at here
    exact append here later

theorem binding_scalars {s : Lifting} (numbered : s.Numbered) (b : Binding Expr)
    (own : ∀ name, Expr.runtime name ∉ bindingParts b) :
    (binding b s).2.values.HoldsScalars (bindingParts (binding b s).1) := by
  match b with
  | .assign member value =>
    exact expr_scalars numbered value fun n inside => own n (by simpa [bindingParts] using inside)
  | .items member values => exact nil

end

def Lifts (t : Lifting) (e e' : Expr) : Prop :=
  ∃ s vs, s.Numbered ∧ (expr e s).1 = e' ∧ (expr e s).2.addAll vs = t

theorem Lifts.later {t : Lifting} {e e' : Expr} (vs : List (String × Parameter)) (h : Lifts t e e') :
    Lifts (t.addAll vs) e e' := by
  obtain ⟨s, ws, numbered, lifted, rfl⟩ := h
  exact ⟨s, ws ++ vs, numbered, lifted, addAll_append _ ws vs⟩

theorem Lifts.scalars {t : Lifting} {e e' : Expr} (h : Lifts t e e') (own : e.RuntimeFree) :
    t.values.HoldsScalars e'.parts := by
  obtain ⟨s, vs, numbered, rfl, rfl⟩ := h
  exact later_scalars (numbered.expr e) vs (expr_scalars numbered e own)

section

variable {s t : Lifting} {es es' : List Expr}

theorem later_lifts (vs : List (String × Parameter)) (h : List.Forall₂ (Lifts s) es es') :
    List.Forall₂ (Lifts (s.addAll vs)) es es' :=
  h.imp fun _ _ => Lifts.later vs

theorem expr_behind (numbered : s.Numbered) (before : List.Forall₂ (Lifts s) es es') {e e' : Expr}
    (h : expr e s = (e', t)) : t.Numbered ∧ List.Forall₂ (Lifts t) (es ++ [e]) (es' ++ [e']) := by
  have here : Lifts t e e' := ⟨s, [], numbered, by rw [h], by rw [h]; rfl⟩
  obtain rfl := expr_run h
  exact ⟨numbered.addAll _, List.rel_append (later_lifts _ before) (.cons here .nil)⟩

theorem lambda_behind (numbered : s.Numbered) (before : List.Forall₂ (Lifts s) es es') {l l' : Lambda}
    (h : lambda l s = (l', t)) : t.Numbered ∧ List.Forall₂ (Lifts t) (es ++ [l.body]) (es' ++ [l'.body]) := by
  obtain ⟨rfl, rfl⟩ := Prod.mk.inj h
  exact expr_behind numbered before rfl

theorem lambda?_behind (numbered : s.Numbered) (before : List.Forall₂ (Lifts s) es es') {l l' : Option Lambda}
    (h : lambda? l s = (l', t)) :
    t.Numbered ∧ List.Forall₂ (Lifts t) (es ++ l.toList.map Lambda.body) (es' ++ l'.toList.map Lambda.body) := by
  cases l with
  | none =>
    obtain ⟨rfl, rfl⟩ := Prod.mk.inj h
    exact ⟨numbered, by simpa using before⟩
  | some l =>
    obtain ⟨rfl, rfl⟩ := Prod.mk.inj h
    exact lambda_behind numbered before rfl

theorem query_behind {fs fs' : List Expr} {q q' : Query} (before : List.Forall₂ (Lifts s) es es')
    (h : query q s = .ok (q', t)) (lifts : List.Forall₂ (Lifts t) fs fs') :
    List.Forall₂ (Lifts t) (es ++ fs) (es' ++ fs') := by
  obtain rfl := query_run h
  exact List.rel_append (later_lifts _ before) lifts

theorem query_lifts {q q' : Query} (numbered : s.Numbered) (h : query q s = .ok (q', t)) :
    t.Numbered ∧ List.Forall₂ (Lifts t) q.expressions q'.expressions := by
  induction q generalizing q' s t with
  | set entity =>
    obtain ⟨rfl, rfl⟩ := fallible_pure.1 h
    exact ⟨numbered, .nil⟩
  | rows c =>
    simp only [query, fallible_bind, fallible_pure] at h
    obtain ⟨_, _, lifted, rfl, rfl⟩ := h
    exact ⟨collection_run lifted ▸ numbered.addAll _, .nil⟩
  | filter input l ih | map input l ih | orderBy input l _ ih | groupBy input l ih =>
    simp only [query, fallible_bind, fallible_surely, fallible_pure] at h
    obtain ⟨_, u, first, _, _, second, rfl, rfl⟩ := h
    obtain ⟨after, lifts⟩ := ih numbered first
    exact lambda_behind after lifts second
  | take input e ih | skip input e ih =>
    simp only [query, fallible_bind, fallible_surely, fallible_pure] at h
    obtain ⟨_, u, first, _, _, second, rfl, rfl⟩ := h
    obtain ⟨after, lifts⟩ := ih numbered first
    exact expr_behind after lifts second
  | join outer inner outerKey innerKey result iho ihi =>
    simp only [query, fallible_bind, fallible_surely, fallible_pure] at h
    obtain ⟨_, u, first, _, v, second, _, _, third, _, _, fourth, _, _, fifth, rfl, rfl⟩ := h
    obtain ⟨after, outers⟩ := iho numbered first
    obtain ⟨after', inners⟩ := ihi after second
    obtain ⟨after', lifts⟩ := lambda_behind after' (query_behind outers second inners) third
    obtain ⟨after', lifts⟩ := lambda_behind after' lifts fourth
    simpa [Query.expressions] using lambda_behind after' lifts fifth
  | union left right ihl ihr =>
    simp only [query, fallible_bind, fallible_pure] at h
    obtain ⟨_, u, first, _, _, second, rfl, rfl⟩ := h
    obtain ⟨after, lefts⟩ := ihl numbered first
    obtain ⟨after', rights⟩ := ihr after second
    exact ⟨after', query_behind lefts second rights⟩

/-- The expressions of a mutation are lifted one by one. -/
theorem mutation_lifts {m m' : Mutation} (numbered : s.Numbered) (h : mutation m s = .ok (m', t)) :
    List.Forall₂ (Lifts t) m.expressions m'.expressions := by
  cases m with
  | delete q | insertInto q _ =>
    simp only [mutation, fallible_bind, fallible_pure] at h
    obtain ⟨_, _, first, rfl, rfl⟩ := h
    exact (query_lifts numbered first).2
  | update q set =>
    simp only [mutation, fallible_bind, fallible_surely, fallible_pure] at h
    obtain ⟨_, u, first, _, _, second, rfl, rfl⟩ := h
    obtain ⟨after, lifts⟩ := query_lifts numbered first
    exact (lambda_behind after lifts second).2
  | updateJoin outer inner outerKey innerKey set condition =>
    simp only [mutation, fallible_bind, fallible_surely, fallible_pure] at h
    obtain ⟨_, u, first, _, v, second, _, _, third, _, _, fourth, _, _, fifth, _, _, sixth, rfl, rfl⟩ := h
    obtain ⟨after, outers⟩ := query_lifts numbered first
    obtain ⟨after, inners⟩ := query_lifts after second
    -- what has been lifted stays lifted under the parameters that later parts add
    obtain ⟨after, lifts⟩ := lambda_behind after (query_behind outers second inners) third
    obtain ⟨after, lifts⟩ := lambda_behind after lifts fourth
    obtain ⟨after, lifts⟩ := lambda_behind after lifts fifth
    simpa [Mutation.expressions] using (lambda?_behind after lifts sixth).2
  | upsert target source inserted updated =>
    simp only [mutation, fallible_bind, fallible_surely, fallible_pure] at h
    obtain ⟨source', u, first, _, _, second, _, _, third, rfl, rfl⟩ := h
    have sources : u.Numbered ∧
        List.Forall₂ (Lifts u) (source.elim [] Query.expressions) (source'.elim [] Query.expressions) := by
      cases source with
      | none =>
        obtain ⟨rfl, rfl⟩ := fallible_pure.1 first
        exact ⟨numbered, .nil⟩
      | some q =>
        simp only [query?, fallible_bind, fallible_pure] at first
        obtain ⟨_, _, run, rfl, rfl⟩ := first
        exact query_lifts numbered run
    obtain ⟨after, lifts⟩ := lambda_behind sources.1 sources.2 second
    exact (lambda?_behind after lifts third).2
  | merge target source targetKey sourceKey updated inserted delete =>
    simp only [mutation, fallible_bind, fallible_surely, fallible_pure] at h
    obtain ⟨_, u, first, _, _, second, _, _, third, _, _, fourth, _, _, fifth, rfl, rfl⟩ := h
    obtain ⟨after, lifts⟩ := query_lifts numbered first
    obtain ⟨after, lifts⟩ := lambda_behind after lifts second
    obtain ⟨after, lifts⟩ := lambda_behind after lifts third
    obtain ⟨after, lifts⟩ := lambda?_behind after lifts fourth
    simpa [Mutation.expressions] using (lambda?_behind after lifts fifth).2

end

end Lifting

/-! ## Folded expressions -/

namespace Client

theorem runtime_mem_foldNot {e : Expr} {name : String} (h : Expr.runtime name ∈ (Expr.foldNot e).parts) :
    Expr.runtime name ∈ e.parts := by
  unfold Expr.foldNot at h
  split at h <;> simp_all [Expr.parts]

theorem runtime_mem_foldBinary {whole l r e : Expr} {op : Operator} (h : Expr.foldBinary whole l op r = .ok e)
    {name : String} (member : Expr.runtime name ∈ e.parts) : Expr.runtime name ∈ l.parts ++ r.parts := by
  unfold Expr.foldBinary at h
  split at h
  next =>
    split at h
    next =>
      obtain rfl := Except.ok.inj h
      simp [Expr.parts] at member
    next => cases h
  next =>
    obtain rfl := Except.ok.inj h
    simpa [Expr.parts] using member

mutual

theorem runtime_mem_fold {e e' : Expr} (h : e.fold = .ok e') {name : String}
    (member : Expr.runtime name ∈ e'.parts) : Expr.runtime name ∈ e.parts := by
  match e with
  | .param _ | .constant _ | .captured .. | .runtime _ =>
    obtain rfl := Except.ok.inj h
    exact member
  | .member of _ =>
    obtain ⟨of', folded, h⟩ := bind_eq_ok.1 h
    obtain rfl := pure_eq_ok.1 h
    have inside : Expr.runtime name ∈ of'.parts := by simpa [Expr.parts] using member
    simp [Expr.parts, runtime_mem_fold folded inside]
  | .not operand =>
    obtain ⟨operand', folded, h⟩ := bind_eq_ok.1 h
    obtain rfl := pure_eq_ok.1 h
    simp [Expr.parts, runtime_mem_fold folded (runtime_mem_foldNot member)]
  | .binary l op r =>
    obtain ⟨l', left, h⟩ := bind_eq_ok.1 h
    obtain ⟨r', right, h⟩ := bind_eq_ok.1 h
    rcases List.mem_append.1 (runtime_mem_foldBinary h member) with inside | inside
    · simp [Expr.parts, runtime_mem_fold left inside]
    · simp [Expr.parts, runtime_mem_fold right inside]
  | .conditional test a b =>
    obtain ⟨test', tested, h⟩ := bind_eq_ok.1 h
    split at h
    next =>
      split at h
      -- a decided conditional leaves one of its branches
      next => simp [Expr.parts, runtime_mem_fold h member]
      next => simp [Expr.parts, runtime_mem_fold h member]
    next =>
      obtain ⟨a', first, h⟩ := bind_eq_ok.1 h
      obtain ⟨b', second, h⟩ := bind_eq_ok.1 h
      obtain rfl := pure_eq_ok.1 h
      have inside : Expr.runtime name ∈ test'.parts ++ a'.parts ++ b'.parts := by simpa [Expr.parts] using member
      rcases List.mem_append.1 inside with inside | inside
      · rcases List.mem_append.1 inside with inside | inside
        · simp [Expr.parts, runtime_mem_fold tested inside]
        · simp [Expr.parts, runtime_mem_fold first inside]
      · simp [Expr.parts, runtime_mem_fold second inside]
  | .new type args bindings =>
    obtain ⟨bs, folded, h⟩ := bind_eq_ok.1 h
    obtain ⟨as, -, h⟩ := bind_eq_ok.1 h
    obtain rfl := pure_eq_ok.1 h
    have inside : Expr.runtime name ∈ bindingsParts bs := by simpa [Expr.parts] using member
    simp [Expr.parts, runtime_mem_foldBindings folded inside]

theorem runtime_mem_foldBindings {bs bs' : List (Binding Expr)} (h : Expr.foldBindings bs = .ok bs')
    {name : String} (member : Expr.runtime name ∈ bindingsParts bs') : Expr.runtime name ∈ bindingsParts bs := by
  match bs with
  | [] =>
    obtain rfl := Except.ok.inj h
    exact member
  | .assign _ value :: rest =>
    obtain ⟨b, first, h⟩ := bind_eq_ok.1 h
    obtain ⟨value', folded, first⟩ := bind_eq_ok.1 first
    obtain rfl := pure_eq_ok.1 first
    obtain ⟨rest', later, h⟩ := bind_eq_ok.1 h
    obtain rfl := pure_eq_ok.1 h
    rcases List.mem_append.1 member with inside | inside
    · exact List.mem_append_left _ (runtime_mem_fold folded inside)
    · exact List.mem_append_right _ (runtime_mem_foldBindings later inside)
  | .items _ values :: rest =>
    obtain ⟨b, first, h⟩ := bind_eq_ok.1 h
    obtain ⟨values', -, first⟩ := bind_eq_ok.1 first
    obtain rfl := pure_eq_ok.1 first
    obtain ⟨rest', later, h⟩ := bind_eq_ok.1 h
    obtain rfl := pure_eq_ok.1 h
    exact runtime_mem_foldBindings later member

end

def Expr.FoldsTo (e e' : Expr) : Prop :=
  e.fold = .ok e'

section

open List

theorem lambda_folds {l l' : Lambda} (h : l.fold = .ok l') : Forall₂ Expr.FoldsTo [l.body] [l'.body] := by
  obtain ⟨body, folded, h⟩ := bind_eq_ok.1 h
  obtain rfl := pure_eq_ok.1 h
  exact .cons folded .nil

theorem lambda?_folds {l l' : Option Lambda} (h : Lambda.foldOption l = .ok l') :
    Forall₂ Expr.FoldsTo (l.toList.map Lambda.body) (l'.toList.map Lambda.body) := by
  cases l with
  | none =>
    obtain rfl := Except.ok.inj h
    exact .nil
  | some l =>
    obtain ⟨l', folded, h⟩ := bind_eq_ok.1 h
    obtain rfl := pure_eq_ok.1 h
    exact lambda_folds folded

theorem query_folds {q q' : Query} (h : q.fold = .ok q') :
    Forall₂ Expr.FoldsTo q.expressions q'.expressions ∧ q'.collections = q.collections := by
  induction q generalizing q' with
  | set | rows =>
    obtain rfl := Except.ok.inj h
    exact ⟨.nil, rfl⟩
  | filter input l ih | map input l ih | orderBy input l _ ih | groupBy input l ih =>
    obtain ⟨input', first, h⟩ := bind_eq_ok.1 h
    obtain ⟨l', folded, h⟩ := bind_eq_ok.1 h
    obtain rfl := pure_eq_ok.1 h
    exact ⟨rel_append (ih first).1 (lambda_folds folded), (ih first).2⟩
  | take input e ih | skip input e ih =>
    obtain ⟨input', first, h⟩ := bind_eq_ok.1 h
    obtain ⟨e', folded, h⟩ := bind_eq_ok.1 h
    obtain rfl := pure_eq_ok.1 h
    exact ⟨rel_append (ih first).1 (.cons folded .nil), (ih first).2⟩
  | join outer inner outerKey innerKey result iho ihi =>
    obtain ⟨outer', first, h⟩ := bind_eq_ok.1 h
    obtain ⟨inner', second, h⟩ := bind_eq_ok.1 h
    obtain ⟨outerKey', third, h⟩ := bind_eq_ok.1 h
    obtain ⟨innerKey', fourth, h⟩ := bind_eq_ok.1 h
    obtain ⟨result', fifth, h⟩ := bind_eq_ok.1 h
    obtain rfl := pure_eq_ok.1 h
    obtain ⟨outers, same⟩ := iho first
    obtain ⟨inners, same'⟩ := ihi second
    have keys := rel_append (lambda_folds third) (rel_append (lambda_folds fourth) (lambda_folds fifth))
    exact ⟨rel_append (rel_append outers inners) keys, congrArg₂ (· ++ ·) same same'⟩
  | union left right ihl ihr =>
    obtain ⟨left', first, h⟩ := bind_eq_ok.1 h
    obtain ⟨right', second, h⟩ := bind_eq_ok.1 h
    obtain rfl := pure_eq_ok.1 h
    exact ⟨rel_append (ihl first).1 (ihr second).1, congrArg₂ (· ++ ·) (ihl first).2 (ihr second).2⟩

/-- The expressions of a mutation are folded one by one, and the collections stay as they are. -/
theorem mutation_folds {m m' : Mutation} (h : m.fold = .ok m') :
    Forall₂ Expr.FoldsTo m.expressions m'.expressions ∧ m'.collections = m.collections := by
  cases m with
  | delete q | insertInto q _ =>
    obtain ⟨q', first, h⟩ := bind_eq_ok.1 h
    obtain rfl := pure_eq_ok.1 h
    exact query_folds first
  | update q set =>
    obtain ⟨q', first, h⟩ := bind_eq_ok.1 h
    obtain ⟨set', second, h⟩ := bind_eq_ok.1 h
    obtain rfl := pure_eq_ok.1 h
    exact ⟨rel_append (query_folds first).1 (lambda_folds second), (query_folds first).2⟩
  | updateJoin outer inner outerKey innerKey set condition =>
    obtain ⟨outer', first, h⟩ := bind_eq_ok.1 h
    obtain ⟨inner', second, h⟩ := bind_eq_ok.1 h
    obtain ⟨outerKey', third, h⟩ := bind_eq_ok.1 h
    obtain ⟨innerKey', fourth, h⟩ := bind_eq_ok.1 h
    obtain ⟨set', fifth, h⟩ := bind_eq_ok.1 h
    obtain ⟨condition', sixth, h⟩ := bind_eq_ok.1 h
    obtain rfl := pure_eq_ok.1 h
    obtain ⟨outers, same⟩ := query_folds first
    obtain ⟨inners, same'⟩ := query_folds second
    -- the expressions of the parts stand in the order in which the parts are folded
    have keys := rel_append (lambda_folds third) (rel_append (lambda_folds fourth) (lambda_folds fifth))
    exact ⟨rel_append (rel_append (rel_append outers inners) keys) (lambda?_folds sixth),
      congrArg₂ (· ++ ·) same same'⟩
  | upsert target source inserted updated =>
    obtain ⟨source', first, h⟩ := bind_eq_ok.1 h
    obtain ⟨inserted', second, h⟩ := bind_eq_ok.1 h
    obtain ⟨updated', third, h⟩ := bind_eq_ok.1 h
    obtain rfl := pure_eq_ok.1 h
    have sources : Forall₂ Expr.FoldsTo (source.elim [] Query.expressions) (source'.elim [] Query.expressions) ∧
        source'.elim [] Query.collections = source.elim [] Query.collections := by
      cases source with
      | none =>
        obtain rfl := Except.ok.inj first
        exact ⟨.nil, rfl⟩
      | some q =>
        obtain ⟨q', folded, first⟩ := bind_eq_ok.1 first
        obtain rfl := pure_eq_ok.1 first
        exact query_folds folded
    exact ⟨rel_append (rel_append sources.1 (lambda_folds second)) (lambda?_folds third), sources.2⟩
  | merge target source targetKey sourceKey updated inserted delete =>
    obtain ⟨source', first, h⟩ := bind_eq_ok.1 h
    obtain ⟨targetKey', second, h⟩ := bind_eq_ok.1 h
    obtain ⟨sourceKey', third, h⟩ := bind_eq_ok.1 h
    obtain ⟨updated', fourth, h⟩ := bind_eq_ok.1 h
    obtain ⟨inserted', fifth, h⟩ := bind_eq_ok.1 h
    obtain rfl := pure_eq_ok.1 h
    have keys := rel_append (lambda_folds second) (lambda_folds third)
    exact ⟨rel_append (rel_append (rel_append (query_folds first).1 keys) (lambda?_folds fourth))
      (lambda?_folds fifth), (query_folds first).2⟩

end

/-! ## Forms -/

/-- A mutation that has no runtime parameters, neither in its expressions nor as collections. -/
structure Mutation.RuntimeFree (m : Mutation) : Prop where
  expressions : ∀ e ∈ m.expressions, e.RuntimeFree
  collections : ∀ c ∈ m.collections, ∃ fields elements, c = .records fields elements

theorem exists_of_mem_right {α β : Type} {R : α → β → Prop} {as : List α} {bs : List β}
    (h : List.Forall₂ R as bs) {b : β} (member : b ∈ bs) : ∃ a ∈ as, R a b := by
  induction h with
  | nil => cases member
  | cons here _ ih =>
    rcases List.mem_cons.1 member with rfl | member
    · exact ⟨_, List.mem_cons_self, here⟩
    · exact (ih member).imp fun _ => And.imp_left (List.mem_cons_of_mem _)

section

variable {m form folded : Mutation} {ps : Parameters} (free : m.RuntimeFree) (lifted : m.lift = .ok (form, ps))
  (folds : form.fold = .ok folded)
include free lifted folds

/-- The runtime parameters of the folded form hold the captured values. -/
theorem scalars_held : ∀ e ∈ folded.expressions, ps.HoldsScalars e.parts := by
  obtain ⟨s, run, rfl⟩ := Mutation.lift_eq_ok lifted
  intro e member
  obtain ⟨e₁, among, folded⟩ := exists_of_mem_right (mutation_folds folds).1 member
  obtain ⟨e₀, first, lifts⟩ := exists_of_mem_right (Lifting.mutation_lifts Lifting.numbered_empty run) among
  exact fun name inside => lifts.scalars (free.expressions e₀ first) name (runtime_mem_fold folded inside)

/-- The collections of the folded form are parameters that hold rows, each with a value for every field. -/
theorem collections_held : ∀ c ∈ folded.collections, ∃ name fields rows, c = .parameter name fields ∧
    ps.rows name = .ok rows ∧ ∀ r ∈ rows, r.length = fields.length := by
  intro c member
  rw [(mutation_folds folds).2] at member
  obtain ⟨c₀, first, lifts, uniform⟩ := exists_of_mem_right (Mutation.collections_collected lifted) member
  obtain ⟨fields, elements, rfl⟩ := free.collections c₀ first
  obtain ⟨name, rfl, held⟩ := lifts
  refine ⟨name, fields, _, rfl, held, fun r inside => ?_⟩
  obtain ⟨record, among, rfl⟩ := List.mem_map.1 inside
  rw [← uniform record among, List.length_map, List.length_map]

end

end Client

end Setwise
