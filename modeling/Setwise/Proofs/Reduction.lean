import Mathlib.Logic.Basic
import Setwise.Proofs.FoldedForms
import Setwise.Proofs.Meaning

/-!
Reduction of client expressions.

`Reduces` relates an expression to what becomes of it when constants are computed, double negations are
dropped and conditionals are decided, wherever this keeps the meaning: an equality must stay the same test for
NULL, and a negation may only be dropped in front of truth values. Folding is one way to reduce an expression
(`fold_reduces`), where the expression meets these conditions (`Expr.FoldsPlainly`).
-/

set_option autoImplicit false

namespace Setwise.Client

def Expr.isNormal (e : Expr) : Prop :=
  Expr.foldNot (Expr.foldNot e) = e

namespace Expr

section

variable (captured : String → Value → Expr) (runtime : String → Expr)

mutual

/-- Put something else in the place of captured values and runtime parameters. -/
def replace (e : Expr) : Expr :=
  match e with
  | .captured name v => captured name v
  | .runtime name => runtime name
  | .param name => .param name
  | .constant v => .constant v
  | .member of name => .member (replace of) name
  | .binary l op r => .binary (replace l) op (replace r)
  | .not operand => .not (replace operand)
  | .conditional test a b => .conditional (replace test) (replace a) (replace b)
  | .new type args bindings => .new type (replaceList args) (replaceBindings bindings)

def replaceList (es : List Expr) : List Expr :=
  match es with
  | [] => []
  | e :: rest => replace e :: replaceList rest

def replaceBindings (bs : List (Binding Expr)) : List (Binding Expr) :=
  match bs with
  | [] => []
  | b :: rest => replaceBinding b :: replaceBindings rest

def replaceBinding (b : Binding Expr) : Binding Expr :=
  match b with
  | .assign name value => .assign name (replace value)
  | .items name values => .items name (replaceList values)

end

end

def fill (known : String → Option Value) (e : Expr) : Expr :=
  e.replace .captured fun name => (known name).elim (.runtime name) .constant

def fillList (known : String → Option Value) (es : List Expr) : List Expr :=
  replaceList .captured (fun name => (known name).elim (.runtime name) .constant) es

def fillBindings (known : String → Option Value) (bs : List (Binding Expr)) : List (Binding Expr) :=
  replaceBindings .captured (fun name => (known name).elim (.runtime name) .constant) bs

end Expr

structure Reduction where
  /-- The expressions that stand for the constant NULL. -/
  null : Expr → Bool
  /-- The same among the reducts, which may be read in a scope of their own. -/
  nullReduct : Expr → Bool := null
  /-- The expressions that have truth values, so that negating them twice changes nothing. -/
  truth : Expr → Prop
  /-- The runtime parameters that are replaced by their values. -/
  known : String → Option Value := fun _ => none
  /-- The branches that may be given up when a test is decided. -/
  idle : Expr → Prop := fun _ => True

section

variable (R : Reduction)

mutual

inductive Reduces : Expr → Expr → Prop
  | param (name : String) : Reduces (.param name) (.param name)
  | constant (v : Value) : Reduces (.constant v) (.constant v)
  | captured (name : String) (v : Value) : Reduces (.captured name v) (.captured name v)
  | runtime (name : String) (unknown : R.known name = none) : Reduces (.runtime name) (.runtime name)
  | known (name : String) {v : Value} (found : R.known name = some v) : Reduces (.runtime name) (.constant v)
  | member {of of' : Expr} (name : String) (owner : Reduces of of') :
      Reduces (.member of name) (.member of' name)
  /-- An operator is applied to constants. -/
  | value {l r : Expr} {op : Operator} {v w u : Value} (left : Reduces l (.constant v))
      (right : Reduces r (.constant w)) (plain : op.isEquality = true → R.null l = false ∧ R.null r = false)
      (result : v.apply op w = .ok u) : Reduces (.binary l op r) (.constant u)
  | binary {l l' r r' : Expr} {op : Operator} (left : Reduces l l') (right : Reduces r r')
      (same : op.isEquality = true → R.null l = R.nullReduct l' ∧ R.null r = R.nullReduct r') :
      Reduces (.binary l op r) (.binary l' op r')
  /-- A negation is applied to a constant, or dropped together with another one. -/
  | not {e e' : Expr} (operand : Reduces e e') (normal : e'.isNormal)
      (dropped : ∀ inner, e' = .not inner → R.truth inner) : Reduces (.not e) (Expr.foldNot e')
  | decided {test a b e : Expr} {v : Value} (tested : Reduces test (.constant v))
      (branch : Reduces (if v.isTrue then a else b) e) (other : R.idle (if v.isTrue then b else a)) :
      Reduces (.conditional test a b) e
  | conditional {test test' a a' b b' : Expr} (tested : Reduces test test') (left : Reduces a a')
      (right : Reduces b b') : Reduces (.conditional test a b) (.conditional test' a' b')
  | new {type : Option String} {args args' : List Expr} {bs bs' : List (Binding Expr)}
      (length : args.length = args'.length) (bindings : BindingsReduce bs bs') :
      Reduces (.new type args bs) (.new type args' bs')

inductive BindingsReduce : List (Binding Expr) → List (Binding Expr) → Prop
  | nil : BindingsReduce [] []
  | assign {member : String} {e e' : Expr} {bs bs' : List (Binding Expr)} (value : Reduces e e')
      (rest : BindingsReduce bs bs') : BindingsReduce (.assign member e :: bs) (.assign member e' :: bs')
  | items {member : String} {es es' : List Expr} {bs bs' : List (Binding Expr)} (rest : BindingsReduce bs bs') :
      BindingsReduce (.items member es :: bs) (.items member es' :: bs')

end

end

section

variable {R : Reduction}

theorem Reduces.of_constant {v : Value} {e : Expr} (h : Reduces R (.constant v) e) : e = .constant v := by
  cases h
  rfl

theorem Reduces.of_new {type : Option String} {args : List Expr} {bs : List (Binding Expr)} {e : Expr}
    (h : Reduces R (.new type args bs) e) : ∃ args' bs', e = .new type args' bs' := by
  cases h
  exact ⟨_, _, rfl⟩

end

section

variable (R : Reduction)

/-- Writing out what is known in the operands makes no operand of an equality stand for NULL that did not. Two
constants are computed, so none of them may stand for NULL. -/
def NullsFilled (l r : Expr) : Bool :=
  match (l.fill R.known).fold, (r.fill R.known).fold with
  | .ok (.constant _), .ok (.constant _) => !R.null l && !R.null r
  | .ok l', .ok r' => R.null l == R.nullReduct l' && R.null r == R.nullReduct r'
  | _, _ => true

namespace Expr

mutual

/-- Writing out what is known in the expression, and folding it then, keeps every test for NULL, drops negations in
front of truth values only, and decides no conditional against a branch that may not be given up. -/
def FillsPlainly (e : Expr) : Prop :=
  match e with
  | .binary l op r =>
    FillsPlainly l ∧ FillsPlainly r ∧ (op.isEquality = true → NullsFilled R l r = true)
  | .not operand => FillsPlainly operand ∧ ∀ inner, (operand.fill R.known).fold = .ok (.not inner) → R.truth inner
  | .conditional test a b =>
    FillsPlainly test ∧
      match (test.fill R.known).fold with
      | .ok (.constant v) => if v.isTrue then FillsPlainly a ∧ R.idle b else FillsPlainly b ∧ R.idle a
      | _ => FillsPlainly a ∧ FillsPlainly b
  | .member of _ => FillsPlainly of
  | .new _ _ bindings => BindingsFillPlainly bindings
  | .param _ | .constant _ | .captured .. | .runtime _ => True

def BindingsFillPlainly (bs : List (Binding Expr)) : Prop :=
  match bs with
  | [] => True
  | b :: rest => BindingFillsPlainly b ∧ BindingsFillPlainly rest

def BindingFillsPlainly (b : Binding Expr) : Prop :=
  match b with
  | .assign _ value => FillsPlainly value
  | .items .. => True

end

end Expr

end

section

variable (null : Expr → Bool) (truth : Expr → Prop)

/-- Folding the operands makes no operand of an equality stand for NULL that did not. Two constants are
computed, so none of them may stand for NULL. -/
def NullsKept (l r : Expr) : Bool :=
  match l.fold, r.fold with
  | .ok (.constant _), .ok (.constant _) => !null l && !null r
  | .ok l', .ok r' => null l == null l' && null r == null r'
  | _, _ => true

namespace Expr

mutual

/-- Folding the expression keeps every test for NULL, and drops negations in front of truth values only. -/
def FoldsPlainly (e : Expr) : Prop :=
  match e with
  | .binary l op r =>
    FoldsPlainly l ∧ FoldsPlainly r ∧ (op.isEquality = true → NullsKept null l r = true)
  | .not operand => FoldsPlainly operand ∧ ∀ inner, operand.fold = .ok (.not inner) → truth inner
  | .conditional test a b =>
    FoldsPlainly test ∧
      match test.fold with
      | .ok (.constant v) => if v.isTrue then FoldsPlainly a else FoldsPlainly b
      | _ => FoldsPlainly a ∧ FoldsPlainly b
  | .member of _ => FoldsPlainly of
  | .new _ _ bindings => BindingsFoldPlainly bindings
  | .param _ | .constant _ | .captured .. | .runtime _ => True

def BindingsFoldPlainly (bs : List (Binding Expr)) : Prop :=
  match bs with
  | [] => True
  | b :: rest => BindingFoldsPlainly b ∧ BindingsFoldPlainly rest

def BindingFoldsPlainly (b : Binding Expr) : Prop :=
  match b with
  | .assign _ value => FoldsPlainly value
  | .items .. => True

end

end Expr

end

/-! ## Folded expressions -/

theorem normal_of_settled {e : Expr} (h : e.Settled) : e.isNormal := by
  unfold Expr.isNormal
  cases e with
  | not inner => exact Expr.foldNot_of_open (Expr.settled_not.1 h).2
  | constant v =>
    cases v with
    | bool b => simp [Expr.foldNot]
    | _ => rfl
  | _ => rfl

theorem fold_normal {e e' : Expr} (h : e.fold = .ok e') : e'.isNormal :=
  normal_of_settled (Expr.fold_settled h)

theorem foldList_length {es es' : List Expr} (h : Expr.foldList es = .ok es') : es.length = es'.length := by
  induction es generalizing es' with
  | nil =>
    obtain rfl := Except.ok.inj h
    rfl
  | cons e rest ih =>
    obtain ⟨e', first, h⟩ := bind_eq_ok.1 h
    obtain ⟨rest', later, h⟩ := bind_eq_ok.1 h
    obtain rfl := pure_eq_ok.1 h
    simp [ih later]

/-! ## Filling reduces -/

theorem replaceList_length (captured : String → Value → Expr) (runtime : String → Expr) (es : List Expr) :
    (Expr.replaceList captured runtime es).length = es.length := by
  induction es with
  | nil => rfl
  | cons e rest ih => simp [Expr.replaceList, ih]

section

variable {R : Reduction}

mutual

theorem filled_reduces {e e' : Expr} (h : (e.fill R.known).fold = .ok e') (plain : e.FillsPlainly R) :
    Reduces R e e' := by
  match e with
  | .param name =>
    obtain rfl := Except.ok.inj h
    exact .param name
  | .constant v =>
    obtain rfl := Except.ok.inj h
    exact .constant v
  | .captured name v =>
    obtain rfl := Except.ok.inj h
    exact .captured name v
  | .runtime name =>
    change Expr.fold ((R.known name).elim (.runtime name) .constant) = _ at h
    cases found : R.known name with
    | none =>
      rw [found] at h
      obtain rfl := Except.ok.inj h
      exact .runtime name found
    | some v =>
      rw [found] at h
      obtain rfl := Except.ok.inj h
      exact .known name found
  | .member of name =>
    obtain ⟨of', folded, h⟩ := bind_eq_ok.1 h
    obtain rfl := pure_eq_ok.1 h
    exact .member name (filled_reduces folded plain)
  | .binary l op r =>
    obtain ⟨l', left, h⟩ := bind_eq_ok.1 h
    obtain ⟨r', right, h⟩ := bind_eq_ok.1 h
    obtain ⟨plainLeft, plainRight, kept⟩ := plain
    have reducedLeft := filled_reduces left plainLeft
    have reducedRight := filled_reduces right plainRight
    -- the same equations, as `NullsFilled` mentions them
    have left : (l.fill R.known).fold = .ok l' := left
    have right : (r.fill R.known).fold = .ok r' := right
    unfold NullsFilled at kept
    rw [left, right] at kept
    unfold Expr.foldBinary at h
    split at h
    next v w =>
      -- both operands have become constants, and the operation with them
      split at h
      next u result =>
        obtain rfl := Except.ok.inj h
        refine .value reducedLeft reducedRight (fun equality => ?_) result
        simpa using kept equality
      next => cases h
    next notConstants =>
      obtain rfl := Except.ok.inj h
      refine .binary reducedLeft reducedRight fun equality => ?_
      have kept := kept equality
      split at kept
      next _ _ v w left right => exact absurd (Except.ok.inj right) (notConstants v w (Except.ok.inj left))
      next _ _ l'' r'' _ left right =>
        obtain rfl := Except.ok.inj left
        obtain rfl := Except.ok.inj right
        simpa using kept
      next other => exact (other l' r' rfl rfl).elim
  | .not operand =>
    obtain ⟨operand', folded, h⟩ := bind_eq_ok.1 h
    obtain rfl := pure_eq_ok.1 h
    refine .not (filled_reduces folded plain.1) (fold_normal folded) ?_
    rintro inner rfl
    exact plain.2 inner folded
  | .conditional test a b =>
    obtain ⟨test', tested, h⟩ := bind_eq_ok.1 h
    obtain ⟨plainTest, branches⟩ := plain
    have reducedTest := filled_reduces tested plainTest
    have tested : (test.fill R.known).fold = .ok test' := tested
    rw [tested] at branches
    split at h
    next _ v _ =>
      -- the test is decided, so only the branch that is taken has been filled
      cases chosen : v.isTrue with
      | true =>
        simp only [chosen, if_true] at h branches
        have branch := filled_reduces h branches.1
        exact .decided reducedTest (by rwa [if_pos chosen]) (by rw [if_pos chosen]; exact branches.2)
      | false =>
        simp only [chosen, Bool.false_eq_true, if_false] at h branches
        have branch := filled_reduces h branches.1
        exact .decided reducedTest (by rwa [chosen]) (by rw [chosen]; exact branches.2)
    next notConstant =>
      obtain ⟨a', left, h⟩ := bind_eq_ok.1 h
      obtain ⟨b', right, h⟩ := bind_eq_ok.1 h
      obtain rfl := pure_eq_ok.1 h
      split at branches
      next v constant => exact absurd (Except.ok.inj constant) (notConstant v)
      next => exact .conditional reducedTest (filled_reduces left branches.1) (filled_reduces right branches.2)
  | .new type args bindings =>
    obtain ⟨bs, first, h⟩ := bind_eq_ok.1 h
    obtain ⟨as, second, h⟩ := bind_eq_ok.1 h
    obtain rfl := pure_eq_ok.1 h
    exact .new ((replaceList_length _ _ args).symm.trans (foldList_length second)) (filledBindings_reduce first plain)
termination_by structural e

theorem filledBindings_reduce {bs bs' : List (Binding Expr)}
    (h : Expr.foldBindings (Expr.fillBindings R.known bs) = .ok bs') (plain : Expr.BindingsFillPlainly R bs) :
    BindingsReduce R bs bs' := by
  match bs with
  | [] =>
    obtain rfl := Except.ok.inj h
    exact .nil
  | .assign member value :: rest =>
    obtain ⟨b, first, h⟩ := bind_eq_ok.1 h
    obtain ⟨rest', later, h⟩ := bind_eq_ok.1 h
    obtain rfl := pure_eq_ok.1 h
    have first : Expr.foldBinding (.assign member (value.fill R.known)) = .ok b := first
    obtain ⟨value', folded, first⟩ := bind_eq_ok.1 first
    obtain rfl := pure_eq_ok.1 first
    exact .assign (filled_reduces folded plain.1) (filledBindings_reduce later plain.2)
  | .items member values :: rest =>
    obtain ⟨b, first, h⟩ := bind_eq_ok.1 h
    obtain ⟨rest', later, h⟩ := bind_eq_ok.1 h
    obtain rfl := pure_eq_ok.1 h
    have first : Expr.foldBinding (.items member (Expr.fillList R.known values)) = .ok b := first
    obtain ⟨values', folded, first⟩ := bind_eq_ok.1 first
    obtain rfl := pure_eq_ok.1 first
    exact .items (filledBindings_reduce later plain.2)
termination_by structural bs

end

end

/-! ## Folding before filling -/

theorem foldBinary_within {whole l r e : Expr} {op : Operator} (h : Expr.foldBinary whole l op r = .ok e)
    (whole' : Expr) : Expr.foldBinary whole' l op r = .ok e := by
  unfold Expr.foldBinary at h ⊢
  split at h
  next v w =>
    split at h
    next => exact h
    next => cases h
  next => exact h

theorem foldBinary_eq_ok {whole l r e : Expr} {op : Operator} (h : Expr.foldBinary whole l op r = .ok e) :
    (∃ v w u, l = .constant v ∧ r = .constant w ∧ e = .constant u) ∨ e = .binary l op r := by
  unfold Expr.foldBinary at h
  split at h
  next v w =>
    split at h
    next u _ => exact .inl ⟨v, w, u, rfl, rfl, (Except.ok.inj h).symm⟩
    next => cases h
  next => exact .inr (Except.ok.inj h).symm

section

variable {known : String → Option Value}

theorem foldNot_filled {e w : Expr} (h : (e.fill known).fold = .ok w) :
    ((Expr.foldNot e).fill known).fold = .ok (Expr.foldNot w) := by
  have negated (e : Expr) (h : (e.fill known).fold = .ok w) :
      ((Expr.not e).fill known).fold = .ok (Expr.foldNot w) :=
    bind_eq_ok.2 ⟨w, h, rfl⟩
  cases e with
  | not inner =>
    obtain ⟨inner', folded, h⟩ := bind_eq_ok.1 h
    obtain rfl := pure_eq_ok.1 h
    have normal : Expr.foldNot (Expr.foldNot inner') = inner' := fold_normal folded
    rwa [normal]
  | constant v =>
    obtain rfl := Except.ok.inj h
    cases v <;> rfl
  | _ => exact negated _ h

mutual

/-- Where an expression can be folded before and after its known parameters are written out, folding first changes
nothing in the end. -/
theorem fold_filled {e e' w : Expr} (first : e.fold = .ok e') (filled : (e.fill known).fold = .ok w) :
    (e'.fill known).fold = .ok w := by
  match e with
  | .param _ | .constant _ | .captured .. | .runtime _ =>
    obtain rfl := Except.ok.inj first
    exact filled
  | .member of name =>
    obtain ⟨of', folded, first⟩ := bind_eq_ok.1 first
    obtain rfl := pure_eq_ok.1 first
    obtain ⟨of'', inside, filled⟩ := bind_eq_ok.1 filled
    exact bind_eq_ok.2 ⟨of'', fold_filled folded inside, filled⟩
  | .not operand =>
    obtain ⟨operand', folded, first⟩ := bind_eq_ok.1 first
    obtain rfl := pure_eq_ok.1 first
    obtain ⟨operand'', inside, filled⟩ := bind_eq_ok.1 filled
    obtain rfl := pure_eq_ok.1 filled
    exact foldNot_filled (fold_filled folded inside)
  | .binary l op r =>
    obtain ⟨l', left, first⟩ := bind_eq_ok.1 first
    obtain ⟨r', right, first⟩ := bind_eq_ok.1 first
    obtain ⟨l'', left', filled⟩ := bind_eq_ok.1 filled
    obtain ⟨r'', right', filled⟩ := bind_eq_ok.1 filled
    have lefts := fold_filled left left'
    have rights := fold_filled right right'
    obtain ⟨v, v', u, rfl, rfl, rfl⟩ | rfl := foldBinary_eq_ok first
    · -- the operands were constants before they were filled
      obtain rfl := Except.ok.inj lefts
      obtain rfl := Except.ok.inj rights
      exact (foldBinary_within first _).symm.trans filled
    · exact bind_eq_ok.2 ⟨l'', lefts, bind_eq_ok.2 ⟨r'', rights, foldBinary_within filled _⟩⟩
  | .conditional test a b =>
    obtain ⟨test', tested, first⟩ := bind_eq_ok.1 first
    obtain ⟨test'', tested', filled⟩ := bind_eq_ok.1 filled
    have tests := fold_filled tested tested'
    split at first
    next v =>
      -- the test was a constant before it was filled
      obtain rfl := Except.ok.inj tests
      dsimp only at filled
      split at first
      next chosen =>
        rw [if_pos chosen] at filled
        exact fold_filled first filled
      next chosen =>
        rw [if_neg chosen] at filled
        exact fold_filled first filled
    next =>
      obtain ⟨a', left, first⟩ := bind_eq_ok.1 first
      obtain ⟨b', right, first⟩ := bind_eq_ok.1 first
      obtain rfl := pure_eq_ok.1 first
      refine bind_eq_ok.2 ⟨test'', tests, ?_⟩
      split at filled
      next v =>
        -- the values that are filled in decide the test
        split at filled
        next chosen =>
          rw [if_pos chosen]
          exact fold_filled left filled
        next chosen =>
          rw [if_neg chosen]
          exact fold_filled right filled
      next notConstant =>
        obtain ⟨a'', left', filled⟩ := bind_eq_ok.1 filled
        obtain ⟨b'', right', filled⟩ := bind_eq_ok.1 filled
        exact bind_eq_ok.2 ⟨a'', fold_filled left left', bind_eq_ok.2 ⟨b'', fold_filled right right', filled⟩⟩
  | .new type args bindings =>
    obtain ⟨bs, inside, first⟩ := bind_eq_ok.1 first
    obtain ⟨as, arguments, first⟩ := bind_eq_ok.1 first
    obtain rfl := pure_eq_ok.1 first
    obtain ⟨bs', inside', filled⟩ := bind_eq_ok.1 filled
    obtain ⟨as', arguments', filled⟩ := bind_eq_ok.1 filled
    exact bind_eq_ok.2 ⟨bs', foldBindings_filled inside inside',
      bind_eq_ok.2 ⟨as', foldList_filled arguments arguments', filled⟩⟩
termination_by structural e

theorem foldList_filled {es es' ws : List Expr} (first : Expr.foldList es = .ok es')
    (filled : Expr.foldList (Expr.fillList known es) = .ok ws) :
    Expr.foldList (Expr.fillList known es') = .ok ws := by
  match es with
  | [] =>
    obtain rfl := Except.ok.inj first
    exact filled
  | e :: rest =>
    obtain ⟨e', here, first⟩ := bind_eq_ok.1 first
    obtain ⟨rest', later, first⟩ := bind_eq_ok.1 first
    obtain rfl := pure_eq_ok.1 first
    obtain ⟨w, here', filled⟩ := bind_eq_ok.1 filled
    obtain ⟨ws, later', filled⟩ := bind_eq_ok.1 filled
    exact bind_eq_ok.2 ⟨w, fold_filled here here', bind_eq_ok.2 ⟨ws, foldList_filled later later', filled⟩⟩
termination_by structural es

theorem foldBindings_filled {bs bs' ws : List (Binding Expr)} (first : Expr.foldBindings bs = .ok bs')
    (filled : Expr.foldBindings (Expr.fillBindings known bs) = .ok ws) :
    Expr.foldBindings (Expr.fillBindings known bs') = .ok ws := by
  match bs with
  | [] =>
    obtain rfl := Except.ok.inj first
    exact filled
  | .assign member value :: rest =>
    obtain ⟨b', here, first⟩ := bind_eq_ok.1 first
    obtain ⟨rest', later, first⟩ := bind_eq_ok.1 first
    obtain rfl := pure_eq_ok.1 first
    obtain ⟨value', folded, here⟩ := bind_eq_ok.1 here
    obtain rfl := pure_eq_ok.1 here
    obtain ⟨b'', here', filled⟩ := bind_eq_ok.1 filled
    obtain ⟨rest'', later', filled⟩ := bind_eq_ok.1 filled
    obtain ⟨value'', folded', here'⟩ := bind_eq_ok.1 here'
    exact bind_eq_ok.2 ⟨b'', bind_eq_ok.2 ⟨value'', fold_filled folded folded', here'⟩,
      bind_eq_ok.2 ⟨rest'', foldBindings_filled later later', filled⟩⟩
  | .items member values :: rest =>
    obtain ⟨b', here, first⟩ := bind_eq_ok.1 first
    obtain ⟨rest', later, first⟩ := bind_eq_ok.1 first
    obtain rfl := pure_eq_ok.1 first
    obtain ⟨values', folded, here⟩ := bind_eq_ok.1 here
    obtain rfl := pure_eq_ok.1 here
    obtain ⟨b'', here', filled⟩ := bind_eq_ok.1 filled
    obtain ⟨rest'', later', filled⟩ := bind_eq_ok.1 filled
    obtain ⟨values'', folded', here'⟩ := bind_eq_ok.1 here'
    exact bind_eq_ok.2 ⟨b'', bind_eq_ok.2 ⟨values'', foldList_filled folded folded', here'⟩,
      bind_eq_ok.2 ⟨rest'', foldBindings_filled later later', filled⟩⟩
termination_by structural bs

end

end

/-! ## Folding reduces -/

mutual

theorem fill_none (e : Expr) : e.fill (fun _ => none) = e := by
  match e with
  | .param _ | .constant _ | .captured .. | .runtime _ => rfl
  | .member of name => exact congrArg (Expr.member · name) (fill_none of)
  | .binary l op r => exact congrArg₂ (Expr.binary · op ·) (fill_none l) (fill_none r)
  | .not operand => exact congrArg Expr.not (fill_none operand)
  | .conditional test a b =>
    have branches := congrArg₂ (Expr.conditional (test.fill fun _ => none)) (fill_none a) (fill_none b)
    exact branches.trans (congrArg (Expr.conditional · a b) (fill_none test))
  | .new type args bindings =>
    exact congrArg₂ (Expr.new type) (fillList_none args) (fillBindings_none bindings)

theorem fillList_none (es : List Expr) : Expr.fillList (fun _ => none) es = es := by
  match es with
  | [] => rfl
  | e :: rest => exact congrArg₂ List.cons (fill_none e) (fillList_none rest)

theorem fillBindings_none (bs : List (Binding Expr)) : Expr.fillBindings (fun _ => none) bs = bs := by
  match bs with
  | [] => rfl
  | .assign member value :: rest =>
    exact congrArg₂ List.cons (congrArg (Binding.assign member) (fill_none value)) (fillBindings_none rest)
  | .items member values :: rest =>
    exact congrArg₂ List.cons (congrArg (Binding.items member) (fillList_none values)) (fillBindings_none rest)

end

section

variable {null : Expr → Bool} {truth : Expr → Prop}

mutual

theorem fillsPlainly_of_folds {e : Expr} (plain : e.FoldsPlainly null truth) : e.FillsPlainly { null, truth } := by
  match e with
  | .param _ | .constant _ | .captured .. | .runtime _ => trivial
  | .member of name => exact fillsPlainly_of_folds (e := of) plain
  | .binary l op r =>
    obtain ⟨left, right, kept⟩ := plain
    refine ⟨fillsPlainly_of_folds left, fillsPlainly_of_folds right, ?_⟩
    unfold NullsFilled
    rwa [fill_none, fill_none]
  | .not operand =>
    refine ⟨fillsPlainly_of_folds plain.1, ?_⟩
    rw [fill_none]
    exact plain.2
  | .conditional test a b =>
    refine ⟨fillsPlainly_of_folds plain.1, ?_⟩
    have branches := plain.2
    rw [fill_none]
    -- only the branch that is chosen has to fold plainly
    split at branches
    next v =>
      split at branches
      next chosen =>
        rw [if_pos chosen]
        exact ⟨fillsPlainly_of_folds branches, trivial⟩
      next chosen =>
        rw [if_neg chosen]
        exact ⟨fillsPlainly_of_folds branches, trivial⟩
    next => exact ⟨fillsPlainly_of_folds branches.1, fillsPlainly_of_folds branches.2⟩
  | .new type args bindings => exact bindingsFillPlainly_of_fold bindings plain

theorem bindingsFillPlainly_of_fold (bs : List (Binding Expr)) (plain : Expr.BindingsFoldPlainly null truth bs) :
    Expr.BindingsFillPlainly { null, truth } bs := by
  match bs with
  | [] => trivial
  | .assign member value :: rest => exact ⟨fillsPlainly_of_folds plain.1, bindingsFillPlainly_of_fold rest plain.2⟩
  | .items member values :: rest => exact ⟨trivial, bindingsFillPlainly_of_fold rest plain.2⟩

end

theorem fold_reduces {e e' : Expr} (h : e.fold = .ok e') (plain : e.FoldsPlainly null truth) :
    Reduces { null, truth } e e' :=
  filled_reduces (by rwa [fill_none]) (fillsPlainly_of_folds plain)

end

end Setwise.Client
