import Setwise.Proofs.Reading

/-!
Phrases read back as the expressions that they are written for.

What `read` makes of a phrase is its expression, up to the grouping of nested conjunctions and of nested
disjunctions (`phrases_read_back`). SQLite writes no parentheses around a negation, so there this holds only
where no negation is the left operand of arithmetic or of a comparison, or is tested for NULL.
-/

set_option autoImplicit false

namespace Setwise.Sql

open Relational Execution

/-! ## Operands and what is pending in front of them -/

def Unsettled (level : Nat) : List Pending → Prop
  | .left _ op :: _ => precedence op < level
  | .negation :: _ => negationPrecedence < level
  | _ => True

theorem Unsettled.settle {level : Nat} {pending : List Pending} (h : Unsettled level pending) (a : Scalar) :
    settle level pending a = (pending, a) := by
  unfold Sql.settle
  split
  next a op rest b => exact if_neg (Nat.not_le.2 h)
  next rest b => exact if_neg (Nat.not_le.2 h)
  next => rfl

theorem Unsettled.mono {level level' : Nat} {pending : List Pending} (h : Unsettled level pending)
    (le : level ≤ level') : Unsettled level' pending := by
  unfold Unsettled at h ⊢
  split <;> simp_all <;> omega

theorem unsettled_greatest (pending : List Pending) : Unsettled 7 pending := by
  unfold Unsettled
  split
  next a op rest => cases op <;> simp [precedence]
  next => simp [negationPrecedence]
  next => trivial

/-- Behind the pending ones, the tokens are read as an operand once something arrives that binds no tighter
than the level. -/
def ReadsAs (ts : List Token) (pending : List Pending) (level : Nat) (a : Scalar) : Prop :=
  ∃ rest b, ts.foldlM readToken (pending, none) = some (rest, some b) ∧
    ∀ k ≤ level, settle k rest b = settle k pending a

section

variable {ts us vs : List Token} {pending : List Pending} {level level' level'' : Nat} {a b c : Scalar}

theorem ReadsAs.mono (h : ReadsAs ts pending level a) (le : level' ≤ level) : ReadsAs ts pending level' a := by
  obtain ⟨rest, b, run, same⟩ := h
  exact ⟨rest, b, run, fun k below => same k (Nat.le_trans below le)⟩

theorem readsAs_of_run (run : ts.foldlM readToken (pending, none) = some (pending, some a)) (level : Nat) :
    ReadsAs ts pending level a :=
  ⟨pending, a, run, fun _ _ => rfl⟩

theorem ReadsAs.operator (h : ReadsAs ts pending level a) {op : Operator}
    (unsettled : Unsettled (precedence op) pending) (le : precedence op ≤ level) :
    (ts ++ [Token.operator op]).foldlM readToken (pending, none) = some (.left a op :: pending, none) := by
  obtain ⟨rest, b, run, same⟩ := h
  have settled := (same _ le).trans (unsettled.settle a)
  simp [List.foldlM_append, run, readToken, readBehind, settled]

theorem ReadsAs.binary (left : ReadsAs ts pending level a) {op : Operator}
    (unsettled : Unsettled (precedence op) pending) (le : precedence op ≤ level)
    (right : ReadsAs us (.left a op :: pending) level' b) :
    ReadsAs (ts ++ .operator op :: us) pending (min level' (precedence op)) (.binary a op b) := by
  obtain ⟨rest, c, run, same⟩ := right
  refine ⟨rest, c, ?_, fun k below => ?_⟩
  · rw [List.append_cons, List.foldlM_append, left.operator unsettled le]
    exact run
  · rw [same k (by omega), settle, if_pos (by omega)]

theorem ReadsAs.test (h : ReadsAs ts pending level a) (unsettled : Unsettled testPrecedence pending)
    (le : testPrecedence ≤ level) (level' : Nat) :
    ReadsAs (ts ++ [.isNull]) pending level' (.isNull a) ∧
      ReadsAs (ts ++ [.isNotNull]) pending level' (.isNotNull a) := by
  obtain ⟨rest, b, run, same⟩ := h
  have settled := (same _ le).trans (unsettled.settle a)
  constructor <;> refine readsAs_of_run ?_ level' <;>
    simp [List.foldlM_append, run, readToken, readBehind, settled]

theorem ReadsAs.inside {p : Pending} (h : ReadsAs ts (p :: pending) level a)
    (delimiter : Unsettled 0 (p :: pending)) :
    ∃ rest b, ts.foldlM readToken (p :: pending, none) = some (rest, some b) ∧
      settle 0 rest b = (p :: pending, a) := by
  obtain ⟨rest, b, run, same⟩ := h
  exact ⟨rest, b, run, (same 0 (Nat.zero_le _)).trans (delimiter.settle a)⟩

theorem ReadsAs.paren (h : ReadsAs ts (.paren :: pending) level a) (level' : Nat) :
    ReadsAs (.opening :: ts ++ [.closing]) pending level' a := by
  obtain ⟨rest, b, run, settled⟩ := h.inside trivial
  refine readsAs_of_run ?_ level'
  simp [List.foldlM_append, run, readToken, readOperand, readBehind, settled]

theorem ReadsAs.not (h : ReadsAs ts (.paren :: .negation :: pending) level a) :
    ReadsAs (.negation :: .opening :: ts ++ [.closing]) pending negationPrecedence (.not a) := by
  obtain ⟨rest, b, run, settled⟩ := h.inside trivial
  refine ⟨.negation :: pending, a, ?_, fun k below => ?_⟩
  · simp [List.foldlM_append, run, readToken, readOperand, readBehind, settled]
  · rw [settle, if_pos below]

theorem ReadsAs.coalesce (first : ReadsAs ts (.first :: pending) level a)
    (second : ReadsAs us (.second a :: pending) level' b) (after : Nat) :
    ReadsAs (.coalesce :: ts ++ .comma :: us ++ [.closing]) pending after (.binary a .coalesce b) := by
  obtain ⟨rest, a', run, settled⟩ := first.inside trivial
  obtain ⟨rest', b', run', settled'⟩ := second.inside trivial
  refine readsAs_of_run ?_ after
  simp [List.foldlM_append, run, run', readToken, readOperand, readBehind, settled, settled']

theorem ReadsAs.case (test : ReadsAs ts (.test :: pending) level a)
    (consequent : ReadsAs us (.consequent a :: pending) level' b)
    (alternative : ReadsAs vs (.alternative a b :: pending) level'' c) (after : Nat) :
    ReadsAs (.caseWhen :: ts ++ .thenWord :: us ++ .elseWord :: vs ++ [.endWord]) pending after
      (.case a b c) := by
  obtain ⟨rest, a', run, settled⟩ := test.inside trivial
  obtain ⟨rest', b', run', settled'⟩ := consequent.inside trivial
  obtain ⟨rest'', c', run'', settled''⟩ := alternative.inside trivial
  refine readsAs_of_run ?_ after
  simp [List.foldlM_append, run, run', run'', readToken, readOperand, readBehind, settled, settled', settled'']

end

/-! ## Operands and operators -/

def isNegation : Scalar → Bool
  | .not _ => true
  | _ => false

/-- No negation is the left operand of arithmetic or of a comparison, or is tested for NULL. -/
def negationsApart : Scalar → Bool
  | .binary l op r =>
    negationsApart l && negationsApart r && (op == .and || op == .or || op == .coalesce || !isNegation l)
  | .not e => negationsApart e
  | .isNull e | .isNotNull e => negationsApart e && !isNegation e
  | .case test a b => negationsApart test && negationsApart a && negationsApart b
  | _ => true

def lead : Scalar → Nat
  | .binary _ op _ => if op = .coalesce then 7 else if op = .and ∨ op = .or then precedence op else 4
  | .isNull _ | .isNotNull _ => testPrecedence
  | _ => 7

def trail (d : Dialect) : Scalar → Nat
  | .binary _ op _ =>
    if op = .coalesce then 7
    else if op = .and ∨ op = .or then precedence op
    else match d with
      | .sqlite => negationPrecedence
      | .sqlServer => precedence op
  | .not _ => negationPrecedence
  | _ => 7

section

variable {d : Dialect} {e : Scalar}

def PhraseReads (d : Dialect) (e : Scalar) : Prop :=
  ∀ pending, Unsettled (lead e) pending →
    ReadsAs (d.phrase e).tokens pending (trail d e) (regroup (d.converted e))

theorem PhraseReads.value (h : PhraseReads d e) (pending : List Pending) (unsettled : Unsettled (lead e) pending) :
    ReadsAs (d.value e).tokens pending (trail d e) (regroup (d.valueForm e)) := by
  unfold Dialect.value Dialect.valueForm
  cases d with
  | sqlite => exact h pending unsettled
  | sqlServer =>
    unfold Dialect.asValue Dialect.conditionAsValue
    cases isCondition e with
    | false => exact h pending unsettled
    | true =>
      have inside := h (.test :: pending) trivial
      exact inside.case (readsAs_of_run rfl 0) (readsAs_of_run rfl 0) _

theorem PhraseReads.condition (h : PhraseReads d e) (pending : List Pending)
    (unsettled : Unsettled (min (lead e) 4) pending) :
    ReadsAs (d.condition e).tokens pending (min (trail d e) 4) (regroup (d.conditionForm e)) := by
  have own := h pending (unsettled.mono (Nat.min_le_left _ _))
  unfold Dialect.condition Dialect.conditionForm
  cases d with
  | sqlite => exact own.mono (Nat.min_le_left _ _)
  | sqlServer =>
    unfold Dialect.asCondition Dialect.valueAsCondition
    cases condition : isCondition e with
    | true => exact own.mono (Nat.min_le_left _ _)
    | false =>
      -- the operator of the conversion comes behind a phrase that ends in a tighter one
      have tight : 4 ≤ trail .sqlServer e := by
        cases e with
        | binary l op r => cases op <;> simp_all [isCondition, Operator.isArithmetic, trail, precedence]
        | not e => cases condition
        | _ => simp [trail]
      have loose : Unsettled (precedence .equal) pending := unsettled.mono (Nat.min_le_right _ _)
      have literal : ∀ pending, ReadsAs [.literal (.bool true)] pending 4 (.constant (.bool true)) :=
        fun _ => readsAs_of_run rfl 4
      have equation := own.binary loose tight (literal _)
      exact equation.mono (Nat.min_le_right _ _)

theorem PhraseReads.operand (h : PhraseReads d e) (pending : List Pending) :
    ReadsAs (d.asOperand e (d.phrase e)).tokens pending
      (if d = .sqlite ∧ isNegation e then negationPrecedence else 7) (regroup (d.valueForm e)) := by
  have inside := (h.value (.paren :: pending) trivial).paren 7
  cases e with
  | binary l op r =>
    rw [if_neg (by simp [isNegation])]
    unfold Dialect.asOperand
    dsimp only
    split
    next coalesce =>
      subst coalesce
      exact h.value pending (unsettled_greatest pending)
    next => exact inside
  | isNull e | isNotNull e =>
    rw [if_neg (by simp [isNegation])]
    exact inside
  | not e =>
    have whole := h.value pending (unsettled_greatest pending)
    cases d with
    | sqlite => exact whole
    | sqlServer =>
      -- the dialect writes a negation as a case, which delimits itself
      have within := h (.test :: pending) trivial
      exact within.case (readsAs_of_run rfl 0) (readsAs_of_run rfl 0) _
  | column | constant | parameter | excluded | case =>
    rw [if_neg (by simp [isNegation])]
    exact h.value pending (unsettled_greatest pending)

/-! ## Connectives -/

theorem precedence_of_connective {op : Operator} (connective : op = .and ∨ op = .or) :
    precedence op < negationPrecedence := by
  rcases connective with rfl | rfl <;> decide

theorem isCondition_of_appliesTo {op : Operator} (connective : op = .and ∨ op = .or)
    (applies : appliesTo op e = true) : isCondition e = true := by
  cases e with
  | binary l op' r =>
    obtain rfl : op' = op := by simpa [appliesTo] using applies
    rcases connective with rfl | rfl <;> rfl
  | _ => cases applies

theorem appliesTo_conditionForm {op : Operator} (connective : op = .and ∨ op = .or) (e : Scalar) :
    appliesTo op (d.conditionForm e) = appliesTo op e := by
  have head : appliesTo op (d.converted e) = appliesTo op e := by
    cases e with
    | binary l op' r =>
      unfold Dialect.converted
      split <;> rfl
    | _ => rfl
  unfold Dialect.conditionForm Dialect.valueAsCondition
  cases d with
  | sqlite => exact head
  | sqlServer =>
    cases condition : isCondition e with
    | true => exact head
    | false =>
      have equation : appliesTo op (.binary (Dialect.sqlServer.converted e) .equal (.constant (.bool true))) =
          false := by rcases connective with rfl | rfl <;> rfl
      have value : appliesTo op e = false :=
        Bool.eq_false_iff.2 fun applies => by simp [isCondition_of_appliesTo connective applies] at condition
      exact equation.trans value.symm

theorem tight_of_neither (neither : ∀ op, op = .and ∨ op = .or → appliesTo op e = false) :
    4 ≤ lead e ∧ negationPrecedence ≤ trail d e := by
  cases e with
  | binary l op r =>
    have other : ¬(op = .and ∨ op = .or) := fun is => by simpa [appliesTo] using neither op is
    cases d <;> cases op <;> simp_all [lead, trail, precedence, negationPrecedence]
  | _ => simp [lead, trail, testPrecedence, negationPrecedence]

theorem PhraseReads.connectiveOperand (h : PhraseReads d e) {op : Operator} (other : appliesTo op e = false)
    {pending : List Pending} (unsettled : Unsettled 4 pending) :
    ReadsAs (d.asConnectiveOperand op e (d.phrase e)).tokens pending negationPrecedence
      (regroup (d.conditionForm e)) := by
  by_cases neither : ∀ op, op = .and ∨ op = .or → appliesTo op e = false
  · obtain ⟨front, behind⟩ := (tight_of_neither neither : 4 ≤ lead e ∧ negationPrecedence ≤ trail d e)
    -- anything but a connective stands as it is, and binds tighter than both
    have plain : d.asConnectiveOperand op e (d.phrase e) = d.condition e := by
      cases e with
      | binary l op' r =>
        have : ¬(op' = .and ∨ op' = .or) := fun is => by simpa [appliesTo] using neither op' is
        exact if_neg fun both => this both.1
      | _ => rfl
    rw [plain]
    exact (h.condition pending (unsettled.mono (by omega))).mono (by simp [negationPrecedence] at *; omega)
  · -- an application of the other connective stands in parentheses
    obtain ⟨op', applied⟩ := Classical.not_forall.1 neither
    obtain ⟨connective', applies⟩ := Classical.not_imp.1 applied
    have applies := Bool.of_not_eq_false applies
    cases e with
    | binary l op'' r =>
      obtain rfl : op'' = op' := by simpa [appliesTo] using applies
      have plain : d.asConnectiveOperand op (.binary l op'' r) (d.phrase (.binary l op'' r)) =
          .paren (d.condition (.binary l op'' r)) :=
        if_pos ⟨connective', by simpa [appliesTo] using other⟩
      rw [plain]
      exact (h.condition (.paren :: pending) trivial).paren negationPrecedence
    | _ => cases applies

/-- An operand of a connective is read into what stands in front of it, all of its own operands if it is an
application of the same connective. -/
def ChainReads (d : Dialect) (op : Operator) (e : Scalar) : Prop :=
  ∀ pending a, Unsettled (precedence op) pending →
    ∃ rest b, (d.asConnectiveOperand op e (d.phrase e)).tokens.foldlM readToken (.left a op :: pending, none) =
        some (rest, some b) ∧
      ∀ k ≤ precedence op, settle k rest b = settle k pending (graft op a (regroup (d.conditionForm e)))

theorem PhraseReads.chain (h : PhraseReads d e) {op : Operator} (connective : op = .and ∨ op = .or)
    (other : appliesTo op e = false) : ChainReads d op e := by
  intro pending a unsettled
  have loose := precedence_of_connective connective
  have unsettled' : Unsettled 4 (.left a op :: pending) := Nat.lt_trans loose (by decide)
  obtain ⟨rest, b, run, same⟩ := h.connectiveOperand other unsettled'
  refine ⟨rest, b, run, fun k below => ?_⟩
  have apart : appliesTo op (regroup (d.conditionForm e)) = false := by
    rw [appliesTo_regroup, appliesTo_conditionForm connective, other]
  rw [same k (by omega), settle, if_pos below, graft_of_other apart]

section

variable {l r : Scalar} {op : Operator}

theorem phrase_connective (connective : op = .and ∨ op = .or) :
    d.phrase (.binary l op r) =
      .binary (d.asConnectiveOperand op l (d.phrase l)) op (d.asConnectiveOperand op r (d.phrase r)) := by
  rcases connective with rfl | rfl <;> simp [Dialect.phrase]

theorem asConnectiveOperand_same (connective : op = .and ∨ op = .or) (p : Phrase) :
    d.asConnectiveOperand op (.binary l op r) p = p := by
  cases d <;> rcases connective with rfl | rfl <;> rfl

theorem regroup_converted_connective (connective : op = .and ∨ op = .or) :
    regroup (d.converted (.binary l op r)) =
      graft op (regroup (d.conditionForm l)) (regroup (d.conditionForm r)) := by
  rcases connective with rfl | rfl <;> rfl

theorem conditionForm_connective (connective : op = .and ∨ op = .or) :
    d.conditionForm (.binary l op r) = d.converted (.binary l op r) := by
  cases d <;> rcases connective with rfl | rfl <;> rfl

theorem ChainReads.both (connective : op = .and ∨ op = .or) (left : ChainReads d op l) (right : ChainReads d op r) :
    ChainReads d op (.binary l op r) := by
  intro pending a unsettled
  obtain ⟨rest, b, run, same⟩ := left pending a unsettled
  obtain ⟨rest', b', run', same'⟩ := right pending (graft op a (regroup (d.conditionForm l))) unsettled
  have settled := (same _ (Nat.le_refl _)).trans (unsettled.settle _)
  refine ⟨rest', b', ?_, fun k below => ?_⟩
  · rw [asConnectiveOperand_same connective, phrase_connective connective, Phrase.tokens, List.append_cons]
    simp only [List.foldlM_append, run, List.foldlM_cons, List.foldlM_nil, Option.bind_eq_bind, Option.bind_some,
      readToken, readBehind, settled]
    exact run'
  · rw [same' k below, conditionForm_connective connective, regroup_converted_connective connective, graft_graft]

theorem PhraseReads.connective (connective : op = .and ∨ op = .or) (left : PhraseReads d l)
    (right : ChainReads d op r) : PhraseReads d (.binary l op r) := by
  intro pending unsettled
  have front : lead (.binary l op r) = precedence op := by rcases connective with rfl | rfl <;> rfl
  have behind : trail d (.binary l op r) = precedence op := by rcases connective with rfl | rfl <;> rfl
  rw [front] at unsettled
  rw [behind, regroup_converted_connective connective, phrase_connective connective]
  have loose := precedence_of_connective connective
  -- an operand of the same connective goes without parentheses; any other one reads tighter, in parentheses if it must
  have first : ReadsAs (d.asConnectiveOperand op l (d.phrase l)).tokens pending (precedence op)
      (regroup (d.conditionForm l)) := by
    cases applies : appliesTo op l with
    | false =>
      have tight : precedence op ≤ 4 := Nat.le_of_lt (Nat.lt_trans loose (by decide))
      exact (left.connectiveOperand applies (unsettled.mono tight)).mono (Nat.le_of_lt loose)
    | true =>
      cases l with
      | binary l' op' r' =>
        obtain rfl : op' = op := by simpa [appliesTo] using applies
        have own := left pending
        rw [show lead (.binary l' op' r') = precedence op' by rcases connective with rfl | rfl <;> rfl,
          show trail d (.binary l' op' r') = precedence op' by rcases connective with rfl | rfl <;> rfl] at own
        rw [asConnectiveOperand_same connective, conditionForm_connective connective]
        exact own unsettled
      | _ => cases applies
  -- the right operand is read behind the left one, which regroups the chain to the left
  obtain ⟨rest, b, run, same⟩ := right pending (regroup (d.conditionForm l)) unsettled
  refine ⟨rest, b, ?_, same⟩
  rw [Phrase.tokens, List.append_cons, List.foldlM_append, first.operator unsettled (Nat.le_refl _)]
  exact run

theorem PhraseReads.calculation (neither : ¬(op = .and ∨ op = .or)) (function : op ≠ .coalesce)
    (apart : d = .sqlite → isNegation l = false) (left : PhraseReads d l) (right : PhraseReads d r) :
    PhraseReads d (.binary l op r) := by
  intro pending unsettled
  have front : lead (.binary l op r) = 4 := by simp [lead, neither, function]
  have tight : 4 ≤ precedence op ∧ precedence op ≤ 7 := by cases op <;> simp_all [precedence]
  rw [front] at unsettled
  have first := left.operand pending
  -- on SQLite, a negation in front would take the whole application as its operand
  rw [if_neg (fun both => by simp [apart both.1] at both)] at first
  have whole := first.binary (unsettled.mono tight.1) tight.2 (right.operand _)
  have form : d.converted (.binary l op r) = .binary (d.valueForm l) op (d.valueForm r) := by
    simp [Dialect.converted, neither, Dialect.valueForm]
  have regrouped : regroup (.binary (d.valueForm l) op (d.valueForm r)) =
      .binary (regroup (d.valueForm l)) op (regroup (d.valueForm r)) := by simp [regroup, neither]
  have written : d.phrase (.binary l op r) =
      .binary (d.asOperand l (d.phrase l)) op (d.asOperand r (d.phrase r)) := by
    simp [Dialect.phrase, neither, function]
  rw [form, regrouped, written]
  refine whole.mono ?_
  cases d with
  | sqlite =>
    have least : negationPrecedence ≤ precedence op := Nat.le_of_lt tight.1
    rw [show trail .sqlite (.binary l op r) = negationPrecedence by simp [trail, neither, function]]
    split <;> simp [negationPrecedence] at * <;> omega
  | sqlServer => simp [trail, neither, function, tight.2]

theorem PhraseReads.coalesce (left : PhraseReads d l) (right : PhraseReads d r) :
    PhraseReads d (.binary l .coalesce r) := fun _ _ =>
  (left.value (.first :: _) trivial).coalesce (right.value (.second _ :: _) trivial) _

end

theorem PhraseReads.not (h : PhraseReads d e) : PhraseReads d (.not e) := fun _ _ =>
  ReadsAs.not (h.condition (.paren :: .negation :: _) trivial)

theorem PhraseReads.tests (h : PhraseReads d e) (apart : d = .sqlite → isNegation e = false) :
    PhraseReads d (.isNull e) ∧ PhraseReads d (.isNotNull e) := by
  have operand := fun pending => h.operand pending
  rw [if_neg (fun both => by simp [apart both.1] at both)] at operand
  exact ⟨fun pending unsettled => ((operand pending).test unsettled (by decide) _).1,
    fun pending unsettled => ((operand pending).test unsettled (by decide) _).2⟩

theorem PhraseReads.case {test a b : Scalar} (tested : PhraseReads d test) (left : PhraseReads d a)
    (right : PhraseReads d b) : PhraseReads d (.case test a b) := fun _ _ =>
  ReadsAs.case (tested.condition (.test :: _) trivial) (left.value (.consequent _ :: _) trivial)
    (right.value (.alternative _ _ :: _) trivial) _

theorem phrase_reads (apart : d = .sqlite → negationsApart e = true) :
    PhraseReads d e ∧ ∀ op, op = .and ∨ op = .or → ChainReads d op e := by
  -- other expressions than connectives stand behind a connective as they are
  have lone : ∀ {e : Scalar}, (∀ op, op = .and ∨ op = .or → appliesTo op e = false) → PhraseReads d e →
      PhraseReads d e ∧ ∀ op, op = .and ∨ op = .or → ChainReads d op e :=
    fun neither h => ⟨h, fun op connective => h.chain connective (neither op connective)⟩
  induction e with
  | column | constant | parameter | excluded =>
    exact lone (fun _ _ => rfl) fun _ _ => readsAs_of_run rfl _
  | binary l op r ihl ihr =>
    simp only [negationsApart, Bool.and_eq_true, Bool.or_eq_true, beq_iff_eq, Bool.not_eq_true'] at apart
    obtain ⟨left, leftChain⟩ := ihl fun sqlite => (apart sqlite).1.1
    obtain ⟨right, rightChain⟩ := ihr fun sqlite => (apart sqlite).1.2
    by_cases connective : op = .and ∨ op = .or
    · have own := left.connective connective (rightChain op connective)
      refine ⟨own, fun op' connective' => ?_⟩
      by_cases same : op = op'
      · subst same
        exact (leftChain op connective).both connective (rightChain op connective)
      · exact own.chain connective' (by simpa [appliesTo] using same)
    · have neither : ∀ op', op' = .and ∨ op' = .or → appliesTo op' (.binary l op r) = false :=
        fun op' connective' => by
          have : op ≠ op' := fun same => connective (same ▸ connective')
          simpa [appliesTo] using this
      refine lone neither ?_
      by_cases function : op = .coalesce
      · subst function
        exact left.coalesce right
      · refine left.calculation connective function (fun sqlite => ?_) right
        have := (apart sqlite).2
        grind
  | not e ih => exact lone (fun _ _ => rfl) (ih apart).1.not
  | isNull e ih =>
    simp only [negationsApart, Bool.and_eq_true, Bool.not_eq_true'] at apart
    exact lone (fun _ _ => rfl) ((ih fun sqlite => (apart sqlite).1).1.tests fun sqlite => (apart sqlite).2).1
  | isNotNull e ih =>
    simp only [negationsApart, Bool.and_eq_true, Bool.not_eq_true'] at apart
    exact lone (fun _ _ => rfl) ((ih fun sqlite => (apart sqlite).1).1.tests fun sqlite => (apart sqlite).2).2
  | case test a b iht iha ihb =>
    simp only [negationsApart, Bool.and_eq_true] at apart
    exact lone (fun _ _ => rfl) ((iht fun sqlite => (apart sqlite).1.1).1.case (iha fun sqlite => (apart sqlite).1.2).1
      (ihb fun sqlite => (apart sqlite).2).1)

end

theorem run_negation {e : Scalar} (apart : negationsApart e = true) (pending : List Pending) :
    (Dialect.sqlite.phrase (.not e)).tokens.foldlM readToken (pending, none) =
      some (.negation :: pending, some (regroup e)) := by
  have h : PhraseReads .sqlite e := (phrase_reads fun _ => apart).1
  obtain ⟨rest, b, run, settled⟩ := (h.condition (.paren :: .negation :: pending) trivial).inside trivial
  rw [show Dialect.sqlite.conditionForm e = e from Dialect.sqlite_converted e] at settled
  have written : (Dialect.sqlite.phrase (.not e)).tokens =
      .negation :: .opening :: (Dialect.sqlite.condition e).tokens ++ [.closing] := rfl
  simp [written, List.foldlM_append, run, readToken, readOperand, readBehind, settled]

theorem tested_negation_misread (e : Scalar) (apart : negationsApart e = true) :
    read (Dialect.sqlite.value (.isNull (.not e))).tokens = some (.not (.isNull (regroup e))) := by
  have written : (Dialect.sqlite.value (.isNull (.not e))).tokens =
      (Dialect.sqlite.phrase (.not e)).tokens ++ [.isNull] := rfl
  simp [read, written, List.foldlM_append, run_negation apart, readToken, readBehind, settle, testPrecedence,
    negationPrecedence]

def openItem : Frame :=
  [⟨"i", ["Closed"], [.bool false]⟩]

theorem unknown_misread :
    eval { parameters := {} } openItem (.isNull (.not (.column "i" "Closed"))) = .ok (.bool false) ∧
      (read (Dialect.sqlite.value (.isNull (.not (.column "i" "Closed")))).tokens).map
        (eval { parameters := {} } openItem) = some (.ok (.bool true)) := by
  rw [tested_negation_misread _ rfl]
  exact ⟨rfl, rfl⟩

end Setwise.Sql
