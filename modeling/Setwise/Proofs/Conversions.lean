import Setwise.Execution.Frame
import Setwise.Proofs.Conditions
import Setwise.Sql.Phrase

/-!
Conditions as values, and values as conditions.

SQL Server writes a condition in the place of a value as CASE, and compares a value in the place of a condition
with TRUE. `Dialect.valueForm` and `Dialect.conditionForm` are the expressions that come of that, and what the
phrases of an expression say (`expression_value`, `expression_condition`). A conversion keeps the value of a
condition that is not NULL, and the truth of a value that is a bit; where that holds throughout an expression
(`convertible`), its forms mean what the expression means (`conversions_keep_meaning`).
-/

set_option autoImplicit false

namespace Setwise

open Relational Execution

namespace Sql

/-! ## What phrases say -/

/-- The expression that a phrase says. Parentheses only group. -/
def Phrase.expression : Phrase → Scalar
  | column source name => .column source name
  | literal v => .constant v
  | placeholder name => .parameter name
  | excluded name => .excluded name
  | binary l op r => .binary l.expression op r.expression
  | coalesce l r => .binary l.expression .coalesce r.expression
  | paren p => p.expression
  | not p => .not p.expression
  | isNull p => .isNull p.expression
  | isNotNull p => .isNotNull p.expression
  | case test a b => .case test.expression a.expression b.expression

namespace Dialect

def conditionAsValue (d : Dialect) (e r : Scalar) : Scalar :=
  match d with
  | sqlite => r
  | sqlServer => if isCondition e then .case r (.constant (.bool true)) (.constant (.bool false)) else r

def valueAsCondition (d : Dialect) (e r : Scalar) : Scalar :=
  match d with
  | sqlite => r
  | sqlServer => if isCondition e then r else .binary r .equal (.constant (.bool true))

def converted (d : Dialect) : Scalar → Scalar
  | .binary l op r =>
    if op = .and ∨ op = .or then
      .binary (d.valueAsCondition l (d.converted l)) op (d.valueAsCondition r (d.converted r))
    else .binary (d.conditionAsValue l (d.converted l)) op (d.conditionAsValue r (d.converted r))
  | .not e => .not (d.valueAsCondition e (d.converted e))
  | .isNull e => .isNull (d.conditionAsValue e (d.converted e))
  | .isNotNull e => .isNotNull (d.conditionAsValue e (d.converted e))
  | .case test a b =>
    .case (d.valueAsCondition test (d.converted test)) (d.conditionAsValue a (d.converted a))
      (d.conditionAsValue b (d.converted b))
  | e => e

/-- What stands for an expression where a value is expected. -/
def valueForm (d : Dialect) (e : Scalar) : Scalar :=
  d.conditionAsValue e (d.converted e)

/-- What stands for an expression where a condition is expected. -/
def conditionForm (d : Dialect) (e : Scalar) : Scalar :=
  d.valueAsCondition e (d.converted e)

variable (d : Dialect)

@[simp] theorem expression_asValue (e : Scalar) (p : Phrase) :
    (d.asValue e p).expression = d.conditionAsValue e p.expression := by
  cases d with
  | sqlite => rfl
  | sqlServer =>
    simp only [asValue, conditionAsValue]
    split <;> rfl

@[simp] theorem expression_asCondition (e : Scalar) (p : Phrase) :
    (d.asCondition e p).expression = d.valueAsCondition e p.expression := by
  cases d with
  | sqlite => rfl
  | sqlServer =>
    simp only [asCondition, valueAsCondition]
    split <;> rfl

@[simp] theorem expression_asOperand (e : Scalar) (p : Phrase) :
    (d.asOperand e p).expression = d.conditionAsValue e p.expression := by
  rw [← expression_asValue]
  unfold asOperand
  cases e with
  | binary l op r =>
    dsimp only
    split <;> rfl
  | _ => rfl

@[simp] theorem expression_asConnectiveOperand (connective : Operator) (e : Scalar) (p : Phrase) :
    (d.asConnectiveOperand connective e p).expression = d.valueAsCondition e p.expression := by
  rw [← expression_asCondition]
  unfold asConnectiveOperand
  cases e with
  | binary l op r =>
    dsimp only
    split <;> rfl
  | _ => rfl

theorem expression_phrase (e : Scalar) : (d.phrase e).expression = d.converted e := by
  induction e with
  | column | constant | parameter | excluded => rfl
  | binary l op r ihl ihr =>
    unfold phrase converted
    by_cases coalesce : op = .coalesce
    · subst coalesce
      simp [Phrase.expression, ihl, ihr]
    · by_cases connective : op = .and ∨ op = .or <;>
        simp [coalesce, connective, Phrase.expression, ihl, ihr]
  | not e ih | isNull e ih | isNotNull e ih => simp [phrase, converted, Phrase.expression, ih]
  | case test a b iht iha ihb => simp [phrase, converted, Phrase.expression, iht, iha, ihb]

theorem expression_value (e : Scalar) : (d.value e).expression = d.valueForm e := by
  rw [value, expression_asValue, expression_phrase, valueForm]

theorem expression_condition (e : Scalar) : (d.condition e).expression = d.conditionForm e := by
  rw [condition, expression_asCondition, expression_phrase, conditionForm]

end Dialect

theorem Dialect.sqlite_converted (e : Scalar) : sqlite.converted e = e := by
  induction e with
  | column | constant | parameter | excluded => rfl
  | binary l op r ihl ihr => simp [converted, conditionAsValue, valueAsCondition, ihl, ihr]
  | not e ih | isNull e ih | isNotNull e ih =>
    simp [converted, conditionAsValue, valueAsCondition, ih]
  | case test a b iht iha ihb => simp [converted, conditionAsValue, valueAsCondition, iht, iha, ihb]

end Sql

/-! ## Truth -/

namespace Value

theorem isTrue_eq_of_truth? {v w : Value} (h : v.truth? = w.truth?) : v.isTrue = w.isTrue := by
  cases known : w.truth? with
  | some t => rw [isTrue_of_truth? known, isTrue_of_truth? (h.trans known)]
  | none =>
    have other := h.trans known
    cases v <;> cases w <;> simp_all [truth?, isTrue]

theorem apply_of_truth? {v v' w w' : Value} {op : Operator} {u : Value} (connective : op = .and ∨ op = .or)
    (left : v'.truth? = v.truth?) (right : w'.truth? = w.truth?) (h : v.apply op w = .ok u) :
    v'.apply op w' = .ok u := by
  unfold apply at h ⊢
  rw [if_pos connective] at h ⊢
  rw [left, right]
  split at h
  next => exact h
  next => cases h

theorem negation_of_truth? {v v' u : Value} (same : v'.truth? = v.truth?) (h : v.negation = .ok u) :
    v'.negation = .ok u := by
  unfold negation at h ⊢
  rw [same]
  split at h
  next => exact h
  next => cases h

/-- The value is NULL or a truth value, as a boolean or as one of the numbers zero and one. -/
def isBit : Value → Bool
  | null | bool _ => true
  | int i => i == 0 || i == 1
  | _ => false

theorem exists_equal_true {v : Value} (bit : v.isBit = true) :
    ∃ w, v.apply .equal (.bool true) = .ok w ∧ w.truth? = v.truth? := by
  cases v with
  | null => exact ⟨_, rfl, rfl⟩
  | bool b => cases b <;> exact ⟨_, rfl, rfl⟩
  | int i =>
    rcases (by simpa [isBit] using bit : i = 0 ∨ i = 1) with rfl | rfl <;> exact ⟨_, rfl, rfl⟩
  | text s | blob b | real x => cases bit

theorem isTrue_ne_of_equal_true {v w : Value} (bit : v.isBit = false)
    (h : v.apply .equal (.bool true) = .ok w) : w.isTrue ≠ v.isTrue := by
  rw [isTrue_of_equation h]
  cases v with
  | int i =>
    obtain ⟨notZero, notOne⟩ : i ≠ 0 ∧ i ≠ 1 := by simpa [isBit] using bit
    have differs : equates (.int i) (.bool true) = false := by
      simp [equates, compare?, Value.bit, compare, compareOfLessAndEq]
      grind
    simp [differs, isTrue, notZero]
  | null | bool b => cases bit
  | text s | blob b | real x => cases h

theorem isBit_of_comparison {v w u : Value} {op : Operator} (comparison : op.isComparison = true)
    (h : v.apply op w = .ok u) : u = .null ∨ ∃ b, u = .bool b := by
  unfold apply at h
  split at h
  next connective => rcases connective with rfl | rfl <;> cases comparison
  split at h
  next coalesce => subst coalesce; cases comparison
  split at h
  next => exact .inl (Except.ok.inj h).symm
  split at h
  next => exact .inr ⟨_, (Except.ok.inj h).symm⟩
  next => cases h

theorem ofTruth_cases (t : Option Bool) : ofTruth t = .null ∨ ∃ b, ofTruth t = .bool b := by
  cases t with
  | none => exact .inl rfl
  | some b => exact .inr ⟨b, rfl⟩

end Value

namespace Sql

section

variable (env : Environment) (frame : Frame)

/-! ## Conversions that keep the meaning -/

def keepsValue (e : Scalar) : Bool :=
  !isCondition e || (eval env frame e).toOption != some .null

def keepsTruth (e : Scalar) : Bool :=
  isCondition e || (eval env frame e).toOption.all Value.isBit

/-- All operands that are evaluated within an expression can be converted. -/
def convertible : Scalar → Bool
  | .binary l op r =>
    convertible l && convertible r &&
      if op = .and ∨ op = .or then keepsTruth env frame l && keepsTruth env frame r
      else keepsValue env frame l && keepsValue env frame r
  | .not e => convertible e && keepsTruth env frame e
  | .isNull e | .isNotNull e => convertible e && keepsValue env frame e
  | .case test a b =>
    convertible test && keepsTruth env frame test &&
      if (holds env frame test).toOption = some true then convertible a && keepsValue env frame a
      else convertible b && keepsValue env frame b
  | _ => true

end

variable {env : Environment} {frame : Frame}

theorem eval_condition {e : Scalar} {v : Value} (condition : isCondition e = true)
    (h : eval env frame e = .ok v) : v = .null ∨ ∃ b, v = .bool b := by
  cases e with
  | binary l op r =>
    obtain ⟨arithmetic, coalesce⟩ : op.isArithmetic = false ∧ op ≠ .coalesce := by
      simpa [isCondition] using condition
    obtain ⟨a, left, h⟩ := bind_eq_ok.1 h
    obtain ⟨b, right, h⟩ := bind_eq_ok.1 h
    have h := mapError_eq_ok.1 h
    -- a connective gives one of the three truth values, a comparison a bit or NULL
    by_cases connective : op = .and ∨ op = .or
    · unfold Value.apply at h
      rw [if_pos connective] at h
      split at h
      next =>
        obtain rfl := Except.ok.inj h
        exact Value.ofTruth_cases _
      next => cases h
    · refine Value.isBit_of_comparison ?_ h
      cases op <;> simp_all [Operator.isArithmetic, Operator.isComparison]
  | not e =>
    obtain ⟨a, operand, h⟩ := bind_eq_ok.1 h
    have h := mapError_eq_ok.1 h
    unfold Value.negation at h
    split at h
    next =>
      obtain rfl := Except.ok.inj h
      exact Value.ofTruth_cases _
    next => cases h
  | isNull e | isNotNull e =>
    obtain ⟨a, operand, h⟩ := bind_eq_ok.1 h
    exact .inr ⟨_, (pure_eq_ok.1 h).symm⟩
  | _ => cases condition

theorem eval_conditionAsValue {e r : Scalar} {v : Value} (h : eval env frame e = .ok v)
    (same : eval env frame r = .ok v) :
    eval env frame (Dialect.sqlServer.conditionAsValue e r) = .ok v ↔ keepsValue env frame e = true := by
  unfold Dialect.conditionAsValue keepsValue
  cases condition : isCondition e with
  | false => simp [same]
  | true =>
    rcases eval_condition condition h with rfl | ⟨b, rfl⟩
    · simp [eval, same, h, bind, Except.bind, Value.isTrue, Except.toOption]
    · cases b <;> simp [eval, same, h, bind, Except.bind, Value.isTrue, Except.toOption]

theorem eval_valueAsCondition {e r : Scalar} {v : Value} (same : eval env frame r = .ok v)
    (kept : isCondition e = true ∨ v.isBit = true) :
    ∃ w, eval env frame (Dialect.sqlServer.valueAsCondition e r) = .ok w ∧ w.truth? = v.truth? := by
  unfold Dialect.valueAsCondition
  cases condition : isCondition e with
  | true => exact ⟨v, same, rfl⟩
  | false =>
    obtain ⟨w, equal, truth⟩ := Value.exists_equal_true (kept.resolve_left (by simp [condition]))
    have compared : (v.apply .equal (.bool true)).mapError Error.evaluation = .ok w := mapError_eq_ok.2 equal
    exact ⟨w, by simpa [eval, same, bind, Except.bind] using compared, truth⟩

theorem kept_of_keepsTruth {e : Scalar} {v : Value} (h : eval env frame e = .ok v)
    (keeps : keepsTruth env frame e = true) : isCondition e = true ∨ v.isBit = true := by
  simpa [keepsTruth, h, Except.toOption] using keeps

theorem eval_converted {e : Scalar} {v : Value} (keeps : convertible env frame e = true)
    (h : eval env frame e = .ok v) : eval env frame (Dialect.sqlServer.converted e) = .ok v := by
  induction e generalizing v with
  | column | constant | parameter | excluded => exact h
  | binary l op r ihl ihr =>
    obtain ⟨⟨keepsLeft, keepsRight⟩, operands⟩ : (convertible env frame l = true ∧
      convertible env frame r = true) ∧ _ := by simpa only [convertible, Bool.and_eq_true] using keeps
    obtain ⟨a, left, h⟩ := bind_eq_ok.1 h
    obtain ⟨b, right, h⟩ := bind_eq_ok.1 h
    have h := mapError_eq_ok.1 h
    unfold Dialect.converted
    by_cases connective : op = .and ∨ op = .or
    · simp only [connective, if_true, Bool.and_eq_true] at operands ⊢
      obtain ⟨a', left', sameLeft⟩ :=
        eval_valueAsCondition (ihl keepsLeft left) (kept_of_keepsTruth left operands.1)
      obtain ⟨b', right', sameRight⟩ :=
        eval_valueAsCondition (ihr keepsRight right) (kept_of_keepsTruth right operands.2)
      have result := Value.apply_of_truth? connective sameLeft sameRight h
      exact bind_eq_ok.2 ⟨a', left', bind_eq_ok.2 ⟨b', right', mapError_eq_ok.2 result⟩⟩
    · simp only [connective, if_false, Bool.and_eq_true] at operands ⊢
      have left' := (eval_conditionAsValue left (ihl keepsLeft left)).2 operands.1
      have right' := (eval_conditionAsValue right (ihr keepsRight right)).2 operands.2
      exact bind_eq_ok.2 ⟨a, left', bind_eq_ok.2 ⟨b, right', mapError_eq_ok.2 h⟩⟩
  | not e ih =>
    obtain ⟨keepsOperand, truth⟩ : convertible env frame e = true ∧ keepsTruth env frame e = true := by
      simpa only [convertible, Bool.and_eq_true] using keeps
    obtain ⟨a, operand, h⟩ := bind_eq_ok.1 h
    obtain ⟨a', operand', same⟩ :=
      eval_valueAsCondition (ih keepsOperand operand) (kept_of_keepsTruth operand truth)
    have result := Value.negation_of_truth? same (mapError_eq_ok.1 h)
    exact bind_eq_ok.2 ⟨a', operand', mapError_eq_ok.2 result⟩
  | isNull e ih | isNotNull e ih =>
    obtain ⟨keepsOperand, value⟩ : convertible env frame e = true ∧ keepsValue env frame e = true := by
      simpa only [convertible, Bool.and_eq_true] using keeps
    obtain ⟨a, operand, h⟩ := bind_eq_ok.1 h
    exact bind_eq_ok.2 ⟨a, (eval_conditionAsValue operand (ih keepsOperand operand)).2 value, h⟩
  | case test a b iht iha ihb =>
    obtain ⟨⟨keepsTest, truth⟩, branch⟩ : (convertible env frame test = true ∧
      keepsTruth env frame test = true) ∧ _ := by simpa only [convertible, Bool.and_eq_true] using keeps
    obtain ⟨t, tested, h⟩ := bind_eq_ok.1 h
    obtain ⟨t', tested', same⟩ :=
      eval_valueAsCondition (iht keepsTest tested) (kept_of_keepsTruth tested truth)
    have decided : holds env frame test = .ok t.isTrue := bind_eq_ok.2 ⟨t, tested, rfl⟩
    refine bind_eq_ok.2 ⟨t', tested', ?_⟩
    -- the converted test chooses the same branch, and only that one needs to keep its value
    rw [Value.isTrue_eq_of_truth? same]
    rw [decided] at branch
    cases chosen : t.isTrue with
    | true =>
      simp only [chosen, Except.toOption, if_true, Bool.and_eq_true] at branch h ⊢
      exact (eval_conditionAsValue h (iha branch.1 h)).2 branch.2
    | false =>
      simp only [chosen, Except.toOption, Option.some.injEq, Bool.false_eq_true, if_false, Bool.and_eq_true]
        at branch h ⊢
      exact (eval_conditionAsValue h (ihb branch.1 h)).2 branch.2

/-- A condition in the place of a value keeps its value exactly when that is not NULL, and a value in the
place of a condition keeps its truth exactly when it is a bit, all conversions within being of that kind. -/
theorem conversions_keep_meaning (env : Environment) (frame : Frame) (e : Scalar) (v : Value)
    (keeps : convertible env frame e = true) (h : eval env frame e = .ok v) :
    (eval env frame (Dialect.sqlServer.value e).expression = .ok v ↔ (isCondition e = true → v ≠ .null)) ∧
      (holds env frame (Dialect.sqlServer.condition e).expression = .ok v.isTrue ↔
        (isCondition e = false → v.isBit = true)) := by
  have same := eval_converted keeps h
  rw [Dialect.expression_value, Dialect.expression_condition]
  constructor
  · rw [Dialect.valueForm, eval_conditionAsValue h same]
    cases condition : isCondition e <;> simp [keepsValue, condition, h, Except.toOption]
  · constructor
    · intro satisfied condition
      obtain ⟨w, value, truth⟩ := bind_eq_ok.1 satisfied
      simp only [Dialect.conditionForm, Dialect.valueAsCondition, condition] at value
      obtain ⟨a, left, value⟩ := bind_eq_ok.1 value
      obtain rfl := Except.ok.inj (same.symm.trans left)
      refine Bool.of_not_eq_false fun other => ?_
      exact Value.isTrue_ne_of_equal_true other (mapError_eq_ok.1 value) (pure_eq_ok.1 truth)
    · intro kept
      have bit : isCondition e = true ∨ v.isBit = true := by
        cases condition : isCondition e with
        | true => exact .inl rfl
        | false => exact .inr (kept condition)
      obtain ⟨w, value, truth⟩ := eval_valueAsCondition same bit
      exact bind_eq_ok.2 ⟨w, value, pure_eq_ok.2 (Value.isTrue_eq_of_truth? truth)⟩

def markedItem : Frame :=
  [⟨"i", ["Amount", "Marked", "Count"], [.null, .bool true, .int 5]⟩]

def largeAmount : Scalar :=
  .binary (.column "i" "Amount") .greater (.constant (.int 5))

def countedAsLarge : Scalar :=
  .binary (.column "i" "Marked") .equal
    (.case (.binary (.column "i" "Marked") .and (.isNull (.column "i" "Amount")))
      (.binary (.binary (.column "i" "Amount") .coalesce (.constant (.int 9))) .greater (.constant (.int 5)))
      largeAmount)

/-- The branch that is not chosen may be NULL. -/
theorem countedAsLarge_kept :
    convertible { parameters := {} } markedItem countedAsLarge = true ∧
      eval { parameters := {} } markedItem countedAsLarge = .ok (.bool true) ∧
      eval { parameters := {} } markedItem (Dialect.sqlServer.value countedAsLarge).expression =
        .ok (.bool true) ∧
      holds { parameters := {} } markedItem (Dialect.sqlServer.condition countedAsLarge).expression = .ok true :=
  have kept := conversions_keep_meaning { parameters := {} } markedItem countedAsLarge (.bool true) (by decide) rfl
  ⟨by decide, rfl, kept.1.2 (by simp), kept.2.2 (by decide)⟩

theorem largeAmount_becomes_false :
    eval { parameters := {} } markedItem largeAmount = .ok .null ∧
      eval { parameters := {} } markedItem (Dialect.sqlServer.value largeAmount).expression = .ok (.bool false) ∧
      holds { parameters := {} } markedItem (.isNull largeAmount) = .ok true ∧
      holds { parameters := {} } markedItem (Dialect.sqlServer.condition (.isNull largeAmount)).expression =
        .ok false :=
  ⟨rfl, rfl, rfl, rfl⟩

theorem count_becomes_false :
    holds { parameters := {} } markedItem (.column "i" "Count") = .ok true ∧
      holds { parameters := {} } markedItem (Dialect.sqlServer.condition (.column "i" "Count")).expression =
        .ok false :=
  ⟨rfl, rfl⟩

end Sql

end Setwise
