import Setwise.Proofs.Frames

/-!
What conditions ask for, once they have a value.

A conjunction is satisfied when both of its sides are (`holds_both`), and an equation when the values of its
sides are equal (`holds_equation`).
-/

set_option autoImplicit false

namespace Setwise

namespace Value

theorem isTrue_of_truth? {v : Value} {t : Option Bool} (h : v.truth? = some t) :
    v.isTrue = (t == some true) := by
  cases v with
  | bool b =>
    obtain rfl := Option.some.inj h
    cases b <;> rfl
  | int i =>
    obtain rfl := Option.some.inj h
    simp only [isTrue]
    cases i != 0 <;> rfl
  | null =>
    obtain rfl := Option.some.inj h
    rfl
  | text _ | blob _ | real _ => cases h

theorem isTrue_of_conjunction {v w u : Value} (h : v.apply .and w = .ok u) :
    u.isTrue = (v.isTrue && w.isTrue) := by
  unfold apply at h
  simp only [true_or, if_true] at h
  split at h
  next a b left right =>
    obtain rfl := Except.ok.inj h
    rw [isTrue_of_truth? left, isTrue_of_truth? right]
    rcases a with _ | _ | _ <;> rcases b with _ | _ | _ <;> rfl
  next => cases h

theorem isTrue_of_equation {v w u : Value} (h : v.apply .equal w = .ok u) : u.isTrue = v.equates w := by
  unfold apply at h
  simp only [reduceCtorEq, or_self, if_false] at h
  split at h
  next absent =>
    obtain rfl := Except.ok.inj h
    cases v <;> cases w <;> simp_all [isNull, isTrue, equates, compare?]
  next =>
    simp only [Operator.isComparison, if_true] at h
    split at h
    next order compared =>
      obtain rfl := Except.ok.inj h
      simp only [isTrue, holdsFor, equates, compared]
      cases order <;> rfl
    next => cases h

end Value

namespace Execution

open Relational

variable {env : Environment} {f : Frame}

theorem holds_eq_ok {e : Scalar} {keep : Bool} :
    holdsOption env f (some e) = .ok keep ↔ ∃ v, eval env f e = .ok v ∧ v.isTrue = keep := by
  simp only [holdsOption, holds, bind_eq_ok, pure_eq_ok]

/-- A conjunction is satisfied when both sides are, of which the first may be missing. -/
theorem holds_both {condition : Option Scalar} {e : Scalar} {keep : Bool}
    (h : holdsOption env f (some (Scalar.both condition e)) = .ok keep) :
    ∃ a b, holdsOption env f condition = .ok a ∧ holdsOption env f (some e) = .ok b ∧ keep = (a && b) := by
  cases condition with
  | none => exact ⟨true, keep, rfl, h, by simp⟩
  | some c =>
    obtain ⟨u, value, rfl⟩ := holds_eq_ok.1 h
    unfold Scalar.both eval at value
    obtain ⟨v, left, value⟩ := bind_eq_ok.1 value
    obtain ⟨w, right, value⟩ := bind_eq_ok.1 value
    have both := Value.isTrue_of_conjunction (mapError_eq_ok.1 value)
    exact ⟨_, _, holds_eq_ok.2 ⟨v, left, rfl⟩, holds_eq_ok.2 ⟨w, right, rfl⟩, both⟩

/-- An equation is satisfied when the values of its sides are equal. -/
theorem holds_equation {a b : Scalar} {keep : Bool}
    (h : holdsOption env f (some (.binary a .equal b)) = .ok keep) :
    ∃ v w, eval env f a = .ok v ∧ eval env f b = .ok w ∧ keep = v.equates w := by
  obtain ⟨u, value, rfl⟩ := holds_eq_ok.1 h
  unfold eval at value
  obtain ⟨v, left, value⟩ := bind_eq_ok.1 value
  obtain ⟨w, right, value⟩ := bind_eq_ok.1 value
  exact ⟨v, w, left, right, Value.isTrue_of_equation (mapError_eq_ok.1 value)⟩

end Execution

end Setwise
