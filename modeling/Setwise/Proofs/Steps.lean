import Setwise.Planning.Expression

/-!
Runs of planning steps that succeed.

`Step.Yields` says that a step succeeds, with which result, and what it leaves of the workspace. One lemma
for each way to put steps together takes such a run apart.
-/

set_option autoImplicit false

namespace Setwise.Planning

open Client Relational

/-- The step succeeds with a result and takes one workspace to another. -/
def Step.Yields {α : Type} (x : Step α) (w : Workspace) (a : α) (w' : Workspace) : Prop :=
  x.run w = (.ok a, w')

namespace Step

variable {α β : Type} {w w' : Workspace}

@[simp] theorem yields_pure {a b : α} : Step.Yields (pure a) w b w' ↔ a = b ∧ w = w' := by
  change (Except.ok a, w) = (Except.ok b, w') ↔ _
  simp

@[simp] theorem yields_bind {x : Step α} {f : α → Step β} {b : β} :
    Step.Yields (x >>= f) w b w' ↔ ∃ a v, Step.Yields x w a v ∧ Step.Yields (f a) v b w' := by
  simp only [Yields, bind, ExceptT.run, ExceptT.bind, ExceptT.mk, StateT.bind, ExceptT.bindCont]
  constructor
  · intro h
    cases result : x w with
    | mk outcome v =>
      rw [result] at h
      cases outcome with
      | ok a => exact ⟨a, v, rfl, h⟩
      | error e => cases Prod.mk.inj h |>.1
  · rintro ⟨a, v, first, rest⟩
    rw [first]
    exact rest

theorem not_yields_throw {e : Error} {a : α} : ¬ Step.Yields (throw e) w a w' := by
  change ¬ (Except.error e, w) = (Except.ok a, w')
  simp

@[simp] theorem yields_fail {a : α} (reason : Reason) (subject : Subject) :
    ¬ Step.Yields (fail reason subject) w a w' :=
  not_yields_throw

@[simp] theorem yields_get {v : Workspace} : Step.Yields get w v w' ↔ w = v ∧ w = w' := by
  change (Except.ok w, w) = (Except.ok v, w') ↔ _
  simp

@[simp] theorem yields_set {v : Workspace} {u : PUnit} : Step.Yields (set v) w u w' ↔ v = w' := by
  change (Except.ok PUnit.unit, v) = (Except.ok u, w') ↔ _
  simp

@[simp] theorem yields_modify {f : Workspace → Workspace} {u : PUnit} :
    Step.Yields (modify f) w u w' ↔ f w = w' := by
  change (Except.ok PUnit.unit, f w) = (Except.ok u, w') ↔ _
  simp

@[simp] theorem yields_ofResult {x : Except Error α} {a : α} :
    Step.Yields (ofResult x) w a w' ↔ x = .ok a ∧ w = w' := by
  cases x with
  | ok b => simp [ofResult]
  | error e => simpa [ofResult] using not_yields_throw

@[simp] theorem yields_lookUp {x : Except Model.Error α} {a : α} :
    Step.Yields (lookUp x) w a w' ↔ x = .ok a ∧ w = w' := by
  cases x with
  | ok b => simp [lookUp]
  | error e => simpa [lookUp] using not_yields_throw

end Step

theorem lookUp_eq_ok {α : Type} {x : Except Model.Error α} {a : α} :
    (lookUp x : Except Error α) = .ok a ↔ x = .ok a := by
  cases x <;> simp [lookUp, throw, throwThe, MonadExceptOf.throw, pure, Except.pure]

theorem not_fail_eq_ok {α : Type} {a : α} (reason : Reason) (subject : Subject) :
    ¬ (fail reason subject : Except Error α) = .ok a := by
  rintro ⟨⟩

end Setwise.Planning
