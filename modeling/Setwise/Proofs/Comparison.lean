import Setwise.Value.Comparison

/-!
Laws of the order of values.

Exchanging the two sides turns the order around (`compare?_swap`), so that equality is symmetric
(`equates_comm`).
-/

set_option autoImplicit false

namespace Setwise.Value

open Float.Model (UnpackedFloat)

theorem scaled_compare_swap (e f : Int) (m n : Nat) :
    (compare f e).then (compare n m) = ((compare e f).then (compare m n)).swap := by
  rw [Ordering.swap_then, ← Int.compare_swap e f, ← Nat.compare_swap m n]

theorem unpacked_compare_swap (x y : UnpackedFloat) :
    y.compare x = (x.compare y).map Ordering.swap := by
  cases x with
  | notANumber => cases y <;> rfl
  | infinity s =>
    cases y with
    | notANumber => cases s <;> rfl
    | infinity t => cases s <;> cases t <;> rfl
    | zero t => cases s <;> rfl
    | finite t m e h => cases s <;> cases t <;> rfl
  | zero s =>
    cases y with
    | notANumber => rfl
    | infinity t => cases t <;> rfl
    | zero t => rfl
    | finite t m e h => cases t <;> rfl
  | finite s m e h =>
    cases y with
    | notANumber => cases s <;> rfl
    | infinity t => cases s <;> cases t <;> rfl
    | zero t => cases s <;> rfl
    -- the sign decides, and only for equal signs the digits are compared
    | finite t n f k =>
      cases s with
      | positive =>
        cases t with
        | positive => exact congrArg some (scaled_compare_swap e f m n)
        | negative => rfl
      | negative =>
        cases t with
        | positive => rfl
        | negative => exact congrArg (some ∘ Ordering.swap) (scaled_compare_swap e f m n)

theorem compareReals?_eq (x y : Float) :
    compareReals? x y = x.toModel.unpack.compare y.toModel.unpack := by
  have less : (x < y) ↔ x.toModel.unpack.compare y.toModel.unpack = some .lt := by
    simp [LT.lt, Float.lt, Float.Model.lt, UnpackedFloat.lt]
  have same : (x == y) = true ↔ x.toModel.unpack.compare y.toModel.unpack = some .eq := by
    change (x.toModel.unpack.compare y.toModel.unpack == some .eq) = true ↔ _
    exact beq_iff_eq
  have greater : (y < x) ↔ x.toModel.unpack.compare y.toModel.unpack = some .gt := by
    simp [LT.lt, Float.lt, Float.Model.lt, UnpackedFloat.lt,
      unpacked_compare_swap x.toModel.unpack y.toModel.unpack]
  unfold compareReals?
  simp only [less, same, greater]
  cases x.toModel.unpack.compare y.toModel.unpack with
  | none => rfl
  | some order => cases order <;> rfl

theorem compareReals?_swap (x y : Float) :
    compareReals? y x = (compareReals? x y).map Ordering.swap := by
  rw [compareReals?_eq, compareReals?_eq, unpacked_compare_swap]

theorem compareBytes_swap (as bs : List UInt8) : compareBytes bs as = (compareBytes as bs).swap := by
  induction as generalizing bs with
  | nil => cases bs <;> rfl
  | cons a as ih =>
    cases bs with
    | nil => rfl
    | cons b bs => rw [compareBytes, compareBytes, Ordering.swap_then, ih bs, Nat.compare_swap]

/-- Exchanging the two sides turns the order around. -/
theorem compare?_swap (v w : Value) : compare? w v = (compare? v w).map Ordering.swap := by
  have ordered {α : Type} [Ord α] [Std.OrientedOrd α] (a b : α) :
      some (compare b a) = (some (compare a b)).map Ordering.swap :=
    congrArg some Std.OrientedOrd.eq_swap
  cases v with
  | int i =>
    cases w with
    | int j => exact ordered i j
    | real y => exact compareReals?_swap _ _
    | bool b => exact ordered i (bit b)
    | text _ | blob _ | null => rfl
  | real x =>
    cases w with
    | int j => exact compareReals?_swap _ _
    | real y => exact compareReals?_swap _ _
    | text _ | blob _ | bool _ | null => rfl
  | text s =>
    cases w with
    | text t => exact ordered s t
    | int _ | blob _ | real _ | bool _ | null => rfl
  | blob as =>
    cases w with
    | blob bs => exact congrArg some (compareBytes_swap as bs)
    | int _ | text _ | real _ | bool _ | null => rfl
  | bool a =>
    cases w with
    | int j => exact ordered (bit a) j
    | bool b => exact ordered (bit a) (bit b)
    | text _ | blob _ | real _ | null => rfl
  | null => cases w <;> rfl

theorem equates_comm (v w : Value) : equates v w = equates w v := by
  unfold equates
  rw [compare?_swap v w]
  cases compare? v w with
  | none => rfl
  | some order => cases order <;> rfl

end Setwise.Value
