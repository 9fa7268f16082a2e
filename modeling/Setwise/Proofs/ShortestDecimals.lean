import Mathlib.Algebra.Order.Field.Power
import Mathlib.Algebra.Order.Field.Rat
import Mathlib.Tactic.Linarith
import Mathlib.Tactic.NormNum
import Mathlib.Tactic.Positivity
import Mathlib.Tactic.Ring
import Setwise.Decimal.Shortest

/-!
The shortest decimal of a real identifies it.

The decimals that round to one real lie between two ends, and where the interval of one real ends, that of the next one
begins. Neighbours do not share the end between them, because it belongs to the even one (`Magnitude.eq_of_contains`).
The shortest decimal lies in the interval of its real (`Magnitude.contains_shortest`), so no other real has it.
-/

set_option autoImplicit false

namespace Setwise.Decimal

/-! ## Exact comparison -/

def Scientific.toRat (d : Scientific) : ℚ :=
  d.digits * 10 ^ d.exponent

def Magnitude.toRat (x : Magnitude) : ℚ :=
  x.significand * 2 ^ x.exponent

theorem zpow_split {b : ℚ} (positive : 0 < b) (i : Int) : b ^ i * b ^ (-i).toNat = b ^ i.toNat := by
  have parts : i + ((-i).toNat : Int) = (i.toNat : Int) := by omega
  rw [← zpow_natCast b (-i).toNat, ← zpow_natCast b i.toNat, ← zpow_add₀ positive.ne', parts]

theorem compareScaled_sides (a : Nat) (i : Int) (n : Nat) (j : Int) : ∃ factor : ℚ, 0 < factor ∧
    ((a * Nat.pow 10 i.toNat * Nat.pow 2 (-j).toNat : Nat) : ℚ) = a * 10 ^ i * factor ∧
    ((n * Nat.pow 2 j.toNat * Nat.pow 10 (-i).toNat : Nat) : ℚ) = n * 2 ^ j * factor := by
  have tens := zpow_split (b := 10) (by norm_num) i
  have twos := zpow_split (b := 2) (by norm_num) j
  refine ⟨10 ^ (-i).toNat * 2 ^ (-j).toNat, by positivity, ?_, ?_⟩
  · simp only [Nat.pow_eq]
    push_cast
    rw [← tens]
    ring
  · simp only [Nat.pow_eq]
    push_cast
    rw [← twos]
    ring

section

variable {a n : Nat} {i j : Int}

theorem compareScaled_lt : compareScaled a i n j = .lt ↔ (a : ℚ) * 10 ^ i < n * 2 ^ j := by
  obtain ⟨factor, positive, left, right⟩ := compareScaled_sides a i n j
  rw [compareScaled, Nat.compare_eq_lt, ← Nat.cast_lt (α := ℚ), left, right, mul_lt_mul_iff_left₀ positive]

theorem compareScaled_gt : compareScaled a i n j = .gt ↔ (n : ℚ) * 2 ^ j < a * 10 ^ i := by
  obtain ⟨factor, positive, left, right⟩ := compareScaled_sides a i n j
  rw [compareScaled, Nat.compare_eq_gt, ← Nat.cast_lt (α := ℚ), left, right, mul_lt_mul_iff_left₀ positive]

theorem compareScaled_eq : compareScaled a i n j = .eq ↔ (a : ℚ) * 10 ^ i = n * 2 ^ j := by
  obtain ⟨factor, positive, left, right⟩ := compareScaled_sides a i n j
  rw [compareScaled, Nat.compare_eq_eq, ← Nat.cast_inj (R := ℚ), left, right, mul_left_inj' positive.ne']

end

/-! ## Intervals -/

namespace Magnitude

def low (x : Magnitude) : ℚ :=
  (4 * x.significand - (if x.narrowBelow then 1 else 2) : Nat) * 2 ^ (x.exponent - 2)

def high (x : Magnitude) : ℚ :=
  (4 * x.significand + 2 : Nat) * 2 ^ (x.exponent - 2)

/-- The value is between the ends, and at an end only if the significand is even. -/
structure Contains (x : Magnitude) (q : ℚ) : Prop where
  above : x.low ≤ q
  below : q ≤ x.high
  even : q = x.low ∨ q = x.high → x.significand % 2 = 0

theorem contains_of_readsBack {x : Magnitude} {d : Scientific} (h : x.readsBack d = true) : x.Contains d.toRat := by
  simp only [readsBack, Bool.and_eq_true, Bool.or_eq_true, beq_iff_eq] at h
  obtain ⟨lower, upper⟩ := h
  rw [compareScaled_gt, compareScaled_eq] at lower
  rw [compareScaled_lt, compareScaled_eq] at upper
  change x.low < d.toRat ∨ x.significand % 2 = 0 ∧ d.toRat = x.low at lower
  change d.toRat < x.high ∨ x.significand % 2 = 0 ∧ d.toRat = x.high at upper
  refine ⟨lower.elim le_of_lt fun h => h.2.ge, upper.elim le_of_lt fun h => h.2.le, ?_⟩
  rintro (atLow | atHigh)
  · exact lower.elim (fun h => absurd atLow.symm h.ne) And.left
  · exact upper.elim (fun h => absurd atHigh h.ne) And.left

theorem contains_own {x : Magnitude} (positive : x.significand ≠ 0) : x.Contains x.toRat := by
  have step : (0 : ℚ) < 2 ^ (x.exponent - 2) := by positivity
  have own : x.toRat = (4 * x.significand : Nat) * 2 ^ (x.exponent - 2) := by
    unfold toRat
    rw [zpow_sub₀ (by norm_num)]
    push_cast
    ring
  have lower : x.low < x.toRat := by
    rw [own, low, mul_lt_mul_iff_left₀ step, Nat.cast_lt]
    split <;> omega
  have upper : x.toRat < x.high := by
    rw [own, high, mul_lt_mul_iff_left₀ step, Nat.cast_lt]
    omega
  exact ⟨lower.le, upper.le, fun h => h.elim (fun same => absurd same lower.ne') fun same => absurd same upper.ne⟩

/-! ## The shortest decimal -/

theorem toRat_exact (x : Magnitude) : x.exact.toRat = x.toRat := by
  unfold exact Scientific.toRat toRat
  simp only [Nat.pow_eq]
  push_cast
  rcases le_total 0 x.exponent with positive | negative
  · rw [min_eq_right positive, Int.toNat_of_nonpos (by omega : -x.exponent ≤ 0)]
    have power : (2 : ℚ) ^ x.exponent.toNat = 2 ^ x.exponent := by
      rw [← zpow_natCast, Int.toNat_of_nonneg positive]
    rw [power]
    ring
  · rw [min_eq_left negative, Int.toNat_of_nonpos negative]
    have power : (5 : ℚ) ^ (-x.exponent).toNat * 10 ^ x.exponent = 2 ^ x.exponent := by
      have cancel := zpow_split (b := 5) (by norm_num) x.exponent
      rw [Int.toNat_of_nonpos negative, pow_zero] at cancel
      calc (5 : ℚ) ^ (-x.exponent).toNat * 10 ^ x.exponent
          = 5 ^ x.exponent * 5 ^ (-x.exponent).toNat * 2 ^ x.exponent := by
            rw [show (10 : ℚ) = 5 * 2 by norm_num, mul_zpow]
            ring
        _ = 2 ^ x.exponent := by rw [cancel, one_mul]
    rw [pow_zero, mul_one, mul_assoc, power]

theorem readsBack_of_onGrid? {x : Magnitude} {k : Int} {d : Scientific} (h : x.onGrid? k = some d) :
    x.readsBack d = true := by
  unfold onGrid? at h
  dsimp only at h
  split at h
  next => cases h
  next found _ => exact Option.some.inj h ▸ found
  next _ found => exact Option.some.inj h ▸ found
  next lower upper =>
    obtain rfl := Option.some.inj h
    split
    · exact lower
    · exact upper

end Magnitude

theorem Scientific.toRat_stripZeros (d : Scientific) (fuel : Nat) : (d.stripZeros fuel).toRat = d.toRat := by
  induction fuel generalizing d with
  | zero => rfl
  | succ fuel ih =>
    unfold stripZeros
    split
    next zero =>
      have divides : d.digits = d.digits / 10 * 10 := by
        simp only [Bool.and_eq_true, beq_iff_eq] at zero
        omega
      have cast : (d.digits : ℚ) = (d.digits / 10 : Nat) * 10 := by exact_mod_cast divides
      rw [ih]
      unfold toRat
      rw [zpow_add_one₀ (by norm_num), cast]
      ring
    next => rfl

namespace Magnitude

/-- The shortest decimal rounds to the real. -/
theorem contains_shortest (x : Magnitude) : x.Contains x.shortest.toRat := by
  by_cases zero : x.significand = 0
  · have own : x.shortest.toRat = 0 := by simp [shortest, zero, Scientific.toRat]
    have lower : x.low = 0 := by simp [low, zero]
    rw [own]
    exact ⟨lower.le, by unfold high; positivity, fun _ => by simp [zero]⟩
  · unfold shortest
    rw [if_neg zero, Scientific.toRat_stripZeros]
    cases found : ((List.range 17).map fun (n : Nat) => x.scale - ((n : Int) + 1)).findSome? x.onGrid? with
    | none => exact x.toRat_exact ▸ contains_own zero
    | some d =>
      obtain ⟨k, -, onGrid⟩ := List.exists_of_findSome?_eq_some found
      exact contains_of_readsBack (readsBack_of_onGrid? onGrid)

/-! ## Neighbours -/

def ofParts (biased fraction : Nat) : Magnitude :=
  if biased = 0 then ⟨fraction, -1074, false⟩
  else ⟨Nat.pow 2 52 + fraction, (biased : Int) - 1075, fraction == 0 && decide (1 < biased)⟩

def ofBits (n : Nat) : Magnitude :=
  ofParts (n / 2 ^ 52) (n % 2 ^ 52)

theorem low_lt_high (x : Magnitude) : x.low < x.high := by
  have step : (0 : ℚ) < 2 ^ (x.exponent - 2) := by positivity
  rw [low, high, mul_lt_mul_iff_left₀ step, Nat.cast_lt]
  split <;> omega

theorem low_succ (n : Nat) : (ofBits (n + 1)).low = (ofBits n).high := by
  have fraction := Nat.mod_lt n (show 2 ^ 52 > 0 by norm_num)
  by_cases carries : n % 2 ^ 52 = 2 ^ 52 - 1
  · -- the next real has the next exponent
    have biased : (n + 1) / 2 ^ 52 = n / 2 ^ 52 + 1 := by omega
    have rest : (n + 1) % 2 ^ 52 = 0 := by omega
    unfold ofBits
    rw [biased, rest, carries]
    -- subnormals and the first exponent have one spacing; behind it, the spacing doubles at a power of two
    by_cases zero : n / 2 ^ 52 = 0
    · simp only [ofParts, zero, low, high]
      norm_num
    · have gap : (2 : ℚ) ^ (((n / 2 ^ 52 + 1 : Nat) : Int) - 1075 - 2) = 2 * 2 ^ (((n / 2 ^ 52 : Nat) : Int) - 1075 - 2) := by
        rw [← zpow_one_add₀ (by norm_num)]
        congr 1
        push_cast
        ring
      have narrow : (decide (1 < n / 2 ^ 52 + 1)) = true := by
        rw [decide_eq_true_eq]
        omega
      simp only [ofParts, zero, low, high, Nat.succ_ne_zero, if_false, narrow, beq_self_eq_true, Bool.and_self, if_true, gap]
      norm_num
      ring
  · have biased : (n + 1) / 2 ^ 52 = n / 2 ^ 52 := by omega
    have rest : (n + 1) % 2 ^ 52 = n % 2 ^ 52 + 1 := by omega
    unfold ofBits
    rw [biased, rest]
    by_cases zero : n / 2 ^ 52 = 0
    · simp only [ofParts, zero, if_true, low, high, Bool.false_eq_true, if_false]
      congr 2
    · have wide : (n % 2 ^ 52 + 1 == 0) = false := by simp
      simp only [ofParts, zero, if_false, low, high, wide, Bool.false_and, Bool.false_eq_true]
      congr 2

theorem significand_mod_two (n : Nat) : (ofBits n).significand % 2 = n % 2 := by
  unfold ofBits ofParts
  split
  · change n % 2 ^ 52 % 2 = n % 2
    omega
  · change (2 ^ 52 + n % 2 ^ 52) % 2 = n % 2
    omega

theorem high_le_low (n k : Nat) : (ofBits n).high ≤ (ofBits (n + 1 + k)).low := by
  induction k with
  | zero => exact (low_succ n).ge
  | succ k ih => exact ih.trans ((low_lt_high _).le.trans (low_succ (n + 1 + k)).ge)

theorem not_contains_later {n k : Nat} {q : ℚ} (first : (ofBits n).Contains q) (second : (ofBits (n + 1 + k)).Contains q) :
    False := by
  have between := high_le_low n k
  have same : q = (ofBits n).high := le_antisymm first.below (between.trans second.above)
  have same' : q = (ofBits (n + 1 + k)).low := le_antisymm (first.below.trans between) second.above
  cases k with
  | zero =>
    -- the end between two neighbours belongs to the even one
    have even := first.even (.inr same)
    have even' := second.even (.inl same')
    rw [significand_mod_two] at even even'
    omega
  | succ k =>
    have less : (ofBits n).high < (ofBits (n + 1 + k)).high := (high_le_low n k).trans_lt (low_lt_high _)
    exact (less.trans_eq (low_succ (n + 1 + k)).symm).ne (same.symm.trans same')

/-- No value rounds to two reals. -/
theorem eq_of_contains {n m : Nat} {q : ℚ} (first : (ofBits n).Contains q) (second : (ofBits m).Contains q) : n = m := by
  rcases Nat.lt_trichotomy n m with less | same | greater
  · obtain ⟨k, rfl⟩ := Nat.exists_eq_add_of_le (Nat.succ_le_of_lt less)
    exact (not_contains_later first second).elim
  · exact same
  · obtain ⟨k, rfl⟩ := Nat.exists_eq_add_of_le (Nat.succ_le_of_lt greater)
    exact (not_contains_later second first).elim

theorem eq_of_shortest {n m : Nat} (h : (ofBits n).shortest.toRat = (ofBits m).shortest.toRat) : n = m :=
  eq_of_contains (contains_shortest _) (h ▸ contains_shortest _)

end Magnitude

end Setwise.Decimal
