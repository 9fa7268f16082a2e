import Setwise.Decimal.Layout
import Setwise.Decimal.Reading
import Setwise.Proofs.ShortestDecimals

/-!
The text of a real identifies it.

The digits of a text, with the place of the point and the exponent behind them, give back the decimal that was laid
out (`Layout.value_digits`), and the shortest decimal of a real belongs to no other real. What is left are the sign and the
reals without digits, which the first characters of a text tell (`Layout.render_injective`).
-/

set_option autoImplicit false

namespace Setwise.Decimal

/-! ## Reading a layout back -/

def unsignedValue (text : List Char) : ℚ :=
  let mantissa := text.takeWhile (· ≠ 'e')
  let whole := mantissa.takeWhile (· ≠ '.')
  let fraction := (mantissa.dropWhile (· ≠ '.')).drop 1
  let exponent := (readExponent? (text.dropWhile (· ≠ 'e'))).getD 0
  appendDigits 0 (whole ++ fraction) * 10 ^ (exponent - fraction.length)

theorem appendDigits_eq (n : Nat) (digits : List Char) : appendDigits n digits = Nat.ofDigitChars 10 digits n :=
  Nat.ofDigitChars_eq_foldl.symm

theorem appendDigits_append (n : Nat) (l l' : List Char) :
    appendDigits n (l ++ l') = appendDigits (appendDigits n l) l' :=
  List.foldl_append

theorem appendDigits_zeros (n k : Nat) : appendDigits n (List.replicate k '0') = 10 ^ k * n := by
  rw [appendDigits_eq, Nat.ofDigitChars_replicate_zero]

@[simp] theorem appendDigits_toDigits (n : Nat) : appendDigits 0 (Nat.toDigits 10 n) = n := by
  rw [appendDigits_eq, Nat.ofDigitChars_ten_toDigits]

def AllDigits (text : List Char) : Prop :=
  ∀ c ∈ text, c.isDigit = true

theorem allDigits_toDigits (n : Nat) : AllDigits (Nat.toDigits 10 n) :=
  fun _ h => Nat.isDigit_of_mem_toDigits (by omega) (by omega) h

theorem allDigits_zeros (k : Nat) : AllDigits (List.replicate k '0') :=
  fun _ h => List.eq_of_mem_replicate h ▸ rfl

theorem AllDigits.append {l l' : List Char} (h : AllDigits l) (h' : AllDigits l') : AllDigits (l ++ l') :=
  fun c hc => (List.mem_append.mp hc).elim (h c) (h' c)

theorem AllDigits.ne {text : List Char} (h : AllDigits text) {c : Char} (hc : c ∈ text) (mark : Char)
    (notDigit : mark.isDigit = false) : c ≠ mark := by
  rintro rfl
  rw [h c hc] at notDigit
  cases notDigit

theorem AllDigits.splitSign_eq {text : List Char} (h : AllDigits text) : splitSign text = (false, text) := by
  unfold splitSign
  split
  next => exact absurd rfl (h.ne List.mem_cons_self '-' rfl)
  next => exact absurd rfl (h.ne List.mem_cons_self '+' rfl)
  next => rfl

theorem readExponent?_toString (i : Int) : readExponent? ('e' :: (toString i).toList) = some i := by
  -- both signs stand in front of the digits of a natural number
  have digits (n : Nat) : ((Nat.toDigits 10 n).isEmpty || !(Nat.toDigits 10 n).all Char.isDigit) = false := by
    rw [Bool.or_eq_false_iff, Bool.not_eq_false', List.all_eq_true, List.isEmpty_eq_false_iff]
    exact ⟨Nat.toDigits_ne_nil, allDigits_toDigits n⟩
  rw [Int.toString_eq_repr, Int.repr_eq_if]
  split
  next positive =>
    rw [Nat.toList_repr]
    simp [readExponent?, (allDigits_toDigits i.toNat).splitSign_eq, digits]
    omega
  next negative =>
    simp [readExponent?, splitSign, digits]
    omega

/-- A text of digits in parts: in front of the point, the point and what is behind it, and the exponent. -/
structure Spelled (text whole fraction : List Char) (k : Int) : Prop where
  parts : ∃ middle rest, text = whole ++ middle ++ rest ∧
    (middle = '.' :: fraction ∨ middle = [] ∧ fraction = []) ∧ (rest = [] ∧ k = 0 ∨ rest = 'e' :: (toString k).toList)
  wholeDigits : AllDigits whole
  fractionDigits : AllDigits fraction
  someWhole : whole ≠ []

theorem Spelled.value {text whole fraction : List Char} {k : Int} (h : Spelled text whole fraction k) :
    unsignedValue text = appendDigits 0 (whole ++ fraction) * 10 ^ (k - fraction.length) := by
  obtain ⟨middle, rest, rfl, point, mark⟩ := h.parts
  -- the reader splits at the first mark, and then at the first point: neither is a digit
  have middleMark : ∀ c ∈ whole ++ middle, decide (c ≠ 'e') = true := by
    intro c hc
    rw [decide_eq_true_eq]
    rcases List.mem_append.mp hc with inWhole | behind
    · exact h.wholeDigits.ne inWhole 'e' rfl
    · rcases point with rfl | ⟨rfl, -⟩
      · rcases List.mem_cons.mp behind with rfl | inFraction
        · decide
        · exact h.fractionDigits.ne inFraction 'e' rfl
      · cases behind
  have wholePoint : ∀ c ∈ whole, decide (c ≠ '.') = true := by
    intro c hc
    rw [decide_eq_true_eq]
    exact h.wholeDigits.ne hc '.' rfl
  have mantissa : (whole ++ middle ++ rest).takeWhile (· ≠ 'e') = whole ++ middle := by
    rw [List.takeWhile_append_of_pos middleMark]
    rcases mark with ⟨rfl, -⟩ | rfl <;> simp
  have behind : (whole ++ middle ++ rest).dropWhile (· ≠ 'e') = rest := by
    rw [List.dropWhile_append_of_pos middleMark]
    rcases mark with ⟨rfl, -⟩ | rfl <;> simp
  have front : (whole ++ middle).takeWhile (· ≠ '.') = whole := by
    rw [List.takeWhile_append_of_pos wholePoint]
    rcases point with rfl | ⟨rfl, -⟩ <;> simp
  have back : ((whole ++ middle).dropWhile (· ≠ '.')).drop 1 = fraction := by
    rw [List.dropWhile_append_of_pos wholePoint]
    rcases point with rfl | ⟨rfl, rfl⟩ <;> simp
  have exponent : (readExponent? rest).getD 0 = k := by
    rcases mark with ⟨rfl, rfl⟩ | rfl
    · rfl
    · rw [readExponent?_toString, Option.getD_some]
  unfold unsignedValue
  simp only [mantissa, behind, front, back, exponent]

theorem AllDigits.take {text : List Char} (h : AllDigits text) (k : Nat) : AllDigits (text.take k) :=
  fun c hc => h c (List.mem_of_mem_take hc)

theorem AllDigits.drop {text : List Char} (h : AllDigits text) (k : Nat) : AllDigits (text.drop k) :=
  fun c hc => h c (List.mem_of_mem_drop hc)

def Spells (text : List Char) (q : ℚ) : Prop :=
  ∃ whole fraction k, Spelled text whole fraction k ∧
    (appendDigits 0 (whole ++ fraction) : ℚ) * 10 ^ (k - fraction.length) = q

theorem Spells.value {text : List Char} {q : ℚ} (h : Spells text q) : unsignedValue text = q := by
  obtain ⟨whole, fraction, k, spelled, value⟩ := h
  rw [spelled.value, value]

section

variable {ds : List Char} {n : Nat} {e : Int}

theorem spells_integral (digits : AllDigits ds) (someDigits : ds ≠ []) (reads : appendDigits 0 ds = n) (integral : 0 ≤ e)
    (pointZero : Bool) :
    Spells (ds ++ List.replicate e.toNat '0' ++ if pointZero then ['.', '0'] else []) (n * 10 ^ e) := by
  have whole := digits.append (allDigits_zeros e.toNat)
  have someWhole := List.append_ne_nil_of_left_ne_nil someDigits (List.replicate e.toNat '0')
  have value : (10 : ℚ) ^ e.toNat = 10 ^ e := by
    rw [← zpow_natCast, Int.toNat_of_nonneg integral]
  have read : appendDigits 0 (ds ++ List.replicate e.toNat '0') = 10 ^ e.toNat * n := by
    rw [appendDigits_append, reads, appendDigits_zeros]
  cases pointZero with
  | true =>
    refine ⟨_, ['0'], 0, ⟨⟨_, [], (List.append_nil _).symm, .inl rfl, .inl ⟨rfl, rfl⟩⟩, whole, allDigits_zeros 1, someWhole⟩, ?_⟩
    rw [appendDigits_append, read]
    simp [appendDigits, value]
    ring
  | false =>
    refine ⟨_, [], 0, ⟨⟨[], [], by simp, .inr ⟨rfl, rfl⟩, .inl ⟨rfl, rfl⟩⟩, whole, allDigits_zeros 0, someWhole⟩, ?_⟩
    rw [List.append_nil, read]
    simp [value, mul_comm]

theorem spells_inside (digits : AllDigits ds) (someDigits : ds ≠ []) (reads : appendDigits 0 ds = n) {split : Nat}
    (place : (split : Int) = e + ds.length) (nonzero : split ≠ 0) (broken : e < 0) :
    Spells (ds.take split ++ '.' :: ds.drop split) (n * 10 ^ e) := by
  refine ⟨ds.take split, ds.drop split, 0, ⟨⟨_, [], (List.append_nil _).symm, .inl rfl, .inl ⟨rfl, rfl⟩⟩,
    digits.take split, digits.drop split, by simp [someDigits, nonzero]⟩, ?_⟩
  rw [List.take_append_drop, reads, List.length_drop]
  congr 2
  omega

theorem spells_outside (digits : AllDigits ds) (reads : appendDigits 0 ds = n) {zeros : Nat}
    (place : e + ds.length + zeros = 0) :
    Spells ('0' :: '.' :: (List.replicate zeros '0' ++ ds)) (n * 10 ^ e) := by
  refine ⟨['0'], List.replicate zeros '0' ++ ds, 0, ⟨⟨_, [], (List.append_nil _).symm, .inl rfl, .inl ⟨rfl, rfl⟩⟩,
    allDigits_zeros 1, (allDigits_zeros zeros).append digits, by simp⟩, ?_⟩
  have leading : appendDigits 0 ['0'] = 0 := rfl
  rw [appendDigits_append, leading, appendDigits_append, appendDigits_zeros, Nat.mul_zero, reads, List.length_append,
    List.length_replicate]
  congr 2
  push_cast
  omega

theorem spells_exponent (digits : AllDigits ds) (someDigits : ds ≠ []) (reads : appendDigits 0 ds = n) :
    Spells (ds.take 1 ++ (if (ds.drop 1).isEmpty then [] else '.' :: ds.drop 1)
      ++ 'e' :: (toString (e + ds.length - 1)).toList) (n * 10 ^ e) := by
  have length := List.length_pos_of_ne_nil someDigits
  refine ⟨ds.take 1, ds.drop 1, e + ds.length - 1, ⟨⟨_, _, rfl, ?_, .inr rfl⟩, digits.take 1, digits.drop 1,
    by simp [someDigits]⟩, ?_⟩
  · split
    next empty => exact .inr ⟨rfl, List.isEmpty_iff.mp empty⟩
    next => exact .inl rfl
  · rw [List.take_append_drop, reads, List.length_drop]
    congr 2
    omega

end

theorem Layout.spells_digits (layout : Layout) (d : Scientific) : Spells (layout.digits d).toList d.toRat := by
  have digits := allDigits_toDigits d.digits
  have someDigits : Nat.toDigits 10 d.digits ≠ [] := Nat.toDigits_ne_nil
  have reads := appendDigits_toDigits d.digits
  have length := List.length_pos_of_ne_nil someDigits
  have own : d.toRat = d.digits * 10 ^ d.exponent := rfl
  unfold Layout.digits
  rw [own]
  dsimp only
  split
  · split
    -- the point stands behind all digits, among them, or in front of them
    next integral =>
      have spelled := spells_integral digits someDigits reads integral layout.pointZero
      cases zero : layout.pointZero <;> simpa [zero] using spelled
    next broken =>
      split
      next inside =>
        have place : (((d.exponent + (Nat.toDigits 10 d.digits).length - 1).toNat + 1 : Nat) : Int) =
            d.exponent + (Nat.toDigits 10 d.digits).length := by omega
        simpa using spells_inside digits someDigits reads place (by omega) (by omega)
      next outside =>
        have place : d.exponent + (Nat.toDigits 10 d.digits).length +
            ((-(d.exponent + (Nat.toDigits 10 d.digits).length - 1) - 1).toNat : Nat) = 0 := by omega
        simpa using spells_outside digits reads place
  · have spelled := spells_exponent (e := d.exponent) digits someDigits reads
    by_cases single : (List.drop 1 (Nat.toDigits 10 d.digits)).isEmpty = true
    · rw [if_pos single] at spelled ⊢
      simpa using spelled
    · rw [if_neg single] at spelled ⊢
      simpa using spelled

/-! ## Bits -/

open Float.Model Float.Model.UnpackedFloat

theorem exponent_bits (x : Float) :
    (@unpackExponent Format.binary64 x.toBits.toBitVec).toNat = x.toBits.toNat / 2 ^ 52 % 2 ^ 11 := by
  simp [unpackExponent, Nat.shiftRight_eq_div_pow]

theorem fraction_bits (x : Float) :
    (@unpackMantissa Format.binary64 x.toBits.toBitVec).toNat = x.toBits.toNat % 2 ^ 52 := by
  simp [unpackMantissa]

theorem isNaN_iff (x : Float) :
    x.isNaN = true ↔ x.toBits.toNat / 2 ^ 52 % 2 ^ 11 = 2 ^ 11 - 1 ∧ x.toBits.toNat % 2 ^ 52 ≠ 0 := by
  have greatest : @unpackExponent Format.binary64 x.toBits.toBitVec = -1#_ ↔
      x.toBits.toNat / 2 ^ 52 % 2 ^ 11 = 2 ^ 11 - 1 := by
    rw [← BitVec.toNat_inj, exponent_bits]
    exact Iff.rfl
  have fraction : @unpackMantissa Format.binary64 x.toBits.toBitVec = 0#_ ↔ x.toBits.toNat % 2 ^ 52 = 0 := by
    rw [← BitVec.toNat_inj, fraction_bits]
    exact Iff.rfl
  have unpacked : x.isNaN = (UnpackedFloat.unpack Format.binary64 x.toBits.toBitVec).isNaN := rfl
  rw [unpacked, ← greatest, ne_eq, ← fraction]
  unfold UnpackedFloat.unpack
  extract_lets mantissa exponent power sign sign'
  -- all ones in the exponent: an infinity if the fraction is zero, and not a number otherwise
  by_cases all : exponent = -1#_
  · by_cases zero : mantissa = 0#_
    · rw [if_pos all, if_pos zero]
      exact ⟨fun h => absurd h Bool.false_ne_true, fun h => absurd zero h.2⟩
    · rw [if_pos all, if_neg zero]
      exact ⟨fun _ => ⟨all, zero⟩, fun _ => rfl⟩
  · rw [if_neg all]
    have number {u : UnpackedFloat} (h : u.isNaN = false) : u.isNaN = true ↔ exponent = -1#_ ∧ ¬ mantissa = 0#_ :=
      ⟨fun h' => absurd (h.symm.trans h') Bool.false_ne_true, fun h' => absurd h'.1 all⟩
    by_cases least : exponent = 0#_
    · by_cases zero : mantissa = 0#_
      · rw [if_pos least, dif_pos zero]
        exact number rfl
      · rw [if_pos least, dif_neg zero]
        exact number rfl
    · rw [if_neg least]
      exact number rfl

theorem eq_of_toBits {x y : Float} (h : x.toBits.toNat = y.toBits.toNat) : x = y := by
  obtain ⟨⟨bits, valid⟩⟩ := x
  obtain ⟨⟨bits', valid'⟩⟩ := y
  obtain rfl : bits = bits' := UInt64.toNat_inj.mp h
  rfl

theorem eq_of_isNaN {x y : Float} (h : x.isNaN = true) (h' : y.isNaN = true) : x = y := by
  have canonical {z : Float} (h : z.isNaN = true) : z.toBits.toBitVec = packedNaN Format.binary64 := by
    obtain ⟨greatest, fraction⟩ := (isNaN_iff z).mp h
    refine z.toModel.valid.eq_packedNaN ?_ ?_
    · rw [← BitVec.toNat_inj]
      exact (exponent_bits z).trans greatest
    · intro zero
      exact fraction ((fraction_bits z).symm.trans (congrArg BitVec.toNat zero))
  apply eq_of_toBits
  rw [← UInt64.toNat_toBitVec, canonical h, ← canonical h', UInt64.toNat_toBitVec]

def unsignedBits (x : Float) : Nat :=
  x.toBits.toNat % 2 ^ 63

theorem ofFloat?_eq (x : Float) : Magnitude.ofFloat? x =
    if unsignedBits x / 2 ^ 52 = 2 ^ 11 - 1 then none else some (Magnitude.ofBits (unsignedBits x)) := by
  have exponent : unsignedBits x / 2 ^ 52 = x.toBits.toNat / 2 ^ 52 % 2 ^ 11 := by
    unfold unsignedBits
    omega
  have fraction : unsignedBits x % 2 ^ 52 = x.toBits.toNat % 2 ^ 52 := by
    unfold unsignedBits
    omega
  unfold Magnitude.ofFloat? Magnitude.ofBits Magnitude.ofParts
  simp only [Nat.pow_eq, exponent, fraction]
  split
  · rfl
  · split <;> rfl

theorem eq_of_unsignedBits {x y : Float} (sign : isNegative x = isNegative y) (h : unsignedBits x = unsignedBits y) :
    x = y := by
  have bound := x.toBits.toBitVec.isLt
  have bound' := y.toBits.toBitVec.isLt
  apply eq_of_toBits
  unfold isNegative at sign
  unfold unsignedBits at h
  rw [Bool.eq_iff_iff, beq_iff_eq, beq_iff_eq] at sign
  simp only [Nat.pow_eq, UInt64.toNat_toBitVec] at sign bound bound'
  omega

/-! ## Texts of reals -/

def Layout.unsigned (layout : Layout) (x : Float) : List Char :=
  match Magnitude.ofFloat? x with
  | none => ['i', 'n', 'f']
  | some m => (layout.digits m.shortest).toList

theorem Layout.toList_render (layout : Layout) {x : Float} (number : x.isNaN = false) :
    (layout.render x).toList = (if isNegative x then ['-'] else []) ++ layout.unsigned x := by
  unfold Layout.render Layout.unsigned
  rw [number, if_neg (by simp), String.toList_append]
  congr 1
  · split <;> rfl
  · cases Magnitude.ofFloat? x with
    | none => exact String.toList_ofList
    | some => rfl

theorem Layout.digits_head (layout : Layout) (d : Scientific) :
    ∃ c rest, (layout.digits d).toList = c :: rest ∧ c.isDigit = true := by
  obtain ⟨whole, fraction, k, spelled, -⟩ := layout.spells_digits d
  obtain ⟨middle, rest, text, -⟩ := spelled.parts
  obtain ⟨c, others, rfl⟩ := List.exists_cons_of_ne_nil spelled.someWhole
  exact ⟨c, others ++ middle ++ rest, text, spelled.wholeDigits c List.mem_cons_self⟩

theorem Layout.unsigned_head (layout : Layout) (x : Float) :
    ∃ c rest, layout.unsigned x = c :: rest ∧ (c = 'i' ∨ c.isDigit = true) := by
  unfold Layout.unsigned
  split
  · exact ⟨'i', _, rfl, .inl rfl⟩
  next m _ =>
    obtain ⟨c, rest, text, digit⟩ := layout.digits_head m.shortest
    exact ⟨c, rest, text, .inr digit⟩

theorem unsignedBits_of_infinite {x : Float} (number : x.isNaN = false) (infinite : Magnitude.ofFloat? x = none) :
    unsignedBits x = (2 ^ 11 - 1) * 2 ^ 52 := by
  rw [ofFloat?_eq] at infinite
  have greatest : unsignedBits x / 2 ^ 52 = 2 ^ 11 - 1 := by
    by_contra finite
    rw [if_neg finite] at infinite
    cases infinite
  have zero : x.toBits.toNat % 2 ^ 52 = 0 := by
    by_contra fraction
    refine absurd ((isNaN_iff x).mpr ⟨?_, fraction⟩) (Bool.eq_false_iff.1 number)
    unfold unsignedBits at greatest
    omega
  unfold unsignedBits at greatest ⊢
  omega

theorem ofBits_of_finite {x : Float} {m : Magnitude} (finite : Magnitude.ofFloat? x = some m) :
    m = Magnitude.ofBits (unsignedBits x) := by
  rw [ofFloat?_eq] at finite
  split at finite
  · cases finite
  · exact (Option.some.inj finite).symm

theorem Layout.unsigned_injective {layout : Layout} {x y : Float} (number : x.isNaN = false) (number' : y.isNaN = false)
    (h : layout.unsigned x = layout.unsigned y) : unsignedBits x = unsignedBits y := by
  unfold Layout.unsigned at h
  -- no digits begin like the text of an infinity
  have differ (d : Scientific) : (layout.digits d).toList ≠ ['i', 'n', 'f'] := by
    intro same
    obtain ⟨c, rest, text, digit⟩ := layout.digits_head d
    obtain ⟨rfl, -⟩ := List.cons.inj (text.symm.trans same)
    cases digit
  cases left : Magnitude.ofFloat? x with
  | none =>
    cases right : Magnitude.ofFloat? y with
    | none => rw [unsignedBits_of_infinite number left, unsignedBits_of_infinite number' right]
    | some m =>
      simp only [left, right] at h
      exact absurd h.symm (differ _)
  | some m =>
    cases right : Magnitude.ofFloat? y with
    | none =>
      simp only [left, right] at h
      exact absurd h (differ _)
    | some m' =>
      simp only [left, right] at h
      obtain rfl := ofBits_of_finite left
      obtain rfl := ofBits_of_finite right
      apply Magnitude.eq_of_shortest
      rw [← (layout.spells_digits _).value, ← (layout.spells_digits _).value, h]

theorem Layout.unsigned_ne_minus (layout : Layout) (x : Float) (rest : List Char) : layout.unsigned x ≠ '-' :: rest := by
  intro same
  obtain ⟨c, others, unsigned, begins⟩ := layout.unsigned_head x
  obtain ⟨rfl, -⟩ := List.cons.inj (unsigned.symm.trans same)
  rcases begins with letter | digit
  · cases letter
  · cases digit

theorem Layout.render_ne_nan (layout : Layout) {x : Float} (number : x.isNaN = false) : layout.render x ≠ "NaN" := by
  intro same
  have letters : "NaN".toList = ['N', 'a', 'N'] := String.toList_ofList
  have text := layout.toList_render number
  obtain ⟨c, rest, unsigned, begins⟩ := layout.unsigned_head x
  rw [same, letters, unsigned] at text
  cases negative : isNegative x with
  | true => simp [negative] at text
  | false =>
    obtain ⟨rfl, -⟩ : c = 'N' ∧ rest = ['a', 'N'] := by simpa [negative, eq_comm] using text
    rcases begins with letter | digit
    · cases letter
    · cases digit

theorem Layout.render_nan (layout : Layout) {x : Float} (h : x.isNaN = true) : layout.render x = "NaN" := by
  unfold Layout.render
  rw [if_pos h]

/-- Reals with one text are one real. -/
theorem Layout.render_injective (layout : Layout) : Function.Injective layout.render := by
  intro x y h
  cases number : x.isNaN with
  | true =>
    cases number' : y.isNaN with
    | true => exact eq_of_isNaN number number'
    | false => exact absurd (h.symm.trans (layout.render_nan number)) (layout.render_ne_nan number')
  | false =>
    cases number' : y.isNaN with
    | true => exact absurd (h.trans (layout.render_nan number')) (layout.render_ne_nan number)
    | false =>
      have text := congrArg String.toList h
      rw [layout.toList_render number, layout.toList_render number'] at text
      have sign : isNegative x = isNegative y := by
        cases negative : isNegative x <;> cases negative' : isNegative y <;> simp [negative, negative'] at text ⊢
        · exact layout.unsigned_ne_minus x _ text
        · exact layout.unsigned_ne_minus y _ text.symm
      rw [sign] at text
      exact eq_of_unsignedBits sign (unsigned_injective number number' (List.append_cancel_left text))

end Setwise.Decimal
