import Setwise.Client.Printed
import Setwise.Proofs.PrintedForms
import Setwise.Proofs.RealLiterals

/-!
Different mutations have different texts in full.

Everything that makes up a mutation has a well-formed printed form, from which it can be told: the kind of a node from its
name, and the parts from their places. With one text for one form (`Printed.eq_of_text`), the text of a mutation
identifies it (`Client.Mutation.eq_of_text`).
-/

set_option autoImplicit false

namespace Setwise

open Text

namespace Text.Printed

/-! ## Well-formed printed forms -/

def isWord (s : String) : Bool :=
  isName s && s != ""

theorem wellFormed_word {name : String} (h : isWord name = true) : WellFormed (word name) := by
  simp only [isWord, Bool.and_eq_true, bne_iff_ne] at h
  exact .node h.1 (fun _ => rfl) (fun e => absurd e h.2) (by simp)

theorem wellFormed_apply {name : String} {parts : List Printed} (h : isName name = true)
    (inside : ∀ p ∈ parts, WellFormed p) : WellFormed (apply name parts) :=
  .node h (fun e => nomatch e) (fun _ => .inl rfl) inside

theorem wellFormed_list {parts : List Printed} (inside : ∀ p ∈ parts, WellFormed p) : WellFormed (list parts) :=
  .node rfl (fun e => nomatch e) (fun _ => .inr rfl) inside

inductive Labelled : List (String × Printed) → Prop where
  | nil : Labelled []
  | cons {label : String} {value : Printed} {rest : List (String × Printed)} (word : isWord label = true)
      (inside : WellFormed value) (others : Labelled rest) : Labelled ((label, value) :: rest)

theorem Labelled.wellFormed {parts : List (String × Printed)} (h : Labelled parts) :
    ∀ p ∈ parts.map fun p => field p.1 p.2, WellFormed p := by
  induction h with
  | nil => simp
  | cons word inside others ih =>
    simp only [isWord, Bool.and_eq_true, bne_iff_ne] at word
    exact List.forall_mem_cons.mpr ⟨.field word.1 word.2 inside, ih⟩

theorem wellFormed_record {name : String} {parts : List (String × Printed)} (h : isWord name = true)
    (inside : Labelled parts) : WellFormed (record name parts) := by
  simp only [isWord, Bool.and_eq_true, bne_iff_ne] at h
  exact .node h.1 (fun e => nomatch e) (fun e => absurd e h.2) inside.wellFormed

theorem wellFormed_apply_one {name : String} {p : Printed} (h : isName name = true) (inside : WellFormed p) :
    WellFormed (apply name [p]) :=
  wellFormed_apply h (List.forall_mem_singleton.mpr inside)

theorem wellFormed_option {α : Type} {print : α → Printed} (h : ∀ a, WellFormed (print a)) (o : Option α) :
    WellFormed (option print o) := by
  cases o with
  | none => exact wellFormed_word rfl
  | some a => exact wellFormed_apply rfl (by simp [h a])

theorem wellFormed_bool (b : Bool) : WellFormed (bool b) := by
  cases b <;> exact wellFormed_word rfl

theorem wellFormed_map {α : Type} {print : α → Printed} (h : ∀ a, WellFormed (print a)) (l : List α) :
    WellFormed (list (l.map print)) := by
  apply wellFormed_list
  intro p hp
  obtain ⟨a, -, rfl⟩ := List.mem_map.mp hp
  exact h a

theorem wellFormed_texts (ss : List String) : WellFormed (texts ss) :=
  wellFormed_map .quoted ss

/-! ## Parts of printed forms -/

@[simp] theorem word_inj {a b : String} : word a = word b ↔ a = b := by
  simp [word]

@[simp] theorem apply_inj {a b : String} {ps qs : List Printed} : apply a ps = apply b qs ↔ a = b ∧ ps = qs := by
  simp [apply]

@[simp] theorem list_inj {ps qs : List Printed} : list ps = list qs ↔ ps = qs := by
  simp [list]

theorem field_injective : Function.Injective fun p : String × Printed => field p.1 p.2 := by
  rintro ⟨label, value⟩ ⟨label', value'⟩ h
  simpa using h

@[simp] theorem record_inj {a b : String} {ps qs : List (String × Printed)} :
    record a ps = record b qs ↔ a = b ∧ ps = qs := by
  simp [record, (List.map_injective_iff.mpr field_injective).eq_iff]

@[simp] theorem bool_inj {a b : Bool} : bool a = bool b ↔ a = b := by
  cases a <;> cases b <;> simp [bool]

@[simp] theorem word_ne_apply {a b : String} {ps : List Printed} : word a ≠ apply b ps := by
  simp [word, apply]

@[simp] theorem apply_ne_word {a b : String} {ps : List Printed} : apply a ps ≠ word b := by
  simp [word, apply]

@[simp] theorem apply_ne_record {a b : String} {ps : List Printed} {qs : List (String × Printed)} :
    apply a ps ≠ record b qs := by
  simp [apply, record]

@[simp] theorem record_ne_apply {a b : String} {ps : List (String × Printed)} {qs : List Printed} :
    record a ps ≠ apply b qs := by
  simp [apply, record]

theorem option_injective {α : Type} {print : α → Printed} (h : Function.Injective print) :
    Function.Injective (option print) := by
  intro a b same
  cases a <;> cases b <;> simp [option, word, apply] at same ⊢
  exact h same

theorem texts_injective : Function.Injective texts := by
  intro a b same
  have quoted_injective : Function.Injective quoted := fun _ _ => quoted.inj
  exact List.map_injective_iff.mpr quoted_injective (list_inj.mp same)

end Text.Printed

open Printed

/-! ## Values -/

theorem Operator.printedName_injective : Function.Injective Operator.printedName := by
  intro a b h
  cases a <;> cases b <;> first | rfl | exact absurd h (by decide)

theorem Operator.printedName_isWord (op : Operator) : isWord op.printedName = true := by
  cases op <;> rfl

theorem nameChar_digits {text : List Char} (h : Decimal.AllDigits text) : text.all nameChar = true := by
  rw [List.all_eq_true]
  intro c mem
  simp [nameChar, Char.isAlphanum, h c mem]

theorem nameChar_int (i : Int) : (toString i).toList.all nameChar = true := by
  rw [Int.toString_eq_repr, Int.repr_eq_if]
  split
  · rw [Nat.toList_repr]
    exact nameChar_digits (Decimal.allDigits_toDigits _)
  · rw [String.toList_append, List.all_append, Nat.toList_repr, nameChar_digits (Decimal.allDigits_toDigits _)]
    rfl

theorem nameChar_spells {text : List Char} {q : ℚ} (h : Decimal.Spells text q) : text.all nameChar = true := by
  obtain ⟨whole, fraction, k, spelled, -⟩ := h
  obtain ⟨middle, rest, rfl, point, mark⟩ := spelled.parts
  have pointed : middle.all nameChar = true := by
    rcases point with rfl | ⟨rfl, -⟩
    · rw [List.all_cons, nameChar_digits spelled.fractionDigits]
      rfl
    · rfl
  have marked : rest.all nameChar = true := by
    rcases mark with ⟨rfl, -⟩ | rfl
    · rfl
    · rw [List.all_cons, nameChar_int]
      rfl
  rw [List.all_append, List.all_append, nameChar_digits spelled.wholeDigits, pointed, marked]
  rfl

theorem isWord_of_letters {s : String} (letters : s.toList.all nameChar = true) (some : s.toList ≠ []) :
    isWord s = true := by
  rw [isWord, Bool.and_eq_true, bne_iff_ne]
  exact ⟨letters, fun empty => some (String.toList_eq_nil_iff.mpr empty)⟩

theorem isWord_nat (n : Nat) : isWord (toString n) = true := by
  apply isWord_of_letters
  · rw [Nat.toString_eq_repr, Nat.toList_repr]
    exact nameChar_digits (Decimal.allDigits_toDigits n)
  · rw [Nat.toString_eq_repr, Nat.toList_repr]
    exact Nat.toDigits_ne_nil

theorem isWord_int (i : Int) : isWord (toString i) = true := by
  apply isWord_of_letters (nameChar_int i)
  rw [Int.toString_eq_repr, Int.repr_eq_if]
  split <;> simp [Nat.toList_repr]

theorem isWord_real (x : Float) : isWord (Decimal.Layout.literal.render x) = true := by
  cases number : x.isNaN with
  | true =>
    rw [Decimal.Layout.render_nan _ number]
    rfl
  | false =>
    obtain ⟨c, rest, unsigned, -⟩ := Decimal.Layout.literal.unsigned_head x
    apply isWord_of_letters
    · have letters : (Decimal.Layout.literal.unsigned x).all nameChar = true := by
        unfold Decimal.Layout.unsigned
        split
        · rfl
        · exact nameChar_spells (Decimal.Layout.spells_digits _ _)
      rw [Decimal.Layout.toList_render _ number, List.all_append, letters]
      split <;> rfl
    · rw [Decimal.Layout.toList_render _ number, unsigned]
      simp

theorem toString_int_injective : Function.Injective (toString : Int → String) := by
  intro i j h
  -- the exponents of reals are read back in the same way
  have read := Decimal.readExponent?_toString i
  rw [h, Decimal.readExponent?_toString] at read
  exact (Option.some.inj read).symm

theorem toString_nat_injective : Function.Injective (toString : Nat → String) := by
  intro n m h
  have digits : Nat.toDigits 10 n = Nat.toDigits 10 m := by
    simpa [Nat.toString_eq_repr] using congrArg String.toList h
  rw [← Nat.ofDigitChars_ten_toDigits (n := n), digits, Nat.ofDigitChars_ten_toDigits]

theorem Value.printed_wellFormed (v : Value) : WellFormed v.printed := by
  cases v with
  | int i => exact wellFormed_apply_one rfl (wellFormed_word (isWord_int i))
  | text s => exact wellFormed_apply_one rfl (.quoted s)
  | blob bytes =>
    have byte (b : UInt8) : WellFormed (word (toString b.toNat)) := wellFormed_word (isWord_nat b.toNat)
    have all := wellFormed_map byte bytes
    exact wellFormed_apply_one rfl all
  | real x => exact wellFormed_apply_one rfl (wellFormed_word (isWord_real x))
  | bool b => exact wellFormed_apply_one rfl (wellFormed_bool b)
  | null => exact wellFormed_word rfl

theorem Value.printed_injective : Function.Injective Value.printed := by
  have byte_injective : Function.Injective fun b : UInt8 => word (toString b.toNat) := by
    intro b b' h
    have numbers : toString b.toNat = toString b'.toNat := word_inj.mp h
    exact UInt8.toNat_inj.mp (toString_nat_injective numbers)
  intro v w h
  cases v <;> cases w <;>
    simp only [Value.printed, apply_inj, word_inj, list_inj, quoted.injEq, bool_inj, word_ne_apply, apply_ne_word,
      List.cons.injEq, and_true, String.reduceEq, false_and] at h
  · rw [toString_int_injective h.2]
  · rw [h.2]
  · rw [List.map_injective_iff.mpr byte_injective h.2]
  · rw [Decimal.Layout.render_injective _ h.2]
  · rw [h.2]
  · rfl

/-! ## Expressions -/

namespace Client

mutual

theorem Expr.printed_wellFormed : ∀ e : Expr, WellFormed e.printed
  | .param name => wellFormed_apply_one rfl (.quoted name)
  | .member of name => wellFormed_record rfl (.cons rfl of.printed_wellFormed (.cons rfl (.quoted name) .nil))
  | .constant v => wellFormed_apply_one rfl v.printed_wellFormed
  | .captured name v => wellFormed_record rfl (.cons rfl (.quoted name) (.cons rfl v.printed_wellFormed .nil))
  | .runtime name => wellFormed_apply_one rfl (.quoted name)
  | .binary l op r => wellFormed_record rfl (.cons rfl l.printed_wellFormed
    (.cons rfl (wellFormed_word op.printedName_isWord) (.cons rfl r.printed_wellFormed .nil)))
  | .not operand => wellFormed_apply_one rfl operand.printed_wellFormed
  | .conditional test a b => wellFormed_record rfl
    (.cons rfl test.printed_wellFormed (.cons rfl a.printed_wellFormed (.cons rfl b.printed_wellFormed .nil)))
  | .new type args bindings => wellFormed_record rfl (.cons rfl (wellFormed_option .quoted type)
    (.cons rfl (wellFormed_list (Expr.printedList_wellFormed args))
      (.cons rfl (wellFormed_list (Expr.printedBindings_wellFormed bindings)) .nil)))

theorem Expr.printedList_wellFormed : ∀ es : List Expr, ∀ p ∈ Expr.printedList es, WellFormed p
  | [] => by simp [Expr.printedList]
  | e :: rest => by simpa [Expr.printedList, e.printed_wellFormed] using Expr.printedList_wellFormed rest

theorem Expr.printedBindings_wellFormed : ∀ bs : List (Binding Expr), ∀ p ∈ Expr.printedBindings bs, WellFormed p
  | [] => by simp [Expr.printedBindings]
  | b :: rest => by
    simpa [Expr.printedBindings, Expr.printedBinding_wellFormed b] using Expr.printedBindings_wellFormed rest

theorem Expr.printedBinding_wellFormed : ∀ b : Binding Expr, WellFormed (Expr.printedBinding b)
  | .assign name value => wellFormed_record rfl (.cons rfl (.quoted name) (.cons rfl value.printed_wellFormed .nil))
  | .items name values => wellFormed_record rfl
    (.cons rfl (.quoted name) (.cons rfl (wellFormed_list (Expr.printedList_wellFormed values)) .nil))

end

mutual

theorem Expr.eq_of_printed : ∀ {e e' : Expr}, e.printed = e'.printed → e = e'
  | .param name, e', h => by
    cases e' <;> simp [Expr.printed] at h
    rw [h]
  | .member of name, e', h => by
    cases e' <;> simp [Expr.printed] at h
    rw [Expr.eq_of_printed h.1, h.2]
  | .constant v, e', h => by
    cases e' <;> simp [Expr.printed] at h
    rw [Value.printed_injective h]
  | .captured name v, e', h => by
    cases e' <;> simp [Expr.printed] at h
    rw [Value.printed_injective h.2, h.1]
  | .runtime name, e', h => by
    cases e' <;> simp [Expr.printed] at h
    rw [h]
  | .binary l op r, e', h => by
    cases e' <;> simp [Expr.printed] at h
    rw [Expr.eq_of_printed h.1, Operator.printedName_injective h.2.1, Expr.eq_of_printed h.2.2]
  | .not operand, e', h => by
    cases e' <;> simp [Expr.printed] at h
    rw [Expr.eq_of_printed h]
  | .conditional test a b, e', h => by
    cases e' <;> simp [Expr.printed] at h
    rw [Expr.eq_of_printed h.1, Expr.eq_of_printed h.2.1, Expr.eq_of_printed h.2.2]
  | .new type args bindings, e', h => by
    cases e' <;> simp [Expr.printed] at h
    rw [option_injective (fun _ _ => quoted.inj) h.1, Expr.eq_of_printedList h.2.1, Expr.eq_of_printedBindings h.2.2]
termination_by structural e => e

theorem Expr.eq_of_printedList : ∀ {es es' : List Expr}, Expr.printedList es = Expr.printedList es' → es = es'
  | [], [], _ => rfl
  | e :: es, e' :: es', h => by
    simp only [Expr.printedList, List.cons.injEq] at h
    rw [Expr.eq_of_printed h.1, Expr.eq_of_printedList h.2]
termination_by structural es => es

theorem Expr.eq_of_printedBindings : ∀ {bs bs' : List (Binding Expr)},
    Expr.printedBindings bs = Expr.printedBindings bs' → bs = bs'
  | [], [], _ => rfl
  | b :: bs, b' :: bs', h => by
    simp only [Expr.printedBindings, List.cons.injEq] at h
    rw [Expr.eq_of_printedBinding h.1, Expr.eq_of_printedBindings h.2]
termination_by structural bs => bs

theorem Expr.eq_of_printedBinding : ∀ {b b' : Binding Expr}, Expr.printedBinding b = Expr.printedBinding b' → b = b'
  | .assign name value, b', h => by
    cases b' <;> simp [Expr.printedBinding] at h
    rw [h.1, Expr.eq_of_printed h.2]
  | .items name values, b', h => by
    cases b' <;> simp [Expr.printedBinding] at h
    rw [h.1, Expr.eq_of_printedList h.2]
termination_by structural b => b

end

/-! ## Queries and mutations -/

theorem Lambda.printed_wellFormed (l : Lambda) : WellFormed l.printed :=
  wellFormed_record rfl (.cons rfl (wellFormed_texts l.params) (.cons rfl l.body.printed_wellFormed .nil))

theorem Lambda.printed_injective : Function.Injective Lambda.printed := by
  rintro ⟨params, body⟩ ⟨params', body'⟩ h
  simp [Lambda.printed] at h
  rw [texts_injective h.1, Expr.eq_of_printed h.2]

theorem Record.printed_wellFormed (r : Record) : WellFormed r.printed := by
  have field (f : String × Value) : WellFormed (apply "" [quoted f.1, f.2.printed]) :=
    wellFormed_apply rfl (List.forall_mem_cons.mpr ⟨.quoted f.1, List.forall_mem_singleton.mpr f.2.printed_wellFormed⟩)
  exact wellFormed_record rfl
    (.cons rfl (wellFormed_option .quoted r.type) (.cons rfl (wellFormed_map field r.fields) .nil))

theorem Record.printed_injective : Function.Injective Record.printed := by
  have field_injective : Function.Injective fun f : String × Value => apply "" [quoted f.1, f.2.printed] := by
    rintro ⟨name, v⟩ ⟨name', v'⟩ h
    simp at h
    rw [h.1, Value.printed_injective h.2]
  rintro ⟨type, fields⟩ ⟨type', fields'⟩ h
  simp only [Record.printed, record_inj, List.cons.injEq, Prod.mk.injEq, list_inj, true_and, and_true] at h
  rw [option_injective (fun _ _ => quoted.inj) h.1, List.map_injective_iff.mpr field_injective h.2]

theorem LocalRows.printed_wellFormed (c : LocalRows) : WellFormed c.printed := by
  cases c with
  | records fields elements =>
    exact wellFormed_record rfl
      (.cons rfl (wellFormed_texts fields) (.cons rfl (wellFormed_map Record.printed_wellFormed elements) .nil))
  | parameter name fields =>
    exact wellFormed_record rfl (.cons rfl (.quoted name) (.cons rfl (wellFormed_texts fields) .nil))

theorem LocalRows.printed_injective : Function.Injective LocalRows.printed := by
  intro c c' h
  cases c <;> cases c' <;> simp [LocalRows.printed] at h
  · rw [texts_injective h.1, List.map_injective_iff.mpr Record.printed_injective h.2]
  · rw [h.1, texts_injective h.2]

theorem Query.printed_wellFormed (q : Query) : WellFormed q.printed := by
  induction q with
  | set entity => exact wellFormed_apply_one rfl (.quoted entity)
  | rows c => exact wellFormed_apply_one rfl c.printed_wellFormed
  | filter input predicate ih =>
    exact wellFormed_record rfl (.cons rfl ih (.cons rfl predicate.printed_wellFormed .nil))
  | map input selector ih =>
    exact wellFormed_record rfl (.cons rfl ih (.cons rfl selector.printed_wellFormed .nil))
  | join outer inner outerKey innerKey result ih ih' =>
    exact wellFormed_record rfl (.cons rfl ih (.cons rfl ih' (.cons rfl outerKey.printed_wellFormed
      (.cons rfl innerKey.printed_wellFormed (.cons rfl result.printed_wellFormed .nil)))))
  | orderBy input key descending ih =>
    exact wellFormed_record rfl
      (.cons rfl ih (.cons rfl key.printed_wellFormed (.cons rfl (wellFormed_bool descending) .nil)))
  | take input count ih => exact wellFormed_record rfl (.cons rfl ih (.cons rfl count.printed_wellFormed .nil))
  | skip input count ih => exact wellFormed_record rfl (.cons rfl ih (.cons rfl count.printed_wellFormed .nil))
  | groupBy input key ih => exact wellFormed_record rfl (.cons rfl ih (.cons rfl key.printed_wellFormed .nil))
  | union left right ih ih' => exact wellFormed_record rfl (.cons rfl ih (.cons rfl ih' .nil))

theorem Query.printed_injective : Function.Injective Query.printed := by
  intro q
  induction q with
  | set entity =>
    intro q' h
    cases q' <;> simp [Query.printed] at h
    rw [h]
  | rows c =>
    intro q' h
    cases q' <;> simp [Query.printed] at h
    rw [LocalRows.printed_injective h]
  | filter input predicate ih =>
    intro q' h
    cases q' <;> simp [Query.printed] at h
    rw [ih h.1, Lambda.printed_injective h.2]
  | map input selector ih =>
    intro q' h
    cases q' <;> simp [Query.printed] at h
    rw [ih h.1, Lambda.printed_injective h.2]
  | join outer inner outerKey innerKey result ih ih' =>
    intro q' h
    cases q' <;> simp [Query.printed] at h
    rw [ih h.1, ih' h.2.1, Lambda.printed_injective h.2.2.1, Lambda.printed_injective h.2.2.2.1,
      Lambda.printed_injective h.2.2.2.2]
  | orderBy input key descending ih =>
    intro q' h
    cases q' <;> simp [Query.printed] at h
    rw [ih h.1, Lambda.printed_injective h.2.1, h.2.2]
  | take input count ih =>
    intro q' h
    cases q' <;> simp [Query.printed] at h
    rw [ih h.1, Expr.eq_of_printed h.2]
  | skip input count ih =>
    intro q' h
    cases q' <;> simp [Query.printed] at h
    rw [ih h.1, Expr.eq_of_printed h.2]
  | groupBy input key ih =>
    intro q' h
    cases q' <;> simp [Query.printed] at h
    rw [ih h.1, Lambda.printed_injective h.2]
  | union left right ih ih' =>
    intro q' h
    cases q' <;> simp [Query.printed] at h
    rw [ih h.1, ih' h.2]

theorem Mutation.printed_wellFormed (m : Mutation) : WellFormed m.printed := by
  have optional := wellFormed_option Lambda.printed_wellFormed
  cases m with
  | delete q => exact wellFormed_record rfl (.cons rfl q.printed_wellFormed .nil)
  | update q set =>
    exact wellFormed_record rfl (.cons rfl q.printed_wellFormed (.cons rfl set.printed_wellFormed .nil))
  | updateJoin outer inner outerKey innerKey set condition =>
    exact wellFormed_record rfl (.cons rfl outer.printed_wellFormed (.cons rfl inner.printed_wellFormed
      (.cons rfl outerKey.printed_wellFormed (.cons rfl innerKey.printed_wellFormed
        (.cons rfl set.printed_wellFormed (.cons rfl (optional condition) .nil))))))
  | insertInto q target =>
    exact wellFormed_record rfl (.cons rfl q.printed_wellFormed (.cons rfl (.quoted target) .nil))
  | upsert target source inserted updated =>
    exact wellFormed_record rfl (.cons rfl (.quoted target)
      (.cons rfl (wellFormed_option Query.printed_wellFormed source)
        (.cons rfl inserted.printed_wellFormed (.cons rfl (optional updated) .nil))))
  | merge target source targetKey sourceKey updated inserted deleted =>
    exact wellFormed_record rfl (.cons rfl (.quoted target) (.cons rfl source.printed_wellFormed
      (.cons rfl targetKey.printed_wellFormed (.cons rfl sourceKey.printed_wellFormed
        (.cons rfl (optional updated) (.cons rfl (optional inserted) (.cons rfl (wellFormed_bool deleted) .nil)))))))

theorem Mutation.printed_injective : Function.Injective Mutation.printed := by
  have optional : Function.Injective (option Lambda.printed) := option_injective Lambda.printed_injective
  have source : Function.Injective (option Query.printed) := option_injective Query.printed_injective
  intro m m' h
  cases m <;> cases m' <;> simp [Mutation.printed] at h
  case delete.delete => rw [Query.printed_injective h]
  case update.update => rw [Query.printed_injective h.1, Lambda.printed_injective h.2]
  case updateJoin.updateJoin =>
    rw [Query.printed_injective h.1, Query.printed_injective h.2.1, Lambda.printed_injective h.2.2.1,
      Lambda.printed_injective h.2.2.2.1, Lambda.printed_injective h.2.2.2.2.1, optional h.2.2.2.2.2]
  case insertInto.insertInto => rw [Query.printed_injective h.1, h.2]
  case upsert.upsert => rw [h.1, source h.2.1, Lambda.printed_injective h.2.2.1, optional h.2.2.2]
  case merge.merge =>
    rw [h.1, Query.printed_injective h.2.1, Lambda.printed_injective h.2.2.1, Lambda.printed_injective h.2.2.2.1,
      optional h.2.2.2.2.1, optional h.2.2.2.2.2.1, h.2.2.2.2.2.2]

/-- The text of a mutation in full identifies it, whichever characters are written by number. -/
theorem Mutation.eq_of_text {byNumber : Char → Bool} {m m' : Mutation}
    (h : m.printed.text byNumber = m'.printed.text byNumber) : m = m' :=
  Mutation.printed_injective (Printed.eq_of_text m.printed_wellFormed m'.printed_wellFormed h)

example : (Expr.member (.constant (.text "a\"b")) "X").printed.text (fun _ => false) =
    "Member \x7b expr: Constant(Text(\"a\\\"b\")), name: \"X\" \x7d" := by decide

end Client

end Setwise
