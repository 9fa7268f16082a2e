import Mathlib.Logic.Basic
import Setwise.Text.Printed

/-!
Different data have different printed forms.

A text of printed forms can be read in one way only (`Printed.chars_unique`): a name ends where its brackets open, a text
in quotation marks at the first mark that is not escaped, and parts where their brackets close. The lemmas are about the
characters of a form with anything behind them, since the parts of a form are followed by further parts.
-/

set_option autoImplicit false

namespace Setwise.Text

/-! ## Texts in quotation marks -/

theorem eq_of_escapeLetter? {c d letter : Char} (h : escapeLetter? c = some letter) (h' : escapeLetter? d = some letter) :
    c = d := by
  unfold escapeLetter? at h h'
  split at h <;> cases h <;> split at h' <;> first | rfl | exact absurd h' (by decide)

theorem escapeLetter?_ne_u {c : Char} : escapeLetter? c ≠ some 'u' := by
  unfold escapeLetter?
  split <;> decide

def digitValue (c : Char) : Nat :=
  if c.isDigit then c.toNat - '0'.toNat else c.toNat - 'a'.toNat + 10

theorem digitValue_digitChar : ∀ n < 16, digitValue n.digitChar = n := by
  decide

theorem digitChar_ne_brace : ∀ n < 16, n.digitChar ≠ '\x7d' := by
  decide

theorem value_toDigits (n : Nat) : (Nat.toDigits 16 n).foldl (fun v c => 16 * v + digitValue c) 0 = n := by
  induction n using Nat.strongRecOn with
  | _ n ih =>
    rw [Nat.toDigits_eq_if (by omega)]
    split
    next small => simp [digitValue_digitChar n small]
    next large =>
      rw [List.foldl_append, ih (n / 16) (by omega)]
      simp only [List.foldl_cons, List.foldl_nil, digitValue_digitChar (n % 16) (by omega)]
      omega

theorem brace_notMem_toDigits (n : Nat) : '\x7d' ∉ Nat.toDigits 16 n := by
  induction n using Nat.strongRecOn with
  | _ n ih =>
    rw [Nat.toDigits_eq_if (by omega)]
    split
    next small => simp [(digitChar_ne_brace n small).symm]
    next large => simp [ih (n / 16) (by omega), (digitChar_ne_brace (n % 16) (by omega)).symm]

theorem eq_of_toNat {c d : Char} (h : c.toNat = d.toNat) : c = d :=
  Char.ext (UInt32.toNat_inj.mp h)

theorem append_unique {α : Type} {stop : α} {l l' r r' : List α} (h : stop ∉ l) (h' : stop ∉ l')
    (same : l ++ stop :: r = l' ++ stop :: r') : l = l' ∧ r = r' := by
  induction l generalizing l' with
  | nil =>
    cases l' with
    | nil => exact ⟨rfl, (List.cons.inj same).2⟩
    | cons a rest => exact absurd (List.cons.inj same).1 (fun e => h' (e ▸ List.mem_cons_self))
  | cons a l ih =>
    cases l' with
    | nil => exact absurd (List.cons.inj same).1 (fun e => h (e ▸ List.mem_cons_self))
    | cons b rest =>
      obtain ⟨rfl, behind⟩ := List.cons.inj same
      obtain ⟨rfl, rfl⟩ := ih (fun m => h (List.mem_cons_of_mem _ m)) (fun m => h' (List.mem_cons_of_mem _ m)) behind
      exact ⟨rfl, rfl⟩

section

variable {byNumber : Char → Bool}

variable (byNumber) in
/-- What stands for a character begins with a backslash, or it is the character, which is neither a backslash nor a
quotation mark. -/
theorem escape_cases (c : Char) :
    (∃ letter, escapeLetter? c = some letter ∧ escape byNumber c = ['\\', letter]) ∨
    escapeLetter? c = none ∧ escape byNumber c = '\\' :: 'u' :: '\x7b' :: (Nat.toDigits 16 c.toNat ++ ['\x7d']) ∨
    escape byNumber c = [c] ∧ c ≠ '\\' ∧ c ≠ '"' := by
  unfold escape
  cases h : escapeLetter? c with
  | some letter => exact .inl ⟨letter, rfl, rfl⟩
  | none =>
    by_cases number : byNumber c = true
    · exact .inr (.inl ⟨rfl, if_pos number⟩)
    · refine .inr (.inr ⟨if_neg number, ?_, ?_⟩) <;> rintro rfl <;> cases h

theorem escape_unique {c d : Char} {r s : List Char} (h : escape byNumber c ++ r = escape byNumber d ++ s) :
    c = d ∧ r = s := by
  obtain ⟨letter, is, e⟩ | ⟨-, e⟩ | ⟨e, notBackslash, -⟩ := escape_cases byNumber c <;>
    obtain ⟨letter', is', e'⟩ | ⟨-, e'⟩ | ⟨e', notBackslash', -⟩ := escape_cases byNumber d <;>
    rw [e, e'] at h
  · obtain ⟨rfl, rfl⟩ : letter = letter' ∧ r = s := by simpa using h
    exact ⟨eq_of_escapeLetter? is is', rfl⟩
  · obtain ⟨rfl, -⟩ : letter = 'u' ∧ r = _ := by simpa using h
    exact absurd is escapeLetter?_ne_u
  · exact absurd (List.cons.inj h).1.symm notBackslash'
  · obtain ⟨rfl, -⟩ : 'u' = letter' ∧ _ = s := by simpa using h
    exact absurd is' escapeLetter?_ne_u
  · have digits : Nat.toDigits 16 c.toNat ++ '\x7d' :: r = Nat.toDigits 16 d.toNat ++ '\x7d' :: s := by simpa using h
    obtain ⟨same, rfl⟩ := append_unique (brace_notMem_toDigits _) (brace_notMem_toDigits _) digits
    refine ⟨eq_of_toNat ?_, rfl⟩
    rw [← value_toDigits c.toNat, same, value_toDigits]
  · exact absurd (List.cons.inj h).1.symm notBackslash'
  · exact absurd (List.cons.inj h).1 notBackslash
  · exact absurd (List.cons.inj h).1 notBackslash
  · simpa using h

theorem escape_ne_mark (c : Char) (r s : List Char) : escape byNumber c ++ r ≠ '"' :: s := by
  intro h
  obtain ⟨letter, -, e⟩ | ⟨-, e⟩ | ⟨e, -, notMark⟩ := escape_cases byNumber c <;> rw [e] at h
  · exact absurd (List.cons.inj h).1 (by decide)
  · exact absurd (List.cons.inj h).1 (by decide)
  · exact notMark (List.cons.inj h).1

theorem escaped_unique {text text' r s : List Char} (h : escaped byNumber text ++ r = escaped byNumber text' ++ s) :
    text = text' ∧ r = s := by
  induction text generalizing text' with
  | nil =>
    cases text' with
    | nil => exact ⟨rfl, (List.cons.inj h).2⟩
    | cons d rest =>
      rw [escaped, escaped, List.append_assoc] at h
      exact absurd h.symm (escape_ne_mark d _ _)
  | cons c text ih =>
    cases text' with
    | nil =>
      rw [escaped, escaped, List.append_assoc] at h
      exact absurd h (escape_ne_mark c _ _)
    | cons d rest =>
      rw [escaped, escaped, List.append_assoc, List.append_assoc] at h
      obtain ⟨rfl, behind⟩ := escape_unique h
      obtain ⟨rfl, rfl⟩ := ih behind
      exact ⟨rfl, rfl⟩

end

/-! ## Names -/

def nameChar (c : Char) : Bool :=
  c.isAlphanum || c == '_' || c == '.' || c == '-'

def isName (s : String) : Bool :=
  s.toList.all nameChar

def Stops (r : List Char) : Prop :=
  ∀ c t, r = c :: t → nameChar c = false

theorem stops_nil : Stops [] := by
  rintro c t ⟨⟩

theorem stops_cons {c : Char} (t : List Char) (h : nameChar c = false) : Stops (c :: t) := by
  rintro _ _ ⟨⟩
  exact h

theorem takeWhile_name {name r : List Char} (h : name.all nameChar = true) (stops : Stops r) :
    (name ++ r).takeWhile nameChar = name := by
  rw [List.takeWhile_append_of_pos (List.all_eq_true.mp h)]
  cases r with
  | nil => simp
  | cons c t => simp [stops c t rfl]

theorem name_unique {name name' : String} {r s : List Char} (h : isName name = true) (h' : isName name' = true)
    (stops : Stops r) (stops' : Stops s) (same : name.toList ++ r = name'.toList ++ s) : name = name' ∧ r = s := by
  have names : name.toList = name'.toList := by
    rw [← takeWhile_name h stops, same, takeWhile_name h' stops']
  refine ⟨String.toList_inj.mp names, ?_⟩
  rw [names] at same
  exact List.append_cancel_left same

/-! ## Forms -/

namespace Printed

/-- The names and labels are names, and the brackets tell how a form begins and ends. -/
inductive WellFormed : Printed → Prop where
  | quoted (s : String) : WellFormed (quoted s)
  | node {name : String} {brackets : Brackets} {parts : List Printed} (isName : isName name = true)
      (bare : brackets = .none → parts = []) (anonymous : name = "" → brackets = .round ∨ brackets = .square)
      (inside : ∀ p ∈ parts, WellFormed p) : WellFormed (node name brackets parts)
  | field {label : String} {value : Printed} (isName : isName label = true) (named : label ≠ "")
      (inside : WellFormed value) : WellFormed (field label value)

inductive Closes : List Char → Prop where
  | round (t : List Char) : Closes (')' :: t)
  | square (t : List Char) : Closes (']' :: t)
  | curly (t : List Char) : Closes (' ' :: '\x7d' :: t)

inductive Ends : List Char → Prop where
  | whole : Ends []
  | comma (t : List Char) : Ends (',' :: t)
  | closes {r : List Char} (h : Closes r) : Ends r

theorem Ends.stops {r : List Char} (h : Ends r) : Stops r := by
  cases h with
  | whole => exact stops_nil
  | comma t => exact stops_cons t rfl
  | closes h => cases h <;> exact stops_cons _ rfl

theorem closes_closing {brackets : Brackets} (some : brackets ≠ .none) (r : List Char) : Closes (brackets.closing ++ r) := by
  cases brackets with
  | none => exact absurd rfl some
  | round => exact .round r
  | square => exact .square r
  | curly => exact .curly r

section

variable {byNumber : Char → Bool}

theorem ends_behind (parts : List Printed) {r : List Char} (h : Closes r) : Ends (charsBehind byNumber parts ++ r) := by
  cases parts with
  | nil => exact .closes h
  | cons p rest => exact .comma _

theorem ends_ne_opening {b : Brackets} (some : b ≠ .none) {r : List Char} (h : Ends r) (inside : List Char) :
    r ≠ b.opening ++ inside := by
  rintro rfl
  -- brackets do not open with a comma, nor as other brackets close
  cases b with
  | none => exact some rfl
  | round => cases h with | closes h => cases h
  | square => cases h with | closes h => cases h
  | curly => cases h with | closes h => cases h

theorem opening_unique {b b' : Brackets} {inside inside' : List Char} (ends : b = .none → Ends inside)
    (ends' : b' = .none → Ends inside') (same : b.opening ++ inside = b'.opening ++ inside') :
    b = b' ∧ inside = inside' := by
  by_cases bare : b = .none
  · obtain rfl := bare
    by_cases bare' : b' = .none
    · exact ⟨bare'.symm, by simpa [bare', Brackets.opening] using same⟩
    · exact absurd same (ends_ne_opening bare' (ends rfl) inside')
  · by_cases bare' : b' = .none
    · obtain rfl := bare'
      exact absurd same.symm (ends_ne_opening bare (ends' rfl) inside)
    · cases b <;> cases b' <;> simp_all [Brackets.opening]

theorem stops_opening {b : Brackets} {inside : List Char} (ends : b = .none → Ends inside) :
    Stops (b.opening ++ inside) := by
  cases b with
  | none => exact (ends rfl).stops
  | round => exact stops_cons _ rfl
  | square => exact stops_cons _ rfl
  | curly => exact stops_cons _ rfl

/-! ## Reading a form back -/

def begins (c : Char) : Bool :=
  nameChar c || c == '(' || c == '['

variable (byNumber) in
theorem node_begins {name : String} {brackets : Brackets} {parts : List Printed}
    (h : WellFormed (node name brackets parts)) (r : List Char) :
    ∃ c t, chars byNumber (node name brackets parts) ++ r = c :: t ∧ begins c = true := by
  cases h with
  | node named bare anonymous inside =>
    rw [chars]
    cases letters : name.toList with
    | cons c rest =>
      have first : nameChar c = true := List.all_eq_true.mp named c (letters ▸ List.mem_cons_self)
      exact ⟨c, _, rfl, by simp [begins, first]⟩
    | nil =>
      rcases anonymous (String.toList_eq_nil_iff.mp letters) with rfl | rfl
      · exact ⟨'(', _, rfl, rfl⟩
      · exact ⟨'[', _, rfl, rfl⟩

variable (byNumber) in
theorem field_begins {label : String} {value : Printed} (h : WellFormed (field label value)) (r : List Char) :
    ∃ c t, chars byNumber (field label value) ++ r = c :: t ∧ begins c = true := by
  cases h with
  | field isLabel named inside =>
    rw [chars]
    cases letters : label.toList with
    | cons c rest =>
      have first : nameChar c = true := List.all_eq_true.mp isLabel c (letters ▸ List.mem_cons_self)
      exact ⟨c, _, rfl, by simp [begins, first]⟩
    | nil => exact absurd (String.toList_eq_nil_iff.mp letters) named

theorem not_closes_chars {p : Printed} (h : WellFormed p) (r : List Char) : ¬ Closes (chars byNumber p ++ r) := by
  intro closes
  cases h with
  | quoted s => cases closes
  | node named bare anonymous inside =>
    obtain ⟨c, t, text, first⟩ := node_begins byNumber (.node named bare anonymous inside) r
    rw [text] at closes
    cases closes <;> cases first
  | field isLabel named inside =>
    obtain ⟨c, t, text, first⟩ := field_begins byNumber (.field isLabel named inside) r
    rw [text] at closes
    cases closes <;> cases first

theorem quoted_ne {p : Printed} (h : WellFormed p) (notQuoted : ∀ s, p ≠ quoted s) (r t : List Char) :
    '"' :: t ≠ chars byNumber p ++ r := by
  intro same
  cases h with
  | quoted s => exact notQuoted s rfl
  | node named bare anonymous inside =>
    obtain ⟨c, t, text, first⟩ := node_begins byNumber (.node named bare anonymous inside) r
    obtain ⟨rfl, -⟩ := List.cons.inj (same.trans text)
    cases first
  | field isLabel named inside =>
    obtain ⟨c, t, text, first⟩ := field_begins byNumber (.field isLabel named inside) r
    obtain ⟨rfl, -⟩ := List.cons.inj (same.trans text)
    cases first

theorem toList_node (name : String) (b : Brackets) (parts : List Printed) (r : List Char) :
    chars byNumber (node name b parts) ++ r =
      name.toList ++ (b.opening ++ (charsOfParts byNumber parts ++ (b.closing ++ r))) := by
  simp [chars]

theorem toList_field (label : String) (value : Printed) (r : List Char) :
    chars byNumber (field label value) ++ r = label.toList ++ ':' :: ' ' :: (chars byNumber value ++ r) := by
  simp [chars]

variable (byNumber) in
theorem ends_inside {b : Brackets} {parts : List Printed} (bare : b = .none → parts = []) {r : List Char} (h : Ends r) :
    b = .none → Ends (charsOfParts byNumber parts ++ (b.closing ++ r)) := by
  rintro rfl
  rw [bare rfl]
  exact h

theorem node_ne_field {name label : String} {b : Brackets} {parts : List Printed} {value : Printed} {r s : List Char}
    (wp : WellFormed (node name b parts)) (wq : WellFormed (field label value)) (ends : Ends r) :
    chars byNumber (node name b parts) ++ r ≠ chars byNumber (field label value) ++ s := by
  intro same
  cases wp with
  | node named bare anonymous inside =>
    cases wq with
    | field isLabel _ _ =>
      rw [toList_node, toList_field] at same
      have inner := ends_inside byNumber bare ends
      obtain ⟨-, behind⟩ := name_unique named isLabel (stops_opening inner) (stops_cons _ rfl) same
      cases b with
      | none =>
        have ended := inner rfl
        change charsOfParts byNumber parts ++ ([] ++ r) = _ at behind
        change Ends (charsOfParts byNumber parts ++ ([] ++ r)) at ended
        rw [behind] at ended
        cases ended with | closes h => cases h
      | round => cases behind
      | square => cases behind
      | curly => cases behind

mutual

/-- The characters of a form tell where it ends. -/
theorem chars_unique : ∀ {p q : Printed} {r s : List Char}, WellFormed p → WellFormed q → Ends r → Ends s →
    chars byNumber p ++ r = chars byNumber q ++ s → p = q ∧ r = s
  | quoted text, quoted text', r, s, _, _, _, _, same => by
    obtain ⟨texts, rfl⟩ := escaped_unique (List.cons.inj same).2
    exact ⟨congrArg quoted (String.toList_inj.mp texts), rfl⟩
  | quoted text, node .., r, s, _, wq, _, _, same => absurd same (quoted_ne wq (fun _ => nofun) s _)
  | quoted text, field .., r, s, _, wq, _, _, same => absurd same (quoted_ne wq (fun _ => nofun) s _)
  | node .., quoted text, r, s, wp, _, _, _, same => absurd same.symm (quoted_ne wp (fun _ => nofun) r _)
  | field .., quoted text, r, s, wp, _, _, _, same => absurd same.symm (quoted_ne wp (fun _ => nofun) r _)
  | node .., field .., r, s, wp, wq, er, _, same => absurd same (node_ne_field wp wq er)
  | field .., node .., r, s, wp, wq, _, es, same => absurd same.symm (node_ne_field wq wp es)
  | node name b parts, node name' b' parts', r, s, .node named bare _ inside, .node named' bare' _ inside', er, es, same => by
    rw [toList_node, toList_node] at same
    have inner := ends_inside byNumber bare er
    have inner' := ends_inside byNumber bare' es
    obtain ⟨rfl, behind⟩ := name_unique named named' (stops_opening inner) (stops_opening inner') same
    obtain ⟨rfl, behind⟩ := opening_unique inner inner' behind
    -- without brackets there are no parts, and the form ends with its name
    by_cases none : b = .none
    · obtain rfl := bare none
      obtain rfl := bare' none
      exact ⟨rfl, List.append_cancel_left behind⟩
    · obtain ⟨rfl, closing⟩ :=
        charsOfParts_unique inside inside' (closes_closing none r) (closes_closing none s) behind
      exact ⟨rfl, List.append_cancel_left closing⟩
  | field label value, field label' value', r, s, .field isLabel _ inside, .field isLabel' _ inside', er, es, same => by
    rw [toList_field, toList_field] at same
    obtain ⟨rfl, behind⟩ := name_unique isLabel isLabel' (stops_cons _ rfl) (stops_cons _ rfl) same
    obtain ⟨rfl, rfl⟩ := chars_unique inside inside' er es (by simpa using behind)
    exact ⟨rfl, rfl⟩

theorem charsOfParts_unique : ∀ {ps qs : List Printed} {r s : List Char}, (∀ p ∈ ps, WellFormed p) →
    (∀ q ∈ qs, WellFormed q) → Closes r → Closes s →
    charsOfParts byNumber ps ++ r = charsOfParts byNumber qs ++ s → ps = qs ∧ r = s
  | [], [], r, s, _, _, _, _, same => ⟨rfl, same⟩
  | [], q :: qs, r, s, _, wq, cr, _, same => by
    rw [charsOfParts, charsOfParts, List.append_assoc, List.nil_append] at same
    exact absurd (same ▸ cr) (not_closes_chars (wq q List.mem_cons_self) _)
  | p :: ps, [], r, s, wp, _, _, cs, same => by
    rw [charsOfParts, charsOfParts, List.append_assoc, List.nil_append] at same
    exact absurd (same ▸ cs) (not_closes_chars (wp p List.mem_cons_self) _)
  | p :: ps, q :: qs, r, s, wp, wq, cr, cs, same => by
    rw [charsOfParts, charsOfParts, List.append_assoc, List.append_assoc] at same
    obtain ⟨rfl, behind⟩ :=
      chars_unique (wp p List.mem_cons_self) (wq q List.mem_cons_self) (ends_behind ps cr) (ends_behind qs cs) same
    obtain ⟨rfl, rfl⟩ := charsBehind_unique (List.forall_mem_cons.mp wp).2 (List.forall_mem_cons.mp wq).2 cr cs behind
    exact ⟨rfl, rfl⟩

theorem charsBehind_unique : ∀ {ps qs : List Printed} {r s : List Char}, (∀ p ∈ ps, WellFormed p) →
    (∀ q ∈ qs, WellFormed q) → Closes r → Closes s →
    charsBehind byNumber ps ++ r = charsBehind byNumber qs ++ s → ps = qs ∧ r = s
  | [], [], r, s, _, _, _, _, same => ⟨rfl, same⟩
  | [], q :: qs, r, s, _, _, cr, _, same => by
    rw [charsBehind, charsBehind, List.nil_append] at same
    rw [same] at cr
    cases cr
  | p :: ps, [], r, s, _, _, _, cs, same => by
    rw [charsBehind, charsBehind, List.nil_append] at same
    rw [← same] at cs
    cases cs
  | p :: ps, q :: qs, r, s, wp, wq, cr, cs, same => by
    have further : chars byNumber p ++ (charsBehind byNumber ps ++ r) =
        chars byNumber q ++ (charsBehind byNumber qs ++ s) := by
      simpa [charsBehind] using same
    obtain ⟨rfl, behind⟩ :=
      chars_unique (wp p List.mem_cons_self) (wq q List.mem_cons_self) (ends_behind ps cr) (ends_behind qs cs) further
    obtain ⟨rfl, rfl⟩ := charsBehind_unique (List.forall_mem_cons.mp wp).2 (List.forall_mem_cons.mp wq).2 cr cs behind
    exact ⟨rfl, rfl⟩

end

/-- Different forms have different texts. -/
theorem eq_of_text {p q : Printed} (wp : WellFormed p) (wq : WellFormed q) (same : p.text byNumber = q.text byNumber) :
    p = q := by
  have letters : chars byNumber p ++ [] = chars byNumber q ++ [] := by
    simpa [text] using congrArg String.toList same
  exact (chars_unique wp wq .whole .whole letters).1

end

end Printed

end Setwise.Text
