import Setwise.Proofs.Placeholders
import Setwise.Proofs.PlanKeys
import Setwise.Proofs.QuotedText

/-!
The placeholders of a command are read from its text.

`Dialect.placeholdersIn` skips quoted identifiers and text constants, and takes the longest name behind every mark of a
placeholder. What it finds in the text of a phrase are the placeholders of the phrase (`Phrase.legible`), and in the
text of fragments those of the fragments, as long as every name is followed by something that keeps apart from it.
-/

set_option autoImplicit false

namespace Setwise

def Text.behind (closing : Char) (text : List Char) : List Char :=
  match readDelimited? closing text with
  | some (_, left) => left
  | none => []

theorem Text.length_behind (closing : Char) (text : List Char) : (behind closing text).length ≤ text.length := by
  unfold behind
  split
  next found => exact (suffix_of_readDelimited? found).length_le.trans (by simp)
  next => exact Nat.zero_le _

theorem Text.behind_quoted {closing : Char} (s : List Char) {rest : List Char} (apart : rest.head? ≠ some closing) :
    behind closing (double closing s ++ closing :: rest) = rest := by
  rw [behind, readDelimited?_quoted s apart]

theorem Text.double_of_not_mem {mark : Char} {s : List Char} (none : mark ∉ s) : double mark s = s := by
  induction s with
  | nil => rfl
  | cons c s ih =>
    rw [double, if_neg (List.ne_of_not_mem_cons none).symm, ih (List.not_mem_of_not_mem_cons none)]

namespace Sql

/-! ## Reading placeholders -/

/-- The character can stand in the name of a placeholder: a letter, a digit, an underscore, or anything beyond ASCII. -/
def isNameChar (c : Char) : Bool :=
  c.isAlphanum || c == '_' || 128 ≤ c.toNat

def isPlaceholderName (s : String) : Bool :=
  s.toList.all isNameChar

/-- The names of the placeholders in a text, from left to right, outside of quoted identifiers and text constants. -/
def Dialect.placeholdersIn (d : Dialect) (text : List Char) : List String :=
  match text with
  | [] => []
  | c :: rest =>
    if c = '@' then String.ofList (rest.takeWhile isNameChar) :: d.placeholdersIn (rest.dropWhile isNameChar)
    else if c = d.opening then d.placeholdersIn (Text.behind d.closing rest)
    else if c = '\'' then d.placeholdersIn (Text.behind '\'' rest)
    else d.placeholdersIn rest
termination_by text.length
decreasing_by
  · exact Nat.lt_succ_of_le (List.dropWhile_suffix _).length_le
  · exact Nat.lt_succ_of_le (Text.length_behind _ _)
  · exact Nat.lt_succ_of_le (Text.length_behind _ _)
  · exact Nat.lt_succ_self _

def isPlain (c : Char) : Bool :=
  !(['@', '\'', '"', '[', ']'].contains c)

def separates (c : Char) : Bool :=
  isPlain c && !isNameChar c

def Apart (text : List Char) : Prop :=
  ∀ c ∈ text.head?, separates c = true

def plainWord (s : String) : Bool :=
  s.toList.all isPlain

def separator (s : String) : Bool :=
  plainWord s && s.toList.head?.any separates

variable {d : Dialect} {rest : List Char}

theorem apart_nil : Apart [] := by
  simp [Apart]

theorem placeholdersIn_nil (d : Dialect) : d.placeholdersIn [] = [] := by
  unfold Dialect.placeholdersIn
  rfl

theorem placeholdersIn_plain {c : Char} (plain : isPlain c = true) (rest : List Char) :
    d.placeholdersIn (c :: rest) = d.placeholdersIn rest := by
  have others : c ≠ '@' ∧ c ≠ '\'' ∧ c ≠ '"' ∧ c ≠ '[' ∧ c ≠ ']' := by simpa [isPlain] using plain
  have opening : c ≠ d.opening := by cases d <;> simp [Dialect.opening, others]
  rw [Dialect.placeholdersIn, if_neg others.1, if_neg opening, if_neg others.2.1]

theorem placeholdersIn_append {text : List Char} (plain : text.all isPlain = true) (rest : List Char) :
    d.placeholdersIn (text ++ rest) = d.placeholdersIn rest := by
  induction text with
  | nil => rfl
  | cons c text ih =>
    obtain ⟨first, others⟩ := Bool.and_eq_true_iff.1 plain
    rw [List.cons_append, placeholdersIn_plain first, ih others]

theorem placeholdersIn_mark {name : String} (named : isPlaceholderName name = true) (apart : Apart rest) :
    d.placeholdersIn ('@' :: name.toList ++ rest) = name :: d.placeholdersIn rest := by
  have letters := List.all_eq_true.1 named
  have ends : rest.takeWhile isNameChar = [] ∧ rest.dropWhile isNameChar = rest := by
    cases rest with
    | nil => exact ⟨rfl, rfl⟩
    | cons c rest =>
      have other : isNameChar c = false := by simpa [separates] using (Bool.and_eq_true_iff.1 (apart c rfl)).2
      simp [other]
  rw [List.cons_append, Dialect.placeholdersIn, if_pos rfl, List.takeWhile_append_of_pos letters,
    List.dropWhile_append_of_pos letters, ends.1, ends.2, List.append_nil, String.ofList_toList]

theorem Apart.closing (apart : Apart rest) : rest.head? ≠ some d.closing ∧ rest.head? ≠ some '\'' := by
  have other {c : Char} (special : separates c = false) : rest.head? ≠ some c := fun same => by
    rw [apart c same] at special
    cases special
  refine ⟨?_, other (by decide)⟩
  cases d <;> exact other (by decide)

theorem placeholdersIn_quote (d : Dialect) (s : String) (apart : Apart rest) :
    d.placeholdersIn ((d.quote s).toList ++ rest) = d.placeholdersIn rest := by
  have mark : d.opening ≠ '@' := by cases d <;> decide
  rw [Dialect.toList_quote, Text.quote, List.nil_append, String.toList_ofList, List.append_assoc, List.cons_append,
    List.singleton_append]
  rw [Dialect.placeholdersIn, if_neg mark, if_pos rfl]
  exact congrArg d.placeholdersIn (Text.behind_quoted _ apart.closing.1)

theorem placeholdersIn_text (d : Dialect) (s : String) (apart : Apart rest) :
    d.placeholdersIn ((Text.quote '\'' '\'' s).toList ++ rest) = d.placeholdersIn rest := by
  have opening : '\'' ≠ d.opening := by cases d <;> decide
  rw [Text.quote, String.toList_ofList, List.append_assoc, List.cons_append, List.singleton_append]
  rw [Dialect.placeholdersIn, if_neg (by decide), if_neg opening, if_pos rfl]
  exact congrArg d.placeholdersIn (Text.behind_quoted _ (Apart.closing (d := d) apart).2)

/-! ## Legible text -/

def Legible (d : Dialect) (text : String) (names : List String) : Prop :=
  ∀ rest, Apart rest → d.placeholdersIn (text.toList ++ rest) = names ++ d.placeholdersIn rest

def Finished (d : Dialect) (text : String) (names : List String) : Prop :=
  ∀ rest, d.placeholdersIn (text.toList ++ rest) = names ++ d.placeholdersIn rest

section

variable {s t w : String} {names names' : List String}

theorem Finished.legible (finished : Finished d s names) : Legible d s names :=
  fun rest _ => finished rest

theorem finished_empty (d : Dialect) : Finished d "" [] :=
  fun _ => rfl

theorem finished_plain (plain : plainWord w = true) : Finished d w [] :=
  placeholdersIn_append plain

theorem Finished.append (finished : Finished d s names) (finished' : Finished d t names') :
    Finished d (s ++ t) (names ++ names') := fun rest => by
  rw [String.toList_append, List.append_assoc, finished, finished', List.append_assoc]

theorem Finished.append_legible (finished : Finished d s names) (legible : Legible d t names') :
    Legible d (s ++ t) (names ++ names') := fun rest apart => by
  rw [String.toList_append, List.append_assoc, finished, legible rest apart, List.append_assoc]

theorem Finished.word (finished : Finished d s names) (plain : plainWord w = true) : Finished d (s ++ w) names := by
  simpa using finished.append (finished_plain plain)

theorem Legible.behind (legible : Legible d t names) (plain : plainWord w = true) : Legible d (w ++ t) names := by
  simpa using (finished_plain plain).append_legible legible

theorem Legible.separated (legible : Legible d s names) (apart : separator w = true) :
    Finished d (s ++ w) names := fun rest => by
  obtain ⟨plain, head⟩ := Bool.and_eq_true_iff.1 apart
  have ends : Apart (w.toList ++ rest) := by
    cases begins : w.toList with
    | nil =>
      rw [begins] at head
      cases head
    | cons c word =>
      rw [begins] at head
      rintro _ ⟨⟩
      exact head
  rw [String.toList_append, List.append_assoc, legible _ ends, placeholdersIn_append plain]

theorem legible_quote (d : Dialect) (s : String) : Legible d (d.quote s) [] :=
  fun _ apart => placeholdersIn_quote d s apart

theorem legible_placeholder (d : Dialect) {name : String} (named : isPlaceholderName name = true) :
    Legible d ("@" ++ name) [name] := fun _ apart => by
  rw [String.toList_append]
  exact placeholdersIn_mark named apart

theorem plainWord_of_isWord (word : Text.Printed.isWord w = true) : plainWord w = true := by
  have plain {c : Char} (letter : Text.nameChar c = true) : isPlain c = true := by
    have others : c ≠ '@' ∧ c ≠ '\'' ∧ c ≠ '"' ∧ c ≠ '[' ∧ c ≠ ']' := by
      refine ⟨?_, ?_, ?_, ?_, ?_⟩ <;> rintro rfl <;> cases letter
    simpa [isPlain] using others
  have letters := List.all_eq_true.1 (Bool.and_eq_true_iff.1 word).1
  exact List.all_eq_true.2 fun c member => plain (letters c member)

end

/-! ## Constants and phrases -/

theorem plainWord_operator (op : Operator) : plainWord (Dialect.operator op) = true := by
  cases op <;> rfl

theorem isPlain_hexDigits (b : UInt8) : (Dialect.hexDigits b).all isPlain = true := by
  have digit : ∀ n < 16, isPlain (Nat.digitChar n).toUpper = true := by decide
  have low : b.toNat / 16 < 16 := Nat.div_lt_of_lt_mul b.toNat_lt
  simp [Dialect.hexDigits, digit _ low, digit _ (Nat.mod_lt _ (by decide))]

theorem plainWord_hex (bytes : List UInt8) : plainWord (Dialect.hex bytes) = true := by
  simp only [plainWord, Dialect.hex, String.toList_ofList, List.all_flatMap, isPlain_hexDigits]
  simp

theorem quote_not_mem_hex (bytes : List UInt8) : '\'' ∉ (Dialect.hex bytes).toList := fun member => by
  have plain := List.all_eq_true.1 (plainWord_hex bytes) _ member
  cases plain

theorem legible_literal (d : Dialect) (v : Value) : Legible d (d.literal v) [] := by
  cases v with
  | int i => exact (finished_plain (plainWord_of_isWord (isWord_int i))).legible
  | real x => exact (finished_plain (plainWord_of_isWord (isWord_real x))).legible
  | null => cases d <;> exact (finished_plain rfl).legible
  | bool b => cases d <;> cases b <;> exact (finished_plain rfl).legible
  | text s =>
    have quoted : Legible d (Text.quote '\'' '\'' s) [] := fun _ apart => placeholdersIn_text d s apart
    cases d with
    | sqlite => exact quoted
    | sqlServer => exact quoted.behind rfl
  | blob bytes =>
    cases d with
    | sqlite =>
      have quoted : Legible .sqlite (Text.quote '\'' '\'' (Dialect.hex bytes)) [] := fun _ apart =>
        placeholdersIn_text _ _ apart
      have same : Dialect.literal .sqlite (.blob bytes) = "X" ++ Text.quote '\'' '\'' (Dialect.hex bytes) := by
        rw [← String.toList_inj]
        simp [Dialect.literal, Text.quote, Text.double_of_not_mem (quote_not_mem_hex bytes)]
      rw [same]
      exact quoted.behind rfl
    | sqlServer => exact ((finished_plain rfl).word (plainWord_hex bytes)).legible

/-- The placeholders in the text of a phrase are those of the phrase. -/
theorem Phrase.legible (d : Dialect) (p : Phrase) (named : ∀ n ∈ p.placeholders, isPlaceholderName n = true) :
    Legible d (p.text d) p.placeholders := by
  induction p with
  | column source name => exact ((legible_quote d source).separated rfl).append_legible (legible_quote d name)
  | literal v => exact legible_literal d v
  | placeholder name => exact legible_placeholder d (named name List.mem_cons_self)
  | excluded column =>
    cases d with
    | sqlite => exact (legible_quote _ _).behind rfl
    | sqlServer => exact ((legible_quote _ _).separated rfl).append_legible (legible_quote _ _)
  | binary l op r ihl ihr =>
    obtain ⟨left, right⟩ := List.forall_mem_append.1 named
    exact ((((ihl left).separated rfl).word (plainWord_operator op)).word rfl).append_legible (ihr right)
  | coalesce l r ihl ihr =>
    obtain ⟨left, right⟩ := List.forall_mem_append.1 named
    exact (((((ihl left).behind rfl).separated rfl).append_legible (ihr right)).separated rfl).legible
  | paren p ih | not p ih => exact (((ih named).behind rfl).separated rfl).legible
  | isNull p ih | isNotNull p ih => exact ((ih named).separated rfl).legible
  | case test a b iht iha ihb =>
    obtain ⟨named, third⟩ := List.forall_mem_append.1 named
    obtain ⟨first, second⟩ := List.forall_mem_append.1 named
    have tested := ((iht first).behind (w := "CASE WHEN ") rfl).separated (w := " THEN ") rfl
    have decided := (tested.append_legible (iha second)).separated (w := " ELSE ") rfl
    exact ((decided.append_legible (ihb third)).separated rfl).legible

/-! ## Fragments -/

namespace Fragment

/-- The placeholders in the text of the fragment are those of the fragment, whatever comes behind and keeps apart. -/
def Legible (d : Dialect) (f : Fragment) : Prop :=
  Sql.Legible d (f.text d) f.placeholders

def Finished (d : Dialect) (f : Fragment) : Prop :=
  Sql.Finished d (f.text d) f.placeholders

section

variable {f g : Fragment} {fs : List Fragment} {w : String}

@[simp] theorem text_append (d : Dialect) (f g : Fragment) : (f ++ g).text d = f.text d ++ g.text d := by
  simp [text, String.join_append]

theorem placeholders_append (f g : Fragment) : (f ++ g).placeholders = f.placeholders ++ g.placeholders :=
  List.flatMap_append

theorem Finished.legible (finished : f.Finished d) : f.Legible d :=
  Sql.Finished.legible finished

theorem finished_nil : Finished d [] :=
  finished_empty d

@[simp] theorem text_word (d : Dialect) (w : String) : (word w).text d = w := by
  simp [text, word, Piece.text, String.join]

theorem finished_word (plain : plainWord w = true) : (word w).Finished d := by
  unfold Finished
  rw [text_word]
  exact finished_plain plain

theorem Finished.append (finished : f.Finished d) (finished' : g.Finished d) : (f ++ g).Finished d := by
  unfold Finished
  rw [text_append, placeholders_append]
  exact Sql.Finished.append finished finished'

theorem Finished.append_legible (finished : f.Finished d) (legible : g.Legible d) : (f ++ g).Legible d := by
  unfold Legible
  rw [text_append, placeholders_append]
  exact Sql.Finished.append_legible finished legible

theorem Legible.behind (legible : f.Legible d) (plain : plainWord w = true) : (word w ++ f).Legible d :=
  (finished_word plain).append_legible legible

theorem Legible.separated (legible : f.Legible d) (apart : separator w = true) : (f ++ word w).Finished d := by
  unfold Finished
  rw [text_append, placeholders_append, text_word]
  simpa [placeholders, word, Piece.placeholders] using Sql.Legible.separated legible apart

theorem legible_identifier (d : Dialect) (name : String) : (identifier name).Legible d := by
  simpa [Legible, text, identifier, Piece.text, placeholders, Piece.placeholders, String.join]
    using legible_quote d name

theorem legible_value {p : Phrase} (named : ∀ n ∈ p.placeholders, isPlaceholderName n = true) :
    Fragment.Legible d [.value p] := by
  simpa [Legible, text, Piece.text, placeholders, Piece.placeholders, String.join] using p.legible d named

theorem legible_condition {p : Phrase} (named : ∀ n ∈ p.placeholders, isPlaceholderName n = true) :
    Fragment.Legible d [.condition p] := by
  simpa [Legible, text, Piece.text, placeholders, Piece.placeholders, String.join] using p.legible d named

theorem legible_separated (apart : separator w = true) (legible : ∀ f ∈ fs, f.Legible d) :
    (separated w fs).Legible d := by
  induction fs with
  | nil => exact finished_nil.legible
  | cons f rest ih =>
    obtain ⟨first, others⟩ := List.forall_mem_cons.1 legible
    cases rest with
    | nil => exact first
    | cons g rest =>
      have joined := (first.separated apart).append_legible (ih others)
      rwa [List.append_assoc] at joined

theorem legible_list (legible : ∀ f ∈ fs, f.Legible d) : (list fs).Legible d :=
  legible_separated rfl legible

theorem legible_lines (legible : ∀ f ∈ fs, f.Legible d) : (lines fs).Legible d :=
  legible_separated rfl legible

theorem Legible.paren (legible : f.Legible d) : (paren f).Finished d :=
  (legible.behind rfl).separated rfl

theorem legible_table (d : Dialect) (t : Relational.StoredTable) : (table t).Legible d := by
  unfold table
  split
  next schema _ => exact ((legible_identifier d schema).separated rfl).append_legible (legible_identifier d t.name)
  next => exact legible_identifier d t.name

theorem Legible.labelled (legible : f.Legible d) (label : String) : (labelled f label).Legible d :=
  (legible.separated rfl).append_legible (legible_identifier d label)

end

end Fragment

end Sql

end Setwise
