import Mathlib.Logic.Function.Basic
import Setwise.Sql.Dialect
import Setwise.Text.Quoted

/-!
Quoted text is read back.

`Text.readDelimited?` reads text up to its closing delimiter, looking one character ahead: two closing delimiters stand
for the character, and one alone ends the text. So a quoted identifier and a text constant are read as what they were
made from, and what follows them is left as it was (`quoted_text_read_back`).
-/

set_option autoImplicit false

namespace Setwise

namespace Text

/-- Read text behind its opening delimiter: what it stands for, and what is left behind its closing delimiter. -/
def readDelimited? (closing : Char) : List Char → Option (List Char × List Char)
  | [] => none
  | c :: rest =>
    if c = closing then
      match rest with
      | [] => some ([], [])
      | c' :: rest =>
        if c' = closing then (readDelimited? closing rest).map fun (s, left) => (closing :: s, left)
        else some ([], c' :: rest)
    else (readDelimited? closing rest).map fun (s, left) => (c :: s, left)

section

variable {closing : Char} {s t rest left : List Char}

theorem readDelimited?_end (apart : rest.head? ≠ some closing) :
    readDelimited? closing (closing :: rest) = some ([], rest) := by
  cases rest with
  | nil => simp [readDelimited?]
  | cons c rest =>
    have other : c ≠ closing := fun same => apart (congrArg some same)
    simp [readDelimited?, other]

theorem readDelimited?_twice (closing : Char) (rest : List Char) :
    readDelimited? closing (closing :: closing :: rest) =
      (readDelimited? closing rest).map fun (s, left) => (closing :: s, left) := by
  simp [readDelimited?]

theorem readDelimited?_other {c : Char} (other : c ≠ closing) (rest : List Char) :
    readDelimited? closing (c :: rest) = (readDelimited? closing rest).map fun (s, left) => (c :: s, left) := by
  cases rest <;> simp [readDelimited?, other]

theorem readDelimited?_double (s rest : List Char) :
    readDelimited? closing (double closing s ++ rest) =
      (readDelimited? closing rest).map fun (t, left) => (s ++ t, left) := by
  induction s with
  | nil => simp [double]
  | cons c s ih =>
    unfold double
    split
    next same =>
      subst same
      simp [readDelimited?_twice, ih, Function.comp_def]
    next other => simp [readDelimited?_other other, ih, Function.comp_def]

theorem suffix_of_readDelimited? {text : List Char} (h : readDelimited? closing text = some (s, left)) :
    left <:+ text.tail := by
  have later {c : Char} {rest : List Char} (inner : left <:+ rest.tail) : left <:+ (c :: rest).tail :=
    inner.trans (List.tail_suffix rest)
  fun_induction readDelimited? closing text generalizing s with
  | case1 => cases h
  | case2 | case4 =>
    obtain ⟨-, rfl⟩ := Prod.mk.inj (Option.some.inj h)
    exact List.suffix_refl _
  | case3 rest ih =>
    obtain ⟨⟨t, left'⟩, inner, same⟩ := Option.map_eq_some_iff.1 h
    obtain ⟨-, rfl⟩ := Prod.mk.inj same
    exact later (later (ih inner))
  | case5 c rest other ih =>
    obtain ⟨⟨t, left'⟩, inner, same⟩ := Option.map_eq_some_iff.1 h
    obtain ⟨-, rfl⟩ := Prod.mk.inj same
    exact later (ih inner)

theorem readDelimited?_quoted (s : List Char) (apart : rest.head? ≠ some closing) :
    readDelimited? closing (double closing s ++ closing :: rest) = some (s, rest) := by
  simp [readDelimited?_double, readDelimited?_end apart]

theorem suffix_of_quoted (h : readDelimited? closing (double closing s ++ closing :: rest) = some (t, left)) :
    left <:+ rest := by
  rw [readDelimited?_double] at h
  obtain ⟨⟨u, left'⟩, inner, same⟩ := Option.map_eq_some_iff.1 h
  obtain ⟨-, rfl⟩ := Prod.mk.inj same
  exact suffix_of_readDelimited? inner

end

end Text

namespace Sql.Dialect

def opening : Dialect → Char
  | sqlite => '"'
  | sqlServer => '['

def closing : Dialect → Char
  | sqlite => '"'
  | sqlServer => ']'

def textMark : Dialect → List Char
  | sqlite => []
  | sqlServer => ['N']

def readQuoted? (mark : List Char) (opening closing : Char) (text : List Char) : Option (String × List Char) :=
  if mark ++ [opening] <+: text then
    (Text.readDelimited? closing (text.drop (mark.length + 1))).map fun (s, left) => (String.ofList s, left)
  else none

/-- Read an identifier: its name, and what is left behind it. -/
def readIdentifier? (d : Dialect) (text : List Char) : Option (String × List Char) :=
  readQuoted? [] d.opening d.closing text

/-- Read a text constant: the text that it stands for, and what is left behind it. -/
def readText? (d : Dialect) (text : List Char) : Option (String × List Char) :=
  readQuoted? d.textMark '\'' '\'' text

section

variable {mark : List Char} {opening closing : Char} {s t : String} {rest left : List Char}

theorem readQuoted?_eq (mark : List Char) (opening closing : Char) (s : String) (rest : List Char) :
    readQuoted? mark opening closing (mark ++ (Text.quote opening closing s).toList ++ rest) =
      (Text.readDelimited? closing (Text.double closing s.toList ++ closing :: rest)).map
        fun (t, left) => (String.ofList t, left) := by
  have marked : mark ++ [opening] <+: mark ++ (Text.quote opening closing s).toList ++ rest := by
    simp [Text.quote]
  have behind : (mark ++ (Text.quote opening closing s).toList ++ rest).drop (mark.length + 1) =
      Text.double closing s.toList ++ closing :: rest := by
    simp [Text.quote, List.drop_append]
  rw [readQuoted?, if_pos marked, behind]

theorem readQuoted?_quoted (mark : List Char) (opening : Char) (s : String) (apart : rest.head? ≠ some closing) :
    readQuoted? mark opening closing (mark ++ (Text.quote opening closing s).toList ++ rest) = some (s, rest) := by
  rw [readQuoted?_eq, Text.readDelimited?_quoted _ apart]
  simp

theorem suffix_of_readQuoted?
    (h : readQuoted? mark opening closing (mark ++ (Text.quote opening closing s).toList ++ rest) = some (t, left)) :
    left <:+ rest := by
  rw [readQuoted?_eq] at h
  obtain ⟨⟨u, left'⟩, inner, same⟩ := Option.map_eq_some_iff.1 h
  obtain ⟨-, rfl⟩ := Prod.mk.inj same
  exact Text.suffix_of_quoted inner

end

theorem toList_quote (d : Dialect) (s : String) :
    (d.quote s).toList = [] ++ (Text.quote d.opening d.closing s).toList := by
  cases d <;> simp [quote, opening, closing]

theorem toList_literal_text (d : Dialect) (s : String) :
    (d.literal (.text s)).toList = d.textMark ++ (Text.quote '\'' '\'' s).toList := by
  cases d <;> simp [literal, textMark]

theorem injective_of_reads {write : String → String} {read? : List Char → Option (String × List Char)}
    (reads : ∀ s, read? (write s).toList = some (s, [])) : Function.Injective write := by
  intro s t same
  have both := reads s
  rw [same, reads t] at both
  exact (Prod.mk.inj (Option.some.inj both)).1.symm

/-- A quoted identifier and a text constant are read as what they were made from, and exactly to their end, unless their
closing delimiter follows once more. Whatever follows, they do not end early, and different texts have different
forms. -/
theorem quoted_text_read_back (d : Dialect) (s : String) (rest : List Char) :
    (rest.head? ≠ some d.closing → d.readIdentifier? ((d.quote s).toList ++ rest) = some (s, rest)) ∧
      (rest.head? ≠ some '\'' → d.readText? ((d.literal (.text s)).toList ++ rest) = some (s, rest)) ∧
      (∀ t left, d.readIdentifier? ((d.quote s).toList ++ rest) = some (t, left) → left <:+ rest) ∧
      (∀ t left, d.readText? ((d.literal (.text s)).toList ++ rest) = some (t, left) → left <:+ rest) ∧
      Function.Injective d.quote ∧ Function.Injective fun s => d.literal (.text s) := by
  have identifier {s : String} {rest : List Char} (apart : rest.head? ≠ some d.closing) :
      d.readIdentifier? ((d.quote s).toList ++ rest) = some (s, rest) := by
    rw [toList_quote]
    exact readQuoted?_quoted [] d.opening s apart
  have text {s : String} {rest : List Char} (apart : rest.head? ≠ some '\'') :
      d.readText? ((d.literal (.text s)).toList ++ rest) = some (s, rest) := by
    rw [toList_literal_text]
    exact readQuoted?_quoted d.textMark '\'' s apart
  refine ⟨identifier, text, fun t left h => ?_, fun t left h => ?_, ?_, ?_⟩
  · rw [toList_quote] at h
    exact suffix_of_readQuoted? h
  · rw [toList_literal_text] at h
    exact suffix_of_readQuoted? h
  · exact injective_of_reads fun s => by simpa using @identifier s [] (by simp)
  · exact injective_of_reads fun s => by simpa using @text s [] (by simp)

/-- A table called like the end of a command stays one identifier, and a constant stays one text. -/
theorem intrusion_read_back :
    sqlServer.readIdentifier? ((sqlServer.quote "x]; DROP TABLE [y]").toList ++ " AS [t]".toList) =
        some ("x]; DROP TABLE [y]", " AS [t]".toList) ∧
      sqlServer.readText? ((sqlServer.literal (.text "'; --")).toList ++ ")".toList) = some ("'; --", [')']) :=
  ⟨(quoted_text_read_back sqlServer "x]; DROP TABLE [y]" " AS [t]".toList).1 (by decide),
    (quoted_text_read_back sqlServer "'; --" [')']).2.1 (by decide)⟩

end Sql.Dialect

end Setwise
