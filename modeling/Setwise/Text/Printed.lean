/-!
Printed forms: data written out in full, with the names of its parts.

A printed form is built from names with parts in brackets, from parts with labels, and from texts in quotation marks. Inside
quotation marks a backslash introduces what does not stand for itself: a letter for some characters, and a number for
those that a table of characters asks for.
-/

set_option autoImplicit false

namespace Setwise.Text

/-! ## Texts in quotation marks -/

def escapeLetter? : Char → Option Char
  | '\x00' => some '0'
  | '\t' => some 't'
  | '\r' => some 'r'
  | '\n' => some 'n'
  | '\\' => some '\\'
  | '"' => some '"'
  | _ => none

def escape (byNumber : Char → Bool) (c : Char) : List Char :=
  match escapeLetter? c with
  | some letter => ['\\', letter]
  | none => if byNumber c then '\\' :: 'u' :: '\x7b' :: (Nat.toDigits 16 c.toNat ++ ['\x7d']) else [c]

def escaped (byNumber : Char → Bool) : List Char → List Char
  | [] => ['"']
  | c :: rest => escape byNumber c ++ escaped byNumber rest

/-! ## Printed forms -/

inductive Brackets where
  /-- There are no parts. -/
  | none
  | round
  | square
  | curly
  deriving DecidableEq

def Brackets.opening : Brackets → List Char
  | none => []
  | round => ['(']
  | square => ['[']
  | curly => [' ', '\x7b', ' ']

def Brackets.closing : Brackets → List Char
  | none => []
  | round => [')']
  | square => [']']
  | curly => [' ', '\x7d']

inductive Printed where
  /-- A text in quotation marks. -/
  | quoted (s : String)
  /-- A name and its parts. The name of a list or of a tuple is empty. -/
  | node (name : String) (brackets : Brackets) (parts : List Printed)
  /-- A part with a label. -/
  | field (label : String) (value : Printed)

namespace Printed

def word (name : String) : Printed :=
  .node name .none []

def apply (name : String) (parts : List Printed) : Printed :=
  .node name .round parts

def record (name : String) (parts : List (String × Printed)) : Printed :=
  .node name .curly (parts.map fun p => .field p.1 p.2)

def list (parts : List Printed) : Printed :=
  .node "" .square parts

def option {α : Type} (print : α → Printed) : Option α → Printed
  | some a => apply "Some" [print a]
  | none => word "None"

def bool : Bool → Printed
  | true => word "true"
  | false => word "false"

def texts (ss : List String) : Printed :=
  list (ss.map quoted)

section

variable (byNumber : Char → Bool)

mutual

def chars : Printed → List Char
  | quoted s => '"' :: escaped byNumber s.toList
  | node name brackets parts => name.toList ++ (brackets.opening ++ (charsOfParts parts ++ brackets.closing))
  | field label value => label.toList ++ ':' :: ' ' :: chars value

def charsOfParts : List Printed → List Char
  | [] => []
  | p :: rest => chars p ++ charsBehind rest

def charsBehind : List Printed → List Char
  | [] => []
  | p :: rest => ',' :: ' ' :: (chars p ++ charsBehind rest)

end

end

def text (byNumber : Char → Bool) (p : Printed) : String :=
  String.ofList (p.chars byNumber)

end Printed

end Setwise.Text
