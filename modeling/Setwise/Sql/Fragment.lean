import Setwise.Parameters.Basic
import Setwise.Relational.Select
import Setwise.Sql.Phrase

/-!
Fragments of a command, and the parameters that they use.

A fragment is a list of pieces: fixed words, identifiers, and phrases that stand where a value or where
a condition is expected. Writing a phrase registers the parameters that it mentions; the first value of
a name counts.
-/

set_option autoImplicit false

namespace Setwise.Sql

open Relational (Scalar StoredTable)

inductive Error where
  | unsupported (dialect : Dialect) (feature : String)
  | unbound (parameter : String)
  | tooManyParameters (count max : Nat)
  | parameter (error : Parameters.Error)
  deriving DecidableEq

def Error.message : Error → String
  | unsupported dialect feature => dialect.name ++ " does not support " ++ feature ++ "."
  | unbound name => "The rows of '" ++ name ++ "' were not bound before generating SQL."
  | tooManyParameters count max =>
    "The command needs " ++ toString count ++ " parameters; at most " ++ toString max ++ " are allowed."
  | parameter error => error.message

inductive Piece where
  | word (text : String)
  | identifier (name : String)
  | value (phrase : Phrase)
  | condition (phrase : Phrase)
  deriving DecidableEq

def Piece.text (d : Dialect) : Piece → String
  | word s => s
  | identifier name => d.quote name
  | value p | condition p => p.text d

abbrev Fragment := List Piece

namespace Fragment

def text (d : Dialect) (f : Fragment) : String :=
  String.join (f.map (Piece.text d))

def word (s : String) : Fragment :=
  [.word s]

def identifier (name : String) : Fragment :=
  [.identifier name]

def separated (separator : String) : List Fragment → Fragment
  | [] => []
  | [f] => f
  | f :: rest => f ++ .word separator :: separated separator rest

def list (fs : List Fragment) : Fragment :=
  separated ", " fs

def lines (fs : List Fragment) : Fragment :=
  separated "\n" fs

def paren (f : Fragment) : Fragment :=
  word "(" ++ f ++ word ")"

def table (t : StoredTable) : Fragment :=
  match t.schema with
  | some schema => identifier schema ++ word "." ++ identifier t.name
  | none => identifier t.name

def labelled (f : Fragment) (label : String) : Fragment :=
  f ++ word " AS " ++ identifier label

end Fragment

abbrev Writer := StateT (List (String × Value)) (Except Error)

namespace Writer

def register (name : String) (v : Value) : Writer Unit :=
  modify fun ps => if ps.any fun (n, _) => n == name then ps else ps ++ [(name, v)]

def registerBound (ps : Parameters) : List String → Writer Unit
  | [] => pure ()
  | name :: rest => do
    match ps.scalar name with
    | .error e => throw (.parameter e)
    | .ok v => register name v
    registerBound ps rest

def value (d : Dialect) (ps : Parameters) (e : Scalar) : Writer Fragment := do
  let phrase := d.value e
  registerBound ps phrase.placeholders
  return [.value phrase]

def condition (d : Dialect) (ps : Parameters) (e : Scalar) : Writer Fragment := do
  let phrase := d.condition e
  registerBound ps phrase.placeholders
  return [.condition phrase]

def cell (name : String) (v : Value) : Writer Fragment := do
  register name v
  return [.value (.placeholder name)]

end Writer

end Setwise.Sql
