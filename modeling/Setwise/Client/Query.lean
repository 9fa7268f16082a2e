import Setwise.Client.Expr

/-!
Client queries: a chain of operators on an entity set or on a collection of the client.
-/

set_option autoImplicit false

namespace Setwise.Client

structure Lambda where
  params : List String
  body : Expr
  deriving DecidableEq

def Lambda.display (l : Lambda) : String :=
  match l.params with
  | [p] => p ++ " => " ++ l.body.display
  | ps => "(" ++ ", ".intercalate ps ++ ") => " ++ l.body.display

/-- An element of a collection of the client. It has a type name unless it is an anonymous record. -/
structure Record where
  type : Option String
  fields : List (String × Value)
  deriving DecidableEq

inductive LocalRows where
  | records (fields : List String) (elements : List Record)
  /-- The rows are the value of a runtime parameter. -/
  | parameter (name : String) (fields : List String)
  deriving DecidableEq

def LocalRows.fields : LocalRows → List String
  | records fields _ => fields
  | parameter _ fields => fields

inductive Query where
  | set (entity : String)
  | rows (collection : LocalRows)
  | filter (input : Query) (predicate : Lambda)
  | map (input : Query) (selector : Lambda)
  | join (outer inner : Query) (outerKey innerKey result : Lambda)
  | orderBy (input : Query) (key : Lambda) (descending : Bool)
  | take (input : Query) (count : Expr)
  | skip (input : Query) (count : Expr)
  | groupBy (input : Query) (key : Lambda)
  | union (left right : Query)
  deriving DecidableEq

def Query.display : Query → String
  | set entity => "DbSet<" ++ entity ++ ">()"
  | rows (.records fields elements) =>
    "[" ++ toString elements.length ++ " records of \x7b " ++ ", ".intercalate fields ++ " \x7d]"
  | rows (.parameter name fields) => "@" ++ name ++ " \x7b " ++ ", ".intercalate fields ++ " \x7d"
  | filter input predicate => input.display ++ ".Where(" ++ predicate.display ++ ")"
  | map input selector => input.display ++ ".Select(" ++ selector.display ++ ")"
  | join outer inner outerKey innerKey result =>
    outer.display ++ ".Join(" ++ ", ".intercalate
      [inner.display, outerKey.display, innerKey.display, result.display] ++ ")"
  | orderBy input key descending =>
    input.display ++ (if descending then ".OrderByDescending(" else ".OrderBy(") ++ key.display ++ ")"
  | take input count => input.display ++ ".Take(" ++ count.display ++ ")"
  | skip input count => input.display ++ ".Skip(" ++ count.display ++ ")"
  | groupBy input key => input.display ++ ".GroupBy(" ++ key.display ++ ")"
  | union left right => left.display ++ ".Union(" ++ right.display ++ ")"

end Setwise.Client
