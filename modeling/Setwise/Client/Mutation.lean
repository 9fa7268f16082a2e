import Setwise.Client.Query

/-!
Set-based writes. Each one becomes a single statement.
-/

set_option autoImplicit false

namespace Setwise.Client

inductive Mutation where
  /-- Delete every row that the query yields. -/
  | delete (query : Query)
  /-- Change every row that the query yields, as an initialiser over the element says. -/
  | update (query : Query) (set : Lambda)
  /-- Change rows joined to another query; `set` and `condition` take both elements. -/
  | updateJoin (outer inner : Query) (outerKey innerKey set : Lambda) (condition : Option Lambda)
  /-- Insert what a query that ends in an initialiser yields. -/
  | insertInto (query : Query) (target : String)
  /-- Insert rows, and where one meets an existing row on a key, update that row instead. Without a
  source there is one row to insert. `update` takes the existing and the incoming row. -/
  | upsert (target : String) (source : Option Query) (insert : Lambda) (update : Option Lambda)
  /-- Reconcile a table with a source: update the matched rows, insert the rows of the source and
  delete the rows of the table that have no match. -/
  | merge (target : String) (source : Query) (targetKey sourceKey : Lambda)
      (update insert : Option Lambda) (delete : Bool)
  deriving DecidableEq

namespace Mutation

def name : Mutation → String
  | delete .. => "BatchDelete"
  | update .. => "BatchUpdate"
  | updateJoin .. => "BatchUpdateJoin"
  | insertInto .. => "BatchInsertInto"
  | upsert .. => "Upsert"
  | merge .. => "Merge"

def displayOption : Option Lambda → String
  | some l => l.display
  | none => "null"

def display : Mutation → String
  | .delete query => query.display ++ ".BatchDelete()"
  | .update query set => query.display ++ ".BatchUpdate(" ++ set.display ++ ")"
  | .updateJoin outer inner outerKey innerKey set condition =>
    outer.display ++ ".BatchUpdateJoin(" ++ ", ".intercalate
      [inner.display, outerKey.display, innerKey.display, set.display, displayOption condition] ++ ")"
  | .insertInto query target => query.display ++ ".BatchInsertInto(DbSet<" ++ target ++ ">())"
  | .upsert target source insert update' =>
    let rows := source.toList.map Query.display
    "DbSet<" ++ target ++ ">().Upsert("
      ++ ", ".intercalate (rows ++ [insert.display, displayOption update']) ++ ")"
  | .merge target source targetKey sourceKey update' insert delete' =>
    "DbSet<" ++ target ++ ">().Merge(" ++ ", ".intercalate
      [source.display, targetKey.display, sourceKey.display, displayOption update', displayOption insert,
        "delete: " ++ (if delete' then "true" else "false")] ++ ")"

end Mutation

end Setwise.Client
