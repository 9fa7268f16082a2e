import Setwise.Client.Mutation
import Setwise.Text.Printed

/-!
Mutations written out in full, with all the values in them.
-/

set_option autoImplicit false

namespace Setwise

open Text

def Operator.printedName : Operator → String
  | add => "Add"
  | subtract => "Subtract"
  | multiply => "Multiply"
  | divide => "Divide"
  | modulo => "Modulo"
  | equal => "Equal"
  | notEqual => "NotEqual"
  | less => "LessThan"
  | lessEqual => "LessThanOrEqual"
  | greater => "GreaterThan"
  | greaterEqual => "GreaterThanOrEqual"
  | and => "And"
  | or => "Or"
  | coalesce => "Coalesce"

def Value.printed : Value → Printed
  | int i => .apply "Int" [.word (toString i)]
  | text s => .apply "Text" [.quoted s]
  | blob bytes => .apply "Blob" [.list (bytes.map fun b => .word (toString b.toNat))]
  | real x => .apply "Real" [.word (Decimal.Layout.literal.render x)]
  | bool b => .apply "Bool" [.bool b]
  | null => .word "Null"

namespace Client

mutual

def Expr.printed : Expr → Printed
  | .param name => .apply "Param" [.quoted name]
  | .member of name => .record "Member" [("expr", of.printed), ("name", .quoted name)]
  | .constant v => .apply "Constant" [v.printed]
  | .captured name v => .record "Captured" [("name", .quoted name), ("value", v.printed)]
  | .runtime name => .apply "QueryParam" [.quoted name]
  | .binary l op r => .record "BinOp" [("lhs", l.printed), ("op", .word op.printedName), ("rhs", r.printed)]
  | .not operand => .apply "Not" [operand.printed]
  | .conditional test a b =>
    .record "Conditional" [("test", test.printed), ("if_true", a.printed), ("if_false", b.printed)]
  | .new type args bindings =>
    .record "New" [("ty", .option .quoted type), ("args", .list (Expr.printedList args)),
      ("bindings", .list (Expr.printedBindings bindings))]

def Expr.printedList : List Expr → List Printed
  | [] => []
  | e :: rest => e.printed :: Expr.printedList rest

def Expr.printedBindings : List (Binding Expr) → List Printed
  | [] => []
  | b :: rest => Expr.printedBinding b :: Expr.printedBindings rest

def Expr.printedBinding : Binding Expr → Printed
  | .assign name value => .record "Assign" [("member", .quoted name), ("expr", value.printed)]
  | .items name values =>
    .record "ListInit" [("member", .quoted name), ("items", .list (Expr.printedList values))]

end

def Lambda.printed (l : Lambda) : Printed :=
  .record "Lambda" [("params", .texts l.params), ("body", l.body.printed)]

def Record.printed (r : Record) : Printed :=
  .record "Record" [("ty", .option .quoted r.type),
    ("fields", .list (r.fields.map fun f => .apply "" [.quoted f.1, f.2.printed]))]

def LocalRows.printed : LocalRows → Printed
  | .records fields elements =>
    .record "Records" [("fields", .texts fields), ("records", .list (elements.map Record.printed))]
  | .parameter name fields => .record "Parameter" [("name", .quoted name), ("fields", .texts fields)]

def Query.printed : Query → Printed
  | .set entity => .apply "Set" [.quoted entity]
  | .rows c => .apply "Local" [c.printed]
  | .filter input predicate => .record "Where" [("input", input.printed), ("predicate", predicate.printed)]
  | .map input selector => .record "Select" [("input", input.printed), ("selector", selector.printed)]
  | .join outer inner outerKey innerKey result =>
    .record "Join" [("outer", outer.printed), ("inner", inner.printed), ("outer_key", outerKey.printed),
      ("inner_key", innerKey.printed), ("result", result.printed)]
  | .orderBy input key descending =>
    .record "OrderBy" [("input", input.printed), ("key", key.printed), ("descending", .bool descending)]
  | .take input count => .record "Take" [("input", input.printed), ("count", count.printed)]
  | .skip input count => .record "Skip" [("input", input.printed), ("count", count.printed)]
  | .groupBy input key => .record "GroupBy" [("input", input.printed), ("key", key.printed)]
  | .union left right => .record "Union" [("lhs", left.printed), ("rhs", right.printed)]

def Mutation.printed : Mutation → Printed
  | .delete q => .record "Delete" [("query", q.printed)]
  | .update q set => .record "Update" [("query", q.printed), ("set", set.printed)]
  | .updateJoin outer inner outerKey innerKey set condition =>
    .record "UpdateJoin" [("outer", outer.printed), ("inner", inner.printed), ("outer_key", outerKey.printed),
      ("inner_key", innerKey.printed), ("set", set.printed), ("condition", .option Lambda.printed condition)]
  | .insertInto q target => .record "InsertInto" [("query", q.printed), ("target", .quoted target)]
  | .upsert target source inserted updated =>
    .record "Upsert" [("target", .quoted target), ("source", .option Query.printed source),
      ("insert", inserted.printed), ("update", .option Lambda.printed updated)]
  | .merge target source targetKey sourceKey updated inserted deleted =>
    .record "Merge" [("target", .quoted target), ("source", source.printed), ("target_key", targetKey.printed),
      ("source_key", sourceKey.printed), ("update", .option Lambda.printed updated),
      ("insert", .option Lambda.printed inserted), ("delete", .bool deleted)]

end Client

end Setwise
