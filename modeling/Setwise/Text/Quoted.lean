/-!
Text between delimiters: the closing delimiter stands doubled for itself.
-/

set_option autoImplicit false

namespace Setwise.Text

def double (mark : Char) : List Char → List Char
  | [] => []
  | c :: rest => if c = mark then c :: c :: double mark rest else c :: double mark rest

def quote (opening closing : Char) (s : String) : String :=
  String.ofList (opening :: double closing s.toList ++ [closing])

end Setwise.Text
