/-!
What a store can execute.
-/

set_option autoImplicit false

namespace Setwise

structure Capabilities where
  name : String
  merge : Bool
  deriving DecidableEq

namespace Capabilities

def inMemory : Capabilities :=
  ⟨"InMemory", true⟩

end Capabilities

end Setwise
