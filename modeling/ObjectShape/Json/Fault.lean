import ObjectShape.Json.Basic

/-!
# Why a text is not JSON
-/

namespace ObjectShape.Json

set_option autoImplicit false

inductive ReadFault where
  /-- The text ends before the data does. -/
  | ended
  /-- Some character cannot stand where it stands, or a number or the nesting is too large. -/
  | malformed
  deriving DecidableEq, Repr, Inhabited

def ReadFault.message : ReadFault → String
  | .ended => "the text ends too early"
  | .malformed => "the text is not well formed"

end ObjectShape.Json
