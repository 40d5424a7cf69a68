/-!
# Schemas without properties
-/

namespace ObjectShape

set_option autoImplicit false

/-- What to make of a schema that declares no properties. -/
inductive EmptyPolicy where
  /-- It is a fault. -/
  | reject
  /-- It is a shape that accepts nothing. -/
  | disable
  deriving DecidableEq, Repr, Inhabited

namespace EmptyPolicy

def name : EmptyPolicy → String
  | .reject => "reject"
  | .disable => "disable"

def ofName? (text : String) : Option EmptyPolicy :=
  [reject, disable].find? fun policy => policy.name = text

end EmptyPolicy

end ObjectShape
