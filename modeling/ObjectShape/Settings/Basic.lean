import ObjectShape.EmptyPolicy

/-!
# Settings

What a user may choose: how schemas are compiled, and what is logged.
-/

namespace ObjectShape

set_option autoImplicit false

structure CompilerSettings where
  /-- Whether a compiler remembers the objects it has compiled. -/
  cache : Bool := true
  emptySchema : EmptyPolicy := .reject
  deriving DecidableEq, Repr, Inhabited

structure LoggingSettings where
  /-- Which messages are logged, as a filter directive. -/
  filter : String := "warn"
  deriving DecidableEq, Repr, Inhabited

structure Settings where
  compiler : CompilerSettings := {}
  logging : LoggingSettings := {}
  deriving DecidableEq, Repr, Inhabited

end ObjectShape
