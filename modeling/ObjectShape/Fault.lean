/-!
# Faults

What can be wrong with a schema, each fault as its cause, and the one wording of every cause. A
fault inside a schema carries the dotted path of the property at fault.
-/

namespace ObjectShape

set_option autoImplicit false

/-- The keys of an object that say something about the property and name no field of it. -/
inductive Control where
  | required
  | type
  | validators
  deriving DecidableEq, Repr, Inhabited

namespace Control

def key : Control → String
  | .required => "$required"
  | .type => "$type"
  | .validators => "$validators"

/-- The order in which a forbidden one is looked for. -/
def all : List Control := [.required, .type, .validators]

def ofKey? (key : String) : Option Control :=
  all.find? fun control => control.key = key

def owns (key : String) : Bool :=
  (ofKey? key).isSome

theorem owns_key (control : Control) : owns control.key = true := by
  cases control <;> decide

theorem owns_iff {key : String} : owns key = true ↔ ∃ control : Control, key = control.key := by
  constructor
  · intro owned
    obtain ⟨control, found⟩ := Option.isSome_iff_exists.mp owned
    have same := List.find?_some found
    exact ⟨control, (of_decide_eq_true same).symm⟩
  · intro controlled
    obtain ⟨control, rfl⟩ := controlled
    exact owns_key control

end Control

inductive SchemaFault where
  | invalidSchema
  /-- A schema without properties; the root has no path. -/
  | emptySchema (path : Option String)
  | invalidRequired (path : String)
  | disallowedProperty (path : String) (control : Control)
  | unexpectedProperty (path : String) (key : String)
  | invalidPropertyType (path : String)
  | invalidValidators (path : String)
  | unknownValidator (path : String) (name : String)
  | invalidValidator (path : String) (name : String)
  | notAConstructor
  deriving DecidableEq, Repr, Inhabited

namespace SchemaFault

def message : SchemaFault → String
  | .invalidSchema => "Schema must be an object"
  | .emptySchema _ => "Schema must have at least one property"
  | .invalidRequired path => s!"'{path}.$required' property must be a boolean"
  | .disallowedProperty path control =>
      s!"'{path}.{control.key}' property is not allowed for schemas in $type"
  | .unexpectedProperty path key => s!"'{path}' cannot declare '{key}' alongside $type"
  | .invalidPropertyType path => s!"'{path}' property must be of a valid type"
  | .invalidValidators _ => "Validators must be an object"
  | .unknownValidator _ name => s!"Validator '{name}' does not exist"
  | .invalidValidator _ name =>
      s!"Validator '{name}' must be a function or an array of functions"
  | .notAConstructor => "Expected a constructor function"

def path? : SchemaFault → Option String
  | .invalidSchema | .notAConstructor => none
  | .emptySchema path => path
  | .invalidRequired path | .disallowedProperty path _ | .unexpectedProperty path _
  | .invalidPropertyType path | .invalidValidators path | .unknownValidator path _
  | .invalidValidator path _ => some path

end SchemaFault

/-- Everything that can go wrong on the way to a compiled schema: the schema itself, or one of the
sources it is read with, whose own wording is kept. -/
inductive Fault where
  | schema (fault : SchemaFault)
  | settings (detail : String)
  | file (detail : String)
  | json (detail : String)
  deriving DecidableEq, Repr, Inhabited

namespace Fault

def message : Fault → String
  | .schema fault => fault.message
  | .settings detail => s!"Configuration error: {detail}"
  | .file detail => s!"IO error: {detail}"
  | .json detail => s!"JSON error: {detail}"

def path? : Fault → Option String
  | .schema fault => fault.path?
  | .settings _ | .file _ | .json _ => none

def isOfSchema : Fault → Bool
  | .schema _ => true
  | .settings _ | .file _ | .json _ => false

end Fault

theorem bind_eq_ok_iff {ε α β : Type} {first : Except ε α} {next : α → Except ε β} {result : β} :
    (first >>= next) = .ok result ↔ ∃ value, first = .ok value ∧ next value = .ok result := by
  cases first with
  | error fault => simp [bind, Except.bind]
  | ok value => simp [bind, Except.bind]

theorem pure_eq_ok_iff {ε α : Type} {value result : α} :
    (pure value : Except ε α) = .ok result ↔ value = result := by
  simp [pure, Except.pure]

end ObjectShape
