import ObjectShape.BasicType
import ObjectShape.Entries
import ObjectShape.Function

/-!
# Compiled shapes

A shape is a flat table: every property, however deep, under its full dotted path, with the choices
of which a value there has to meet one. `keys` is the order in which properties are visited, and
`depth` bounds how deep a candidate has to be looked into.
-/

namespace ObjectShape

set_option autoImplicit false

mutual

structure Shape (φ : Type) where
  properties : List (String × Property φ)
  keys : List String
  enabled : Bool
  depth : Nat

structure Property (φ : Type) where
  path : String
  required : Bool
  choices : List (Choice φ)
  /-- Functions that must also accept a value chosen by the type name they stand under. -/
  validators : List (BasicType × List (Function φ))

inductive Choice (φ : Type) where
  | named (type : BasicType)
  | predicate (function : Function φ)
  | instanceOf (expected : Class)
  /-- The value as a whole has to meet a shape of its own. -/
  | nested (shape : Shape φ)
  | schematic (handle : Handle φ)

/-- A compiled shape as an object of its own: handles with one serial number share one shape. -/
structure Handle (φ : Type) where
  serial : Nat
  shape : Shape φ

end

variable {φ : Type}

namespace Choice

def typeName? : Choice φ → Option BasicType
  | .named type => some type
  | .predicate _ | .instanceOf _ | .nested _ | .schematic _ => none

def label : Choice φ → String
  | .named type => type.name
  | .predicate function => function.name?.getD "predicate"
  | .instanceOf expected => s!"instanceof {expected.name}"
  | .nested _ => "schema"
  | .schematic _ => "schematic"

/-- The shape a value is checked against as a whole, if the choice is one. -/
def inner? : Choice φ → Option (Shape φ)
  | .nested shape => some shape
  | .schematic handle => some handle.shape
  | .named _ | .predicate _ | .instanceOf _ => none

end Choice

namespace Property

def acceptsUndefined (property : Property φ) : Bool :=
  property.choices.any fun choice => choice.typeName? == some .undefined

/-- The validators registered for the choice; only a type name has any. -/
def validatorsOf (property : Property φ) (choice : Choice φ) : List (Function φ) :=
  match choice.typeName? with
  | some type => (Entries.get? type property.validators).getD []
  | none => []

end Property

namespace Shape

def disabled : Shape φ :=
  { properties := [], keys := [], enabled := false, depth := 0 }

def property? (shape : Shape φ) (path : String) : Option (Property φ) :=
  Entries.get? path shape.properties

def visited (shape : Shape φ) : List (Property φ) :=
  shape.keys.filterMap shape.property?

def size (shape : Shape φ) : Nat :=
  shape.properties.length

end Shape

structure PropertySummary where
  path : String
  required : Bool
  types : List String
  /-- How many validators stand under each type name. -/
  validators : List (BasicType × Nat)
  deriving DecidableEq, Repr, Inhabited

def Property.summary (property : Property φ) : PropertySummary :=
  { path := property.path
    required := property.required
    types := property.choices.map Choice.label
    validators := property.validators.map fun entry => (entry.1, entry.2.length) }

/-- The table of the shape, in the order in which properties are visited. -/
def Shape.describe (shape : Shape φ) : List PropertySummary :=
  shape.visited.map Property.summary

end ObjectShape
