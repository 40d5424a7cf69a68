/-!
# The built-in type names

Thirteen names a schema may use for a value's basic shape. What each name accepts is said in
`ObjectShape.Value.Matching`.
-/

namespace ObjectShape

set_option autoImplicit false

inductive BasicType where
  | array
  | bigint
  | boolean
  | date
  /-- A date, a timestamp in range, or a text that reads as a date. -/
  | dateLike
  | function
  | null
  | number
  /-- A number or a big integer. -/
  | numerical
  | object
  | string
  | symbol
  | undefined
  deriving DecidableEq, Repr, Inhabited

namespace BasicType

def all : List BasicType :=
  [.array, .bigint, .boolean, .date, .dateLike, .function, .null, .number, .numerical, .object,
    .string, .symbol, .undefined]

def name : BasicType → String
  | .array => "array"
  | .bigint => "bigint"
  | .boolean => "boolean"
  | .date => "date"
  | .dateLike => "date-like"
  | .function => "function"
  | .null => "null"
  | .number => "number"
  | .numerical => "numerical"
  | .object => "object"
  | .string => "string"
  | .symbol => "symbol"
  | .undefined => "undefined"

/-- The type spelled so, letter for letter. -/
def ofName? (text : String) : Option BasicType :=
  all.find? fun type => type.name = text

def read (text : String) : Except String BasicType :=
  match ofName? text with
  | some type => .ok type
  | none => .error s!"unknown type '{text}'"

theorem of_name_eq_some_iff {text : String} {type : BasicType} :
    ofName? text = some type ↔ type.name = text := by
  constructor
  · intro found
    simpa using List.find?_some found
  · rintro rfl
    cases type <;> rfl

end BasicType

end ObjectShape
