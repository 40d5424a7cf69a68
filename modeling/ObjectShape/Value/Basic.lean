import ObjectShape.Shape.Basic

/-!
# Values

The values a shape is checked against: the data types of JSON, and beside them `undefined`, big
integers, symbols, dates, functions, instances of classes and compiled shapes. An object carries a
reference, because a compiler recognises the objects it has compiled before.
-/

namespace ObjectShape

set_option autoImplicit false

/-- Which object an object value is. An address may be used again once its object is gone; the
serial number is never given twice. -/
structure ObjectRef where
  address : Nat
  serial : Nat
  deriving DecidableEq, Repr, Inhabited

structure Symbol where
  serial : Nat
  description : Option String
  deriving DecidableEq, Repr, Inhabited

namespace Symbol

def same (left right : Symbol) : Bool :=
  left.serial == right.serial

def describe (symbol : Symbol) : String :=
  "Symbol(" ++ symbol.description.getD "" ++ ")"

end Symbol

inductive Value (φ : Type) where
  /-- Absent, or given as undefined. -/
  | undefined
  | null
  | bool (flag : Bool)
  | number (float : Float)
  | bigint (integer : Int)
  | string (text : String)
  | symbol (symbol : Symbol)
  /-- A point in time, in milliseconds since the start of 1970. -/
  | date (milliseconds : Int)
  | array (items : List (Value φ))
  | object (ref : ObjectRef) (fields : List (String × Value φ))
  | function (function : Function φ)
  | instanceOf (made : Class) (fields : List (String × Value φ))
  | schematic (handle : Handle φ)
  deriving Inhabited

inductive Kind where
  | undefined
  | null
  | boolean
  | number
  | bigint
  | string
  | symbol
  | date
  | array
  | object
  | function
  | instanceOf
  | schematic
  deriving DecidableEq, Repr, Inhabited

namespace Kind

def name : Kind → String
  | .undefined => "undefined"
  | .null => "null"
  | .boolean => "boolean"
  | .number => "number"
  | .bigint => "bigint"
  | .string => "string"
  | .symbol => "symbol"
  | .date => "date"
  | .array => "array"
  | .object => "object"
  | .function => "function"
  | .instanceOf => "instance"
  | .schematic => "schematic"

def isObjectLike : Kind → Bool
  | .object | .array | .date | .instanceOf | .schematic => true
  | .undefined | .null | .boolean | .number | .bigint | .string | .symbol | .function => false

end Kind

namespace Value

variable {φ : Type}

def kind : Value φ → Kind
  | .undefined => .undefined
  | .null => .null
  | .bool _ => .boolean
  | .number _ => .number
  | .bigint _ => .bigint
  | .string _ => .string
  | .symbol _ => .symbol
  | .date _ => .date
  | .array _ => .array
  | .object _ _ => .object
  | .function _ => .function
  | .instanceOf _ _ => .instanceOf
  | .schematic _ => .schematic

def isObjectLike (value : Value φ) : Bool :=
  value.kind.isObjectLike

def isUndefined : Value φ → Bool
  | .undefined => true
  | _ => false

def isNull : Value φ → Bool
  | .null => true
  | _ => false

def isSchematic : Value φ → Bool
  | .schematic _ => true
  | _ => false

def bool? : Value φ → Option Bool
  | .bool flag => some flag
  | _ => none

def number? : Value φ → Option Float
  | .number float => some float
  | _ => none

def string? : Value φ → Option String
  | .string text => some text
  | _ => none

def array? : Value φ → Option (List (Value φ))
  | .array items => some items
  | _ => none

/-- The fields of a plain object; an instance has none in this sense. -/
def object? : Value φ → Option (List (String × Value φ))
  | .object _ fields => some fields
  | _ => none

def function? : Value φ → Option (Function φ)
  | .function callee => some callee
  | _ => none

def get? (key : String) : Value φ → Option (Value φ)
  | .object _ fields => Entries.get? key fields
  | .instanceOf _ fields => Entries.get? key fields
  | _ => none

/-- The parts of a value with the keys that name them: fields in their order, array items by their
decimal index. -/
def children : Value φ → List (String × Value φ)
  | .object _ fields => fields
  | .instanceOf _ fields => fields
  | .array items => items.zipIdx.map fun (item, index) => (toString index, item)
  | _ => []

def isInstanceOf (expected : Class) : Value φ → Bool
  | .instanceOf made _ => Class.isA expected made
  | _ => false

end Value

end ObjectShape
