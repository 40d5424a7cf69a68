import ObjectShape.Value.Heap

/-!
# JSON data

The data that a JSON text stands for. Fields keep the order of the text. Whole numbers within 64
bits are kept apart from the others until they become values.
-/

namespace ObjectShape

set_option autoImplicit false

inductive Json where
  | null
  | bool (flag : Bool)
  | integer (number : Int)
  | float (number : Float)
  | string (text : String)
  | array (items : List Json)
  | object (fields : List (String × Json))
  deriving Inhabited

namespace Json

def get? (key : String) : Json → Option Json
  | .object fields => Entries.get? key fields
  | _ => none

def string? : Json → Option String
  | .string text => some text
  | _ => none

def bool? : Json → Option Bool
  | .bool flag => some flag
  | _ => none

def integer? : Json → Option Int
  | .integer number => some number
  | _ => none

def number? : Json → Option Float
  | .integer number => some (Float.ofInt number)
  | .float number => some number
  | _ => none

def array? : Json → Option (List Json)
  | .array items => some items
  | _ => none

def object? : Json → Option (List (String × Json))
  | .object fields => some fields
  | _ => none

variable {φ : Type}

mutual

/-- The value that the data stands for. Every object in it is a new object. -/
def toValue : Json → StateM Heap (Value φ)
  | .null => return .null
  | .bool flag => return .bool flag
  | .integer number => return .number (Float.ofInt number)
  | .float number => return .number number
  | .string text => return .string text
  | .array items => return .array (← toItems items)
  | .object fields => do
      let fields ← toFields fields
      return .object (← Heap.newObject) fields
termination_by structural json => json

def toItems : List Json → StateM Heap (List (Value φ))
  | [] => return []
  | item :: rest => do
      let item ← toValue item
      return item :: (← toItems rest)
termination_by structural items => items

def toFields : List (String × Json) → StateM Heap (List (String × Value φ))
  | [] => return []
  | (key, item) :: rest => do
      let item ← toValue item
      return (key, item) :: (← toFields rest)
termination_by structural fields => fields

end

end Json

end ObjectShape
