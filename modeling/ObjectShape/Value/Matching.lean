import ObjectShape.DateText.Recognition
import ObjectShape.Value.Basic

/-!
# What the type names accept
-/

namespace ObjectShape

set_option autoImplicit false

variable {φ : Type}

/-- The farthest a timestamp may be from the start of 1970, in milliseconds. -/
def timestampLimit : Float := 8.64e15

namespace Value

def isDateLike : Value φ → Bool
  | .date _ => true
  | .number float => -timestampLimit ≤ float && float ≤ timestampLimit
  | .string text => DateText.isDate text
  | _ => false

def isNumber : Value φ → Bool
  | .number float => !float.isNaN
  | _ => false

def isBigint : Value φ → Bool
  | .bigint _ => true
  | _ => false

end Value

def BasicType.accepts (type : BasicType) (value : Value φ) : Bool :=
  match type with
  | .array => value.kind == .array
  | .bigint => value.isBigint
  | .boolean => value.kind == .boolean
  | .date => value.kind == .date
  | .dateLike => value.isDateLike
  | .function => value.kind == .function
  | .null => value.isNull
  | .number => value.isNumber
  | .numerical => value.isBigint || value.isNumber
  | .object => value.isObjectLike
  | .string => value.kind == .string
  | .symbol => value.kind == .symbol
  | .undefined => value.isUndefined

end ObjectShape
