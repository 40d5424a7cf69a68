import ObjectShape.Class

/-!
# Functions as values

A function is a predicate supplied from outside, a constructor, or the instance guard made from one.
The library never looks into an outside predicate: it holds a handle of type `φ`, and whoever calls
the library says how handles are run.
-/

namespace ObjectShape

set_option autoImplicit false

inductive Callable (φ : Type) where
  | predicate (name : Option String) (handle : φ)
  /-- The predicate that accepts the instances of a class. -/
  | guard (expected : Class)
  | constructor (made : Class)
  deriving Repr, Inhabited

/-- A function object. Two of them are the same only if they share the serial number. -/
structure Function (φ : Type) where
  serial : Nat
  callable : Callable φ
  deriving Repr, Inhabited

namespace Function

variable {φ : Type}

def name? (function : Function φ) : Option String :=
  match function.callable with
  | .predicate name _ => name
  | .guard expected => some s!"instanceof {expected.name}"
  | .constructor made => some made.name

def class? (function : Function φ) : Option Class :=
  match function.callable with
  | .constructor made => some made
  | .predicate _ _ => none
  | .guard _ => none

def isConstructor (function : Function φ) : Bool :=
  function.class?.isSome

def same (left right : Function φ) : Bool :=
  left.serial == right.serial

def describe (function : Function φ) : String :=
  match function.callable with
  | .constructor made => s!"Constructor({made.name})"
  | .predicate _ _ | .guard _ => "Function(" ++ function.name?.getD "<anonymous>" ++ ")"

end Function

end ObjectShape
