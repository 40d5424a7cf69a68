import ObjectShape.Fault
import ObjectShape.Shape.Call

/-!
# Instance guards

A guard is made from a constructor and accepts the instances of its class and of the classes that
inherit from it. It can be used as a predicate function, too.
-/

namespace ObjectShape

set_option autoImplicit false

variable {φ : Type}

structure InstanceGuard where
  expected : Class
  deriving Repr, Inhabited

namespace InstanceGuard

def ofValue (candidate : Value φ) : Except SchemaFault InstanceGuard :=
  match candidate.function?.bind Function.class? with
  | some expected => .ok { expected }
  | none => .error .notAConstructor

def accepts (guard : InstanceGuard) (value : Value φ) : Bool :=
  value.isInstanceOf guard.expected

def same (left right : InstanceGuard) : Bool :=
  left.expected.same right.expected

def toFunction (serial : Nat) (guard : InstanceGuard) : Function φ :=
  { serial, callable := .guard guard.expected }

end InstanceGuard

def Function.instanceTest (serial : Nat) (candidate : Value φ) :
    Except SchemaFault (Function φ) :=
  (InstanceGuard.ofValue candidate).map (InstanceGuard.toFunction serial)

end ObjectShape
