/-!
# Classes

A class has a name and perhaps a parent. Classes are told apart by the serial number each one gets
when it is declared, never by name. `Declared` holds of the lists of classes that declarations make.
-/

namespace ObjectShape

set_option autoImplicit false

inductive Class where
  | root (serial : Nat) (name : String)
  | sub (serial : Nat) (name : String) (parent : Class)
  deriving Repr, Inhabited

namespace Class

def serial : Class → Nat
  | .root serial _ => serial
  | .sub serial _ _ => serial

def name : Class → String
  | .root _ name => name
  | .sub _ name _ => name

def parent? : Class → Option Class
  | .root _ _ => none
  | .sub _ _ parent => some parent

def same (left right : Class) : Bool :=
  left.serial == right.serial

/-- Whether the class is the ancestor or inherits from it. -/
def isA (ancestor : Class) : Class → Bool
  | .root serial _ => serial == ancestor.serial
  | .sub serial _ parent => serial == ancestor.serial || isA ancestor parent

def describe (declared : Class) : String :=
  match declared.parent? with
  | some parent => s!"Class({declared.name} extends {parent.name})"
  | none => s!"Class({declared.name})"

def declare (earlier : List Class) (name : String) (parent : Option Class) : Class :=
  match parent with
  | none => .root earlier.length name
  | some above => .sub earlier.length name above

/-- The lists of classes that declarations make: a parent is always one of the earlier classes. -/
inductive Declared : List Class → Prop where
  | none : Declared []
  | root {earlier : List Class} (name : String) :
      Declared earlier → Declared (earlier ++ [declare earlier name .none])
  | sub {earlier : List Class} (name : String) {parent : Class} :
      Declared earlier → parent ∈ earlier →
      Declared (earlier ++ [declare earlier name (.some parent)])

end Class

end ObjectShape
