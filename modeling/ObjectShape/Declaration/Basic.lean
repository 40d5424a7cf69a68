import ObjectShape.Shape.Basic

/-!
# Declarations

What a schema says before it is compiled: properties in the order of declaration, each with the
types a value there may have. A property may declare the properties inside it in place, and a type
may be a declaration of its own.
-/

namespace ObjectShape

set_option autoImplicit false

mutual

structure Declaration (φ : Type) where
  members : List (String × Member φ)

inductive Member (φ : Type) where
  | single (type : TypeSpec φ)
  | anyOf (types : List (TypeSpec φ))
  | record (required : Bool) (types : List (TypeSpec φ))
      (validators : List (BasicType × List (Function φ)))
  /-- An object whose own properties are declared in place. -/
  | nested (required : Bool) (validators : List (BasicType × List (Function φ)))
      (inner : Declaration φ)

inductive TypeSpec (φ : Type) where
  | named (type : BasicType)
  | instanceOf (expected : Class)
  | predicate (function : Function φ)
  /-- The value as a whole has to meet a declaration of its own. -/
  | inline (declaration : Declaration φ)
  | schematic (handle : Handle φ)

end

variable {φ : Type}

/-- A constructor stands for its instances, any other function for the values it accepts. -/
def TypeSpec.ofFunction (function : Function φ) : TypeSpec φ :=
  match function.class? with
  | some made => .instanceOf made
  | none => .predicate function

namespace Declaration

def empty : Declaration φ := { members := [] }

def isEmpty (declaration : Declaration φ) : Bool :=
  declaration.members.isEmpty

def size (declaration : Declaration φ) : Nat :=
  declaration.members.length

def get? (key : String) (declaration : Declaration φ) : Option (Member φ) :=
  Entries.get? key declaration.members

/-- Declares a property. One declared before under the key is replaced and keeps its place. -/
def insert (key : String) (member : Member φ) (declaration : Declaration φ) : Declaration φ :=
  { members := Entries.put key member declaration.members }

end Declaration

def Member.ofDeclaration (inner : Declaration φ) : Member φ :=
  .nested true [] inner

def addValidator (type : BasicType) (function : Function φ)
    (validators : List (BasicType × List (Function φ))) : List (BasicType × List (Function φ)) :=
  Entries.upsert type (fun present => present.getD [] ++ [function]) validators

end ObjectShape
