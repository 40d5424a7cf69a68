import ObjectShape.Value.Basic

/-!
# Where objects live

Every object gets an address and a serial number when it is made. The address of an object that is
gone may be given to a new one; serial numbers are never given twice, so two references are equal
only if they mean the same object.
-/

namespace ObjectShape

set_option autoImplicit false

structure Heap where
  /-- Addresses below the top that no object has any more. -/
  free : List Nat := []
  /-- The first address that no object ever had. -/
  top : Nat := 0
  nextSerial : Nat := 0
  deriving Repr, Inhabited

namespace Heap

/-- Makes an object, at an address that is free again if there is one. -/
def newObject : StateM Heap ObjectRef := do
  let heap ← get
  let serial := heap.nextSerial
  match heap.free with
  | address :: free =>
      set { heap with free, nextSerial := serial + 1 }
      return { address, serial }
  | [] =>
      set { heap with top := heap.top + 1, nextSerial := serial + 1 }
      return { address := heap.top, serial }

/-- A number for something that is told apart by identity and has no address. -/
def newSerial : StateM Heap Nat := do
  let heap ← get
  set { heap with nextSerial := heap.nextSerial + 1 }
  return heap.nextSerial

def release (alive : List ObjectRef) (heap : Heap) : Heap :=
  { heap with
    free := (List.range heap.top).filter fun address =>
      !alive.any fun ref => ref.address == address }

end Heap

namespace Value

variable {φ : Type}

mutual

/-- The references of the objects that a value reaches. Schematics and functions keep none alive. -/
def reaches : Value φ → List ObjectRef
  | .object ref fields => ref :: reachedByFields fields
  | .instanceOf _ fields => reachedByFields fields
  | .array items => reachedByItems items
  | _ => []
termination_by structural value => value

def reachedByFields : List (String × Value φ) → List ObjectRef
  | [] => []
  | (_, child) :: rest => child.reaches ++ reachedByFields rest
termination_by structural fields => fields

def reachedByItems : List (Value φ) → List ObjectRef
  | [] => []
  | item :: rest => item.reaches ++ reachedByItems rest
termination_by structural items => items

end

end Value

end ObjectShape
