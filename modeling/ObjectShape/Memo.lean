import ObjectShape.Declaration.ObjectForm
import ObjectShape.Shape.Compilation

/-!
# Remembered compilations

A memo holds the compiled shapes of objects under the objects' addresses. It keeps no object alive:
the entry of an object that is gone stays until the next insertion, which first removes all such
entries, but it answers no question, because a question is asked about a living object and the entry
says which object it was made for.
-/

namespace ObjectShape

set_option autoImplicit false

variable {φ : Type}

/-- The compiled shape of an object, and which object that was. -/
structure MemoEntry (φ : Type) where
  source : ObjectRef
  handle : Handle φ

structure Memo (φ : Type) where
  entries : List (Nat × MemoEntry φ) := []

namespace Memo

def size (memo : Memo φ) : Nat :=
  memo.entries.length

def isEmpty (memo : Memo φ) : Bool :=
  memo.entries.isEmpty

/-- What was inserted for this very object. -/
def get? (source : ObjectRef) (memo : Memo φ) : Option (Handle φ) :=
  match Entries.get? source.address memo.entries with
  | some entry => if entry.source = source then some entry.handle else none
  | none => none

def purge (alive : List ObjectRef) (memo : Memo φ) : Memo φ :=
  { entries := memo.entries.filter fun entry => alive.contains entry.2.source }

/-- Removes the entries of objects that are gone and remembers the handle for the source. -/
def insert (alive : List ObjectRef) (source : ObjectRef) (handle : Handle φ) (memo : Memo φ) :
    Memo φ :=
  { entries := Entries.put source.address { source, handle } (memo.purge alive).entries }

def clear (_ : Memo φ) : Memo φ :=
  {}

end Memo

def compileObject (policy : EmptyPolicy) (value : Value φ) : Except SchemaFault (Shape φ) := do
  let declaration ← Declaration.ofValue value
  declaration.compile policy

/-- Compiles a value, with the help of a memo if there is one. A schematic is its own compilation;
`serial` identifies a shape that is compiled now. -/
def compileWith (policy : EmptyPolicy) (alive : List ObjectRef) (serial : Nat) (value : Value φ)
    (memo : Option (Memo φ)) : Except SchemaFault (Handle φ × Option (Memo φ)) :=
  match value with
  | .schematic handle => .ok (handle, memo)
  | .object source _ =>
      match memo.bind (Memo.get? source) with
      | some handle => .ok (handle, memo)
      | none => do
          let handle : Handle φ := { serial, shape := ← compileObject policy value }
          return (handle, memo.map (Memo.insert alive source handle))
  | _ => .error .invalidSchema

def compileFresh (policy : EmptyPolicy) (serial : Nat) (value : Value φ) :
    Except SchemaFault (Handle φ) :=
  (compileWith policy [] serial value none).map Prod.fst

end ObjectShape
