import ObjectShape.Memo
import ObjectShape.Settings.Basic
import ObjectShape.Shape.Acceptance
import ObjectShape.Value.Heap

/-!
# Workspaces

A workspace holds named values, compilers and compiled shapes, and the heap their objects live on.
An object is alive as long as a named value reaches it; after every step the addresses of the others
are free again. Compilers that were cloned share their memo.
-/

namespace ObjectShape

set_option autoImplicit false

variable {φ : Type}

structure Compiler where
  settings : CompilerSettings
  /-- The place of its memo among those of the workspace. -/
  memo : Option Nat
  deriving DecidableEq, Repr, Inhabited

structure Workspace (φ : Type) where
  values : List (String × Value φ) := []
  compilers : List (String × Compiler) := []
  schematics : List (String × Handle φ) := []
  memos : List (Memo φ) := []
  heap : Heap := {}

namespace Workspace

def value? (name : String) (workspace : Workspace φ) : Option (Value φ) :=
  Entries.get? name workspace.values

def compiler? (name : String) (workspace : Workspace φ) : Option Compiler :=
  Entries.get? name workspace.compilers

def schematic? (name : String) (workspace : Workspace φ) : Option (Handle φ) :=
  Entries.get? name workspace.schematics

def alive (workspace : Workspace φ) : List ObjectRef :=
  workspace.values.flatMap fun entry => entry.2.reaches

def release (workspace : Workspace φ) : Workspace φ :=
  { workspace with heap := workspace.heap.release workspace.alive }

def memoOf (compiler : Compiler) (workspace : Workspace φ) : Option (Memo φ) :=
  compiler.memo.bind fun index => workspace.memos[index]?

def setMemo (compiler : Compiler) (memo : Memo φ) (workspace : Workspace φ) : Workspace φ :=
  match compiler.memo with
  | some index => { workspace with memos := workspace.memos.set index memo }
  | none => workspace

def memoSize? (compiler : Compiler) (workspace : Workspace φ) : Option Nat :=
  (workspace.memoOf compiler).map Memo.size

/-- Makes a compiler, with a memo of its own if its settings ask for one. -/
def newCompiler (name : String) (settings : CompilerSettings) (workspace : Workspace φ) :
    Workspace φ :=
  let memo := if settings.cache then some workspace.memos.length else none
  { workspace with
    compilers := Entries.put name { settings, memo } workspace.compilers
    memos := if settings.cache then workspace.memos ++ [{}] else workspace.memos }

/-- Names a copy of a compiler, which shares the memo of the first. -/
def cloneCompiler (name : String) (compiler : Compiler) (workspace : Workspace φ) : Workspace φ :=
  { workspace with compilers := Entries.put name compiler workspace.compilers }

/-- Names a value that was built on the given heap. What the name stood for before is let go. -/
def bindValue (name : String) (value : Value φ) (heap : Heap) (workspace : Workspace φ) :
    Workspace φ :=
  release { workspace with values := Entries.put name value workspace.values, heap }

/-- Names the part of a value that stands under a key, the same object and not a copy. -/
def bindField (name key : String) (value : Value φ) (workspace : Workspace φ) : Workspace φ :=
  workspace.bindValue name ((value.get? key).getD .undefined) workspace.heap

def dropValue (name : String) (workspace : Workspace φ) : Workspace φ :=
  release
    { workspace with values := workspace.values.filter fun entry => !(entry.1 == name) }

def bindSchematic (name : String) (handle : Handle φ) (workspace : Workspace φ) : Workspace φ :=
  { workspace with schematics := Entries.put name handle workspace.schematics }

def compile (compiler : Compiler) (value : Value φ) (workspace : Workspace φ) :
    Except SchemaFault (Handle φ × Workspace φ) := do
  let (serial, heap) := Heap.newSerial.run workspace.heap
  let (handle, memo) ←
    compileWith compiler.settings.emptySchema workspace.alive serial value
      (workspace.memoOf compiler)
  let workspace := { workspace with heap }
  match memo with
  | some memo => return (handle, workspace.setMemo compiler memo)
  | none => return (handle, workspace)

def compileAlone (value : Value φ) (workspace : Workspace φ) :
    Except SchemaFault (Handle φ × Workspace φ) := do
  let (serial, heap) := Heap.newSerial.run workspace.heap
  let handle ← compileFresh .reject serial value
  return (handle, { workspace with heap })

def remembered? (compiler : Compiler) (source : ObjectRef) (workspace : Workspace φ) :
    Option (Handle φ) :=
  (workspace.memoOf compiler).bind (Memo.get? source)

def remember (compiler : Compiler) (source : ObjectRef) (handle : Handle φ)
    (workspace : Workspace φ) : Workspace φ :=
  match workspace.memoOf compiler with
  | some memo => workspace.setMemo compiler (memo.insert workspace.alive source handle)
  | none => workspace

def forget (compiler : Compiler) (workspace : Workspace φ) : Workspace φ :=
  match workspace.memoOf compiler with
  | some memo => workspace.setMemo compiler memo.clear
  | none => workspace

end Workspace

end ObjectShape
