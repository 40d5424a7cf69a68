import ObjectShape.Declaration.Basic
import ObjectShape.EmptyPolicy
import ObjectShape.Fault
import ObjectShape.Path

/-!
# Compiling declarations

A declaration is laid out as a list of properties under dotted paths, a property's own before those
declared inside it. Properties with one path are merged, and an optional property gets `undefined`
among its choices. A type that is a declaration of its own becomes a shape of its own; only the
outermost shape sorts its keys.
-/

namespace ObjectShape

set_option autoImplicit false

variable {φ : Type}

namespace Property

/-- Adds a choice behind the others, unless it is a type name that stands among them. -/
def addChoice (known : List (Choice φ)) (choice : Choice φ) : List (Choice φ) :=
  match choice.typeName? with
  | some type =>
      if known.any fun other => other.typeName? == some type then known else known ++ [choice]
  | none => known ++ [choice]

def addValidators (known added : List (BasicType × List (Function φ))) :
    List (BasicType × List (Function φ)) :=
  added.foldl
    (fun validators entry =>
      Entries.upsert entry.1 (fun present => present.getD [] ++ entry.2) validators)
    known

/-- One property for two declarations of the same path. -/
def merge (earlier later : Property φ) : Property φ :=
  { path := earlier.path
    required := earlier.required && later.required
    choices := later.choices.foldl addChoice earlier.choices
    validators := addValidators earlier.validators later.validators }

/-- An optional property accepts `undefined`, and one that accepts `undefined` is optional. -/
def settle (property : Property φ) : Property φ :=
  let choices :=
    if !property.required && !property.acceptsUndefined then
      property.choices ++ [.named .undefined]
    else property.choices
  let widened := { property with choices }
  { widened with required := property.required && !widened.acceptsUndefined }

end Property

namespace Shape

def collect (table : List (String × Property φ)) (declared : Property φ) :
    List (String × Property φ) :=
  Entries.upsert declared.path
    (fun earlier =>
      match earlier with
      | none => declared
      | some earlier => earlier.merge declared)
    table

def sortKeys (keys : List String) : List String :=
  keys.mergeSort fun left right => decide (left ≤ right)

def ofProperties (sorted : Bool) (declared : List (Property φ)) : Shape φ :=
  let table := (declared.foldl collect []).map fun entry => (entry.1, entry.2.settle)
  let keys := Entries.keys table
  { properties := table
    keys := if sorted then sortKeys keys else keys
    enabled := true
    depth := (keys.map Path.depth).foldl max 0 }

mutual

/-- The shape of a declaration. `label` stands before the paths in faults. -/
def build (policy : EmptyPolicy) (label : Option String) (sorted : Bool) :
    Declaration φ → Except SchemaFault (Shape φ)
  | ⟨[]⟩ =>
      match policy with
      | .reject => .error (.emptySchema label)
      | .disable => .ok disabled
  | ⟨first :: rest⟩ => do
      let declared ← layOut policy label none (first :: rest)
      return ofProperties sorted declared
termination_by structural declaration => declaration

/-- The properties that members declare, in order, under their paths below `above`. -/
def layOut (policy : EmptyPolicy) (label above : Option String) :
    List (String × Member φ) → Except SchemaFault (List (Property φ))
  | [] => .ok []
  | (key, member) :: rest => do
      let declared ← layOutMember policy label (Path.join above key) member
      let later ← layOut policy label above rest
      return declared ++ later
termination_by structural members => members

def layOutMember (policy : EmptyPolicy) (label : Option String) (path : String) :
    Member φ → Except SchemaFault (List (Property φ))
  | .single type => do
      let choice ← resolve policy (Path.join label path) type
      return [{ path, required := true, choices := [choice], validators := [] }]
  | .anyOf types => do
      let choices ← resolveAll policy (Path.join label path) types
      return [{ path, required := true, choices, validators := [] }]
  | .record required types validators => do
      let choices ← resolveAll policy (Path.join label path) types
      return [{ path, required, choices, validators }]
  | .nested required validators ⟨members⟩ => do
      let inner ← layOut policy label (some path) members
      return { path, required, choices := [.named .object], validators } :: inner
termination_by structural member => member

/-- The choices for at least one type; `place` is the path in faults. -/
def resolveAll (policy : EmptyPolicy) (place : String) :
    List (TypeSpec φ) → Except SchemaFault (List (Choice φ))
  | [] => .error (.invalidPropertyType place)
  | type :: rest => do
      let choice ← resolve policy place type
      let later ← resolveLater policy place rest
      return choice :: later
termination_by structural types => types

def resolveLater (policy : EmptyPolicy) (place : String) :
    List (TypeSpec φ) → Except SchemaFault (List (Choice φ))
  | [] => .ok []
  | type :: rest => do
      let choice ← resolve policy place type
      let later ← resolveLater policy place rest
      return choice :: later
termination_by structural types => types

def resolve (policy : EmptyPolicy) (place : String) :
    TypeSpec φ → Except SchemaFault (Choice φ)
  | .named type => .ok (.named type)
  | .instanceOf expected => .ok (.instanceOf expected)
  | .predicate function => .ok (.predicate function)
  | .inline declaration => do return .nested (← build policy (some place) false declaration)
  | .schematic handle => .ok (.schematic handle)
termination_by structural type => type

end

end Shape

def Declaration.compile (policy : EmptyPolicy) (declaration : Declaration φ) :
    Except SchemaFault (Shape φ) :=
  Shape.build policy none true declaration

end ObjectShape
