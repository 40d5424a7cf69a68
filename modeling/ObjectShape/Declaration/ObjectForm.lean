import ObjectShape.Declaration.Basic
import ObjectShape.Fault
import ObjectShape.Path
import ObjectShape.Value.Basic

/-!
# Declarations written as objects

A schema may be written as a plain object: each key declares a property, and the keys `$required`,
`$type` and `$validators` of a property's object say how. Reading stops at the first fault, in the
order of the keys; of a property's own object the flag is looked at first, then the validators, then
the keys beside `$type`, then the types.
-/

namespace ObjectShape.Declaration

set_option autoImplicit false

variable {φ : Type}

def isRequired (path : String) (fields : List (String × Value φ)) : Except SchemaFault Bool :=
  match Entries.get? Control.required.key fields with
  | none => .ok true
  | some (.bool required) => .ok required
  | some _ => .error (.invalidRequired path)

def readFunctions (path name : String) (value : Value φ) : Except SchemaFault (List (Function φ)) :=
  let invalid : SchemaFault := .invalidValidator path name
  match value with
  | .function function => .ok [function]
  | .array items => items.mapM fun item =>
      match item with
      | .function function => .ok function
      | _ => .error invalid
  | _ => .error invalid

def readValidatorFields (path : String) (known : List (BasicType × List (Function φ))) :
    List (String × Value φ) → Except SchemaFault (List (BasicType × List (Function φ)))
  | [] => .ok known
  | (name, value) :: rest =>
      match BasicType.ofName? name with
      | none => .error (.unknownValidator path name)
      | some type => do
          let functions ← readFunctions path name value
          let extended := Entries.upsert type (fun present => present.getD [] ++ functions) known
          readValidatorFields path extended rest

/-- The validators of a property; undefined and null stand for none. -/
def readValidators (path : String) (value : Option (Value φ)) :
    Except SchemaFault (List (BasicType × List (Function φ))) :=
  match value with
  | none => .ok []
  | some .undefined => .ok []
  | some .null => .ok []
  | some (.object _ fields) => readValidatorFields path [] fields
  | some _ => .error (.invalidValidators path)

def plainType (path : String) (value : Value φ) : Except SchemaFault (TypeSpec φ) :=
  match value with
  | .string name =>
      match BasicType.ofName? name with
      | some type => .ok (.named type)
      | none => .error (.invalidPropertyType path)
  | .function function => .ok (TypeSpec.ofFunction function)
  | .schematic handle => .ok (.schematic handle)
  | _ => .error (.invalidPropertyType path)

/-- An object given as a type is a declaration of its own: it may not be empty or carry control
keys. -/
def checkInline (path : String) (fields : List (String × Value φ)) : Except SchemaFault Unit :=
  if fields.isEmpty then .error (.emptySchema (some path))
  else
    match Control.all.find? fun control => (Entries.get? control.key fields).isSome with
    | some control => .error (.disallowedProperty path control)
    | none => .ok ()

def firstDataKey? (fields : List (String × Value φ)) : Option String :=
  (Entries.keys fields).find? fun key => !Control.owns key

mutual

/-- The properties that the fields declare, each under its path below `above`. -/
def readMembers (above : Option String) :
    List (String × Value φ) → Except SchemaFault (List (String × Member φ))
  | [] => .ok []
  | (key, value) :: rest =>
      if Control.owns key then readMembers above rest
      else do
        let member ← readMember (Path.join above key) value
        let later ← readMembers above rest
        return (key, member) :: later
termination_by structural fields => fields

def readMember (path : String) : Value φ → Except SchemaFault (Member φ)
  | .object _ fields => do
      let required ← isRequired path fields
      let validators ← readValidators path (Entries.get? Control.validators.key fields)
      if (Entries.get? Control.type.key fields).isSome then
        match firstDataKey? fields with
        | some key => throw (.unexpectedProperty path key)
        | none => return .record required (← readTypeField path fields) validators
      else if fields.isEmpty then throw (.emptySchema (some path))
      else return .nested required validators ⟨← readMembers (some path) fields⟩
  | .array items => do
      let types ← readTypeItems path items
      if types.isEmpty then throw (.invalidPropertyType path)
      return .anyOf types
  | value => do return .single (← plainType path value)
termination_by structural value => value

def readTypeField (path : String) :
    List (String × Value φ) → Except SchemaFault (List (TypeSpec φ))
  | [] => .error (.invalidPropertyType path)
  | (key, value) :: rest =>
      if key = Control.type.key then readTypes path value else readTypeField path rest
termination_by structural fields => fields

/-- One type, or an array of at least one. -/
def readTypes (path : String) : Value φ → Except SchemaFault (List (TypeSpec φ))
  | .array items => do
      let types ← readTypeItems path items
      if types.isEmpty then throw (.invalidPropertyType path)
      return types
  | .object _ fields => do
      checkInline path fields
      return [.inline ⟨← readMembers (some path) fields⟩]
  | value => do return [← plainType path value]
termination_by structural value => value

def readTypeItems (path : String) : List (Value φ) → Except SchemaFault (List (TypeSpec φ))
  | [] => .ok []
  | item :: rest => do
      let type ← readType path item
      let later ← readTypeItems path rest
      return type :: later
termination_by structural items => items

def readType (path : String) : Value φ → Except SchemaFault (TypeSpec φ)
  | .object _ fields => do
      checkInline path fields
      return .inline ⟨← readMembers (some path) fields⟩
  | value => plainType path value
termination_by structural value => value

end

def ofValue (value : Value φ) : Except SchemaFault (Declaration φ) :=
  match value with
  | .object _ fields => do return ⟨← readMembers none fields⟩
  | _ => .error .invalidSchema

end ObjectShape.Declaration
