import ObjectShape.Shape.Call
import ObjectShape.Value.Matching
import ObjectShape.Value.Outline

/-!
# Checking values

A value meets a shape if the shape is enabled, the value is an object in the broad sense, and every
property accepts the part of the value at its path. Properties are visited in the order of the keys,
and the first that fails ends the check. Once a part is accepted by anything but the type name
`object`, the properties below it are not visited: an absent optional parent, or a scalar chosen
over a nested shape, has nothing below it to check.
-/

namespace ObjectShape

set_option autoImplicit false

variable {φ : Type}

/-- A property as the walk over the keys sees it: whether a part has to be there, and which choice
accepts a part first. -/
structure Matcher (φ : Type) where
  required : Bool
  matching : Value φ → Traced φ (Option (Nat × Choice φ))

def runValidators [Host φ] (path : String) (index : Nat) (type : BasicType) (value : Value φ) :
    Nat → List (Function φ) → Traced φ Bool
  | _, [] => pure true
  | position, function :: rest => do
      if ← Traced.call path (.validator index type position) function value then
        runValidators path index type value (position + 1) rest
      else pure false

/-- Visits the keys in order. `satisfied` holds the keys whose parts were accepted by anything but
the type name `object`. -/
def visitKeys (table : List (String × Matcher φ)) (outline : List (String × Value φ)) :
    List String → List String → Traced φ Bool
  | _, [] => pure true
  | satisfied, key :: rest =>
      if satisfied.any (Path.isBelow key) then visitKeys table outline satisfied rest
      else
        match Entries.get? key table with
        | none => visitKeys table outline satisfied rest
        | some matcher =>
            let part := Value.partAt outline key
            if matcher.required && part.isUndefined then pure false
            else do
              match ← matcher.matching part with
              | none => pure false
              | some (_, choice) =>
                  if choice.typeName? = some .object then visitKeys table outline satisfied rest
                  else visitKeys table outline (satisfied ++ [key]) rest

mutual

/-- Whether the value meets the shape, with the calls that decided it. -/
def Shape.examine [Host φ] : Shape φ → Value φ → Traced φ Bool
  | ⟨properties, keys, enabled, depth⟩, value =>
      if enabled && value.isObjectLike then
        visitKeys (matchers properties) (value.outline depth) [] keys
      else pure false
termination_by structural shape => shape

def matchers [Host φ] : List (String × Property φ) → List (String × Matcher φ)
  | [] => []
  | (key, property) :: rest => (key, property.matcher) :: matchers rest
termination_by structural properties => properties

def Property.matcher [Host φ] : Property φ → Matcher φ
  | ⟨path, required, choices, validators⟩ =>
      { required, matching := fun value => firstAccepting path validators value 0 choices }
termination_by structural property => property

/-- The first choice that accepts the value, with its index. A type name only counts if every
validator registered for it accepts the value too. -/
def firstAccepting [Host φ] (path : String) (validators : List (BasicType × List (Function φ)))
    (value : Value φ) : Nat → List (Choice φ) → Traced φ (Option (Nat × Choice φ))
  | _, [] => pure none
  | index, choice :: rest => do
      let accepted ← choice.examine path index value
      let confirmed ←
        match accepted, choice.typeName? with
        | true, some type =>
            runValidators path index type value 0 ((Entries.get? type validators).getD [])
        | answer, _ => pure answer
      if confirmed then pure (some (index, choice))
      else firstAccepting path validators value (index + 1) rest
termination_by structural _ choices => choices

/-- Whether the choice accepts the value, validators aside. -/
def Choice.examine [Host φ] (path : String) (index : Nat) :
    Choice φ → Value φ → Traced φ Bool
  | .named type, value => pure (type.accepts value)
  | .predicate function, value => Traced.call path (.choice index) function value
  | .instanceOf expected, value => pure (value.isInstanceOf expected)
  | .nested shape, value => (shape.examine value).inside path index
  | .schematic handle, value => (handle.examine value).inside path index
termination_by structural choice => choice

def Handle.examine [Host φ] : Handle φ → Value φ → Traced φ Bool
  | ⟨_, shape⟩, value => shape.examine value
termination_by structural handle => handle

end

variable [Host φ]

def Shape.accepts (shape : Shape φ) (value : Value φ) : Bool :=
  (shape.examine value).result

def Choice.accepts (choice : Choice φ) (value : Value φ) : Bool :=
  (choice.examine "" 0 value).result

/-- The first choice that accepts the value together with its validators, and its index. -/
def Property.examine (property : Property φ) (value : Value φ) :
    Traced φ (Option (Nat × Choice φ)) :=
  firstAccepting property.path property.validators value 0 property.choices

theorem matchers_eq_map (properties : List (String × Property φ)) :
    matchers properties = properties.map fun entry => (entry.1, entry.2.matcher) := by
  induction properties with
  | nil => rfl
  | cons entry rest ih => simp [matchers, ih]

theorem Property.matcher_eq (property : Property φ) :
    property.matcher = { required := property.required, matching := property.examine } := by
  cases property
  rfl

end ObjectShape
