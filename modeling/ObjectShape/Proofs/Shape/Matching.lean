import ObjectShape.Shape.Acceptance

/-!
# What a property accepts

Examining a value leaves a result and the calls made on the way. The result alone does not depend on
the place that the calls are noted for: a property answers with the first of its choices that
accepts the value together with every validator registered for that choice.
-/

namespace ObjectShape

set_option autoImplicit false

variable {φ : Type} [Host φ]

theorem run_validators_result (path : String) (index : Nat) (type : BasicType) (value : Value φ)
    (position : Nat) (functions : List (Function φ)) :
    (runValidators path index type value position functions).result =
      functions.all fun function => function.test value := by
  induction functions generalizing position with
  | nil => rfl
  | cons function rest ih =>
      simp only [runValidators, Traced.result_bind, Traced.call, List.all_cons]
      cases accepted : function.test value with
      | false => simp
      | true => simpa using ih (position + 1)

theorem choice_examine_result (path : String) (index : Nat) (choice : Choice φ) (value : Value φ) :
    (choice.examine path index value).result = choice.accepts value := by
  cases choice <;> rfl

/-- Whether every validator registered for the name accepts the value; without a name there is
none. -/
def isConfirmed (validators : List (BasicType × List (Function φ))) (name : Option BasicType)
    (value : Value φ) : Bool :=
  match name with
  | some type =>
      ((Entries.get? type validators).getD []).all fun function => function.test value
  | none => true

def nameAdmits (validators : List (BasicType × List (Function φ))) (type : BasicType)
    (value : Value φ) : Bool :=
  type.accepts value && isConfirmed validators (some type) value

theorem first_accepting_cons (path : String) (validators : List (BasicType × List (Function φ)))
    (value : Value φ) (index : Nat) (choice : Choice φ) (rest : List (Choice φ)) :
    (firstAccepting path validators value index (choice :: rest)).result =
      if choice.accepts value && isConfirmed validators choice.typeName? value then some (index, choice)
      else (firstAccepting path validators value (index + 1) rest).result := by
  simp only [firstAccepting, Traced.result_bind, choice_examine_result]
  cases choice.accepts value with
  | false => simp
  | true =>
      cases named : choice.typeName? with
      | none => simp [isConfirmed]
      | some type =>
          have confirmed := run_validators_result path index type value 0
            ((Entries.get? type validators).getD [])
          simp only [isConfirmed, Bool.true_and, ← confirmed, Traced.result_bind]
          split <;> rfl

theorem first_accepting_result (path : String) (validators : List (BasicType × List (Function φ)))
    (value : Value φ) (index : Nat) (choices : List (Choice φ)) :
    (firstAccepting path validators value index choices).result.map Prod.snd =
      choices.find? fun choice => choice.accepts value && isConfirmed validators choice.typeName? value := by
  induction choices generalizing index with
  | nil => rfl
  | cons choice rest ih =>
      rw [first_accepting_cons, List.find?_cons]
      cases choice.accepts value && isConfirmed validators choice.typeName? value with
      | false => exact ih (index + 1)
      | true => rfl

namespace Property

def matching (property : Property φ) (value : Value φ) : Option (Choice φ) :=
  (property.examine value).result.map Prod.snd

theorem matching_eq_find (property : Property φ) (value : Value φ) :
    property.matching value = property.choices.find? fun choice =>
      choice.accepts value && isConfirmed property.validators choice.typeName? value :=
  first_accepting_result _ _ _ _ _

/-- The property accepts the part on its own: a part that is required is there, and one of the
choices matches it. -/
def Meets (property : Property φ) (part : Value φ) : Prop :=
  (property.required = true → part.isUndefined = false) ∧
    (property.matching part).isSome = true

/-- The part is matched by something other than the type name `object`, so nothing below it is
looked at. -/
def Covers (property : Property φ) (part : Value φ) : Prop :=
  ∃ choice, property.matching part = some choice ∧ choice.typeName? ≠ some .object

end Property

namespace Shape

def MeetsAt (properties : List (String × Property φ)) (outline : List (String × Value φ))
    (key : String) : Prop :=
  ∃ property, Entries.get? key properties = some property ∧
    property.Meets (Value.partAt outline key)

def CoversAt (properties : List (String × Property φ)) (outline : List (String × Value φ))
    (key : String) : Prop :=
  ∃ property, Entries.get? key properties = some property ∧
    property.Covers (Value.partAt outline key)

theorem get_matchers (key : String) (properties : List (String × Property φ)) :
    Entries.get? key (matchers properties) =
      (Entries.get? key properties).map Property.matcher := by
  rw [matchers_eq_map, Entries.get?_map]

theorem accepts_eq (shape : Shape φ) (value : Value φ) :
    shape.accepts value =
      (shape.enabled && value.isObjectLike &&
        (visitKeys (matchers shape.properties) (value.outline shape.depth) [] shape.keys).result) := by
  obtain ⟨properties, keys, enabled, depth⟩ := shape
  rw [accepts, examine]
  cases enabled && value.isObjectLike <;> simp

end Shape

end ObjectShape
