import ObjectShape.Proofs.Declaration.Levels
import ObjectShape.Proofs.Shape.Matching
import ObjectShape.Proofs.Value.Outline

/-!
# Reading a declaration directly

What a declaration asks of a value, said by recursion on the declaration and one step into the value
for each key: no paths, no outline and no order of visits.
-/

namespace ObjectShape

set_option autoImplicit false

variable {φ : Type} [Host φ]

def TypeSpec.isUndefined (type : TypeSpec φ) : Bool :=
  type.typeName? == some .undefined

mutual

def Declaration.admits : Declaration φ → Value φ → Bool
  | ⟨members⟩, value => !members.isEmpty && value.isObjectLike && membersAdmit members value
termination_by structural declaration => declaration

def membersAdmit : List (String × Member φ) → Value φ → Bool
  | [], _ => true
  | (key, member) :: rest, value =>
      member.admits (value.childAt key) && membersAdmit rest value
termination_by structural members => members

def Member.admits : Member φ → Value φ → Bool
  | .single type, value => type.admits value && (!value.isUndefined || type.isUndefined)
  | .anyOf types, value =>
      typesAdmit [] types value && (!value.isUndefined || types.any TypeSpec.isUndefined)
  | .record required types validators, value =>
      (typesAdmit validators types value || !required && nameAdmits validators .undefined value) &&
        (!value.isUndefined || !required || types.any TypeSpec.isUndefined)
  | .nested required validators ⟨members⟩, value =>
      nameAdmits validators .object value && membersAdmit members value ||
        !required && nameAdmits validators .undefined value
termination_by structural member => member

/-- One of the types admits the value, and so do the validators registered for it. -/
def typesAdmit (validators : List (BasicType × List (Function φ))) :
    List (TypeSpec φ) → Value φ → Bool
  | [], _ => false
  | type :: rest, value =>
      type.admits value && isConfirmed validators type.typeName? value ||
        typesAdmit validators rest value
termination_by structural types => types

def TypeSpec.admits : TypeSpec φ → Value φ → Bool
  | .named type, value => type.accepts value
  | .instanceOf expected, value => value.isInstanceOf expected
  | .predicate function, value => function.test value
  | .inline declaration, value => declaration.admits value
  | .schematic handle, value => handle.shape.accepts value
termination_by structural type => type

end

/-- A member that is not nested: one of its types admits the value, or the member is optional and
`undefined` does; and the value is there, or the member does without it. -/
theorem leaf_admits_eq {member : Member φ}
    (flat : ∀ required validators inner, member ≠ .nested required validators inner)
    (value : Value φ) :
    member.admits value =
      ((typesAdmit member.validators member.types value ||
          !member.isRequired && nameAdmits member.validators .undefined value) &&
        (!value.isUndefined || !member.isRequired || member.types.any TypeSpec.isUndefined)) := by
  cases member with
  | single type =>
      have confirmed : isConfirmed [] type.typeName? value = true := by
        cases type.typeName? <;> rfl
      simp [Member.admits, Member.validators, Member.types, Member.isRequired, typesAdmit, confirmed]
  | anyOf types => simp [Member.admits, Member.validators, Member.types, Member.isRequired]
  | record required types validators => rw [Member.admits]; rfl
  | nested required validators inner => exact absurd rfl (flat required validators inner)

end ObjectShape
