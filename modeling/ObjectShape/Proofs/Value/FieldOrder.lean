import ObjectShape.Proofs.Value.Lookup

/-!
# Fields in another order

Two values may differ by the order of the fields of objects and instances alone. The same chains of
keys then lead through both, to parts that differ by no more. What an outline holds at a path depends
on the order only if several chains spell the path and no single one of them has undotted keys.
-/

namespace ObjectShape

set_option autoImplicit false

variable {φ : Type}

mutual

/-- The same value but for the places of fields, at any depth. Which objects hold them is left
open. -/
inductive Value.Reorders : Value φ → Value φ → Prop where
  | same (value : Value φ) : Value.Reorders value value
  | array {items others : List (Value φ)} (each : ItemsReorder items others) :
      Value.Reorders (.array items) (.array others)
  | object {ref other : ObjectRef} {fields middle others : List (String × Value φ)}
      (inside : FieldsReorder fields middle) (moved : middle.Perm others) :
      Value.Reorders (.object ref fields) (.object other others)
  | instanceOf {made : Class} {fields middle others : List (String × Value φ)}
      (inside : FieldsReorder fields middle) (moved : middle.Perm others) :
      Value.Reorders (.instanceOf made fields) (.instanceOf made others)

inductive FieldsReorder : List (String × Value φ) → List (String × Value φ) → Prop where
  | nil : FieldsReorder [] []
  | cons {key : String} {value other : Value φ} {rest later : List (String × Value φ)}
      (here : Value.Reorders value other) (further : FieldsReorder rest later) :
      FieldsReorder ((key, value) :: rest) ((key, other) :: later)

inductive ItemsReorder : List (Value φ) → List (Value φ) → Prop where
  | nil : ItemsReorder [] []
  | cons {item other : Value φ} {rest later : List (Value φ)} (here : Value.Reorders item other)
      (further : ItemsReorder rest later) : ItemsReorder (item :: rest) (other :: later)

end

namespace Value

end Value

end ObjectShape
