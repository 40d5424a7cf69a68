import ObjectShape.Proofs.Shape.Matching
import ObjectShape.Shape.Compilation

/-!
# Settled properties

Compiling ends with settling each property: an optional one accepts `undefined`, and one that
accepts `undefined` is optional. What a settled property asks is said in terms of the declared one.
-/

namespace ObjectShape

set_option autoImplicit false

variable {φ : Type}

theorem not_undefined_of_object_like {value : Value φ} (like : value.isObjectLike = true) :
    value.isUndefined = false := by
  cases value with
  | undefined => exact absurd like Bool.false_ne_true
  | _ => rfl

namespace Property

theorem settle_required (property : Property φ) :
    property.settle.required = (property.required && !property.acceptsUndefined) := by
  cases required : property.required <;> simp [settle, acceptsUndefined, required]

theorem settle_choices (property : Property φ) :
    property.settle.choices =
      if !property.required && !property.acceptsUndefined then
        property.choices ++ [.named .undefined]
      else property.choices := rfl

theorem undefined_mem_of_accepts_undefined {property : Property φ}
    (accepts : property.acceptsUndefined = true) : .named .undefined ∈ property.choices := by
  obtain ⟨choice, member, named⟩ := List.any_eq_true.mp accepts
  cases choice with
  | named type =>
      have same : type = .undefined := by simpa [Choice.typeName?] using named
      exact same ▸ member
  | _ => simp [Choice.typeName?] at named

theorem accepts_undefined_iff {property : Property φ} :
    property.acceptsUndefined = true ↔ .named .undefined ∈ property.choices := by
  refine ⟨undefined_mem_of_accepts_undefined, fun member => ?_⟩
  exact List.any_eq_true.mpr ⟨_, member, rfl⟩

theorem mem_settle_choices {property : Property φ} {choice : Choice φ}
    (member : choice ∈ property.settle.choices) :
    choice = .named .undefined ∨ choice ∈ property.choices := by
  rw [settle_choices] at member
  split at member
  · rcases List.mem_append.mp member with present | added
    · exact .inr present
    · exact .inl (List.mem_singleton.mp added)
  · exact .inr member

theorem settle_choices_ne_nil {property : Property φ} (filled : property.choices ≠ []) :
    property.settle.choices ≠ [] := by
  rw [settle_choices]
  split
  · exact List.append_ne_nil_of_left_ne_nil filled _
  · exact filled

/-- A settled property is required unless one of its choices is `undefined`. -/
theorem settle_required_iff (property : Property φ) :
    property.settle.required = true ↔ .named .undefined ∉ property.settle.choices := by
  rw [settle_required, settle_choices]
  cases accepts : property.acceptsUndefined with
  | true =>
      have present := accepts_undefined_iff.mp accepts
      simpa using present
  | false =>
      have absent : .named .undefined ∉ property.choices := fun member =>
        Bool.false_ne_true (accepts.symm.trans (accepts_undefined_iff.mpr member))
      cases property.required with
      | true => simpa using absent
      | false => simp

variable [Host φ]

def Matches (property : Property φ) (part : Value φ) : Prop :=
  ∃ choice ∈ property.choices, choice.accepts part = true ∧
    isConfirmed property.validators choice.typeName? part = true

theorem meets_iff_matches (property : Property φ) (part : Value φ) :
    property.Meets part ↔
      (property.required = true → part.isUndefined = false) ∧ property.Matches part := by
  simp [Meets, Matches, matching_eq_find, List.find?_isSome]

theorem name_choice_iff (validators : List (BasicType × List (Function φ))) (type : BasicType)
    (part : Value φ) :
    (Choice.named type).accepts part = true ∧
        isConfirmed validators (Choice.named type : Choice φ).typeName? part = true ↔
      nameAdmits validators type part = true := by
  rw [nameAdmits, Bool.and_eq_true]
  rfl

/-- Settling adds `undefined` for an optional property and changes no other answer. -/
theorem settle_matches_iff (property : Property φ) (part : Value φ) :
    property.settle.Matches part ↔ property.Matches part ∨
      property.required = false ∧ nameAdmits property.validators .undefined part = true := by
  have validators : property.settle.validators = property.validators := rfl
  unfold Matches
  rw [settle_choices, validators]
  cases required : property.required with
  | true => simp
  | false =>
      cases accepts : property.acceptsUndefined with
      | false => simp [or_and_right, exists_or, name_choice_iff]
      | true =>
          have member := undefined_mem_of_accepts_undefined accepts
          simp only [Bool.not_false, Bool.not_true, Bool.and_false, Bool.false_eq_true, if_false,
            true_and]
          constructor
          · exact fun found => .inl found
          · intro found
            rcases found with found | admitted
            · exact found
            · exact ⟨_, member, (name_choice_iff _ _ _).mpr admitted⟩

/-- What a settled property asks of a part, in terms of the declared one. -/
theorem settle_meets_iff (property : Property φ) (part : Value φ) :
    property.settle.Meets part ↔
      (property.Matches part ∨
        property.required = false ∧ nameAdmits property.validators .undefined part = true) ∧
      (part.isUndefined = false ∨ property.required = false ∨
        property.acceptsUndefined = true) := by
  rw [meets_iff_matches, settle_matches_iff, settle_required, and_comm]
  apply and_congr_right
  intro _
  cases property.required <;> cases property.acceptsUndefined <;> simp

end Property

end ObjectShape
