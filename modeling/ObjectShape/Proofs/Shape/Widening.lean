import ObjectShape.Proofs.Shape.Adjusting
import ObjectShape.Proofs.Shape.Assembly

/-!
# Wider shapes

A property that is given further choices behind its own keeps the first match of every part that it
matched before, so it still meets and settles what it met and settled. The verdict of a compiled
declaration only asks for parts that are met or settled, wherever they stand, and so it can only
change from a rejection to an acceptance.
-/

namespace ObjectShape

set_option autoImplicit false

variable {φ : Type}

/-- The property with further choices behind its own. If one of them is `undefined`, the part need
not be there any more. -/
def Property.widen (further : List (Choice φ)) (property : Property φ) : Property φ :=
  { property with
    required := property.required && !further.any fun choice => choice.typeName? == some .undefined
    choices := property.choices ++ further }

def Shape.widen (path : String) (further : List (Choice φ)) (shape : Shape φ) : Shape φ :=
  match shape.property? path with
  | none => shape
  | some property =>
      { shape with properties := Entries.put path (property.widen further) shape.properties }

theorem Shape.widen_eq_adjust (path : String) (further : List (Choice φ)) (shape : Shape φ) :
    shape.widen path further = shape.adjust path (Property.widen further) := rfl

theorem Shape.property_of_widen (path : String) (further : List (Choice φ)) (shape : Shape φ)
    (key : String) :
    (shape.widen path further).property? key =
      if path = key then (shape.property? key).map (Property.widen further)
      else shape.property? key := by
  rw [widen_eq_adjust, property_of_adjust]

theorem Shape.keys_of_widen (path : String) (further : List (Choice φ)) (shape : Shape φ) :
    (shape.widen path further).keys = shape.keys ∧
      (shape.widen path further).enabled = shape.enabled ∧
      (shape.widen path further).depth = shape.depth := by
  rw [widen_eq_adjust]
  exact keys_of_adjust path (Property.widen further) shape

variable [Host φ]

theorem Property.widen_matching {property : Property φ} {part : Value φ} {choice : Choice φ}
    (further : List (Choice φ)) (matched : property.matching part = some choice) :
    (property.widen further).matching part = some choice := by
  rw [Property.matching_eq_find] at matched ⊢
  have choices : (property.widen further).choices = property.choices ++ further := rfl
  have validators : (property.widen further).validators = property.validators := rfl
  rw [choices, validators, List.find?_append, matched]
  rfl

theorem Property.widen_meets {property : Property φ} {part : Value φ} (further : List (Choice φ))
    (met : property.Meets part) : (property.widen further).Meets part := by
  obtain ⟨present, matched⟩ := met
  obtain ⟨choice, matched⟩ := Option.isSome_iff_exists.mp matched
  constructor
  · intro required
    exact present (Bool.and_eq_true_iff.mp required).1
  · rw [Property.widen_matching further matched]
    rfl

theorem Property.widen_covers {property : Property φ} {part : Value φ} (further : List (Choice φ))
    (covers : property.Covers part) : (property.widen further).Covers part := by
  obtain ⟨choice, matched, other⟩ := covers
  exact ⟨choice, Property.widen_matching further matched, other⟩

namespace Shape

/-- Whatever was met or settled still is, whether at the widened path, above it or below it. -/
theorem settled_among_widen {path : String} {further : List (Choice φ)} {shape : Shape φ}
    {outline : List (String × Value φ)} {keys : List String} {key : String}
    (settled : SettledAmong shape.properties outline keys key) :
    SettledAmong (shape.widen path further).properties outline keys key := by
  have kept : ∀ {place : String} {property : Property φ},
      Entries.get? place shape.properties = some property →
      Entries.get? place (shape.widen path further).properties =
        some (if path = place then property.widen further else property) := by
    intro place property found
    have widened := property_of_widen path further shape place
    unfold property? at widened
    rw [widened, found]
    by_cases same : path = place <;> simp [same]
  rcases settled with shadowed | met
  · obtain ⟨above, member, below, property, found, covers⟩ := shadowed
    refine .inl ⟨above, member, below, _, kept found, ?_⟩
    by_cases same : path = above
    · simpa [same] using Property.widen_covers further covers
    · simpa [same] using covers
  · obtain ⟨property, found, met⟩ := met
    refine .inr ⟨_, kept found, ?_⟩
    by_cases same : path = key
    · simpa [same] using Property.widen_meets further met
    · simpa [same] using met

/-- Further choices at a path of a compiled declaration never turn an accepted value away. -/
theorem widened_accepts (policy : EmptyPolicy) (declaration : Declaration φ) (shape : Shape φ)
    (compiled : declaration.compile policy = .ok shape) (path : String)
    (further : List (Choice φ)) (value : Value φ) (accepted : shape.accepts value = true) :
    (shape.widen path further).accepts value = true := by
  obtain ⟨known, ordered⟩ := keys_of_compiled compiled
  obtain ⟨keys, enabled, depth⟩ := keys_of_widen path further shape
  have wideKnown : ∀ key ∈ (shape.widen path further).keys,
      ((shape.widen path further).property? key).isSome = true := by
    intro key member
    rw [keys] at member
    rw [widen_eq_adjust, known_of_adjust]
    exact known key member
  have wideOrdered : AncestorsFirst (shape.widen path further).keys := by
    rw [keys]
    exact ordered
  rw [accepts_iff_settled_among shape value known ordered] at accepted
  rw [accepts_iff_settled_among _ value wideKnown wideOrdered, keys, enabled, depth]
  obtain ⟨isEnabled, like, settled⟩ := accepted
  exact ⟨isEnabled, like, fun key member => settled_among_widen (settled key member)⟩

/-- The part at `a` is matched by a number and settles `a.b`, which is widened although it is
passed over. -/
theorem child_first_widened_accepts :
    childFirst.compile .reject = .ok childFirstShape ∧
      childFirstShape.accepts (.object ⟨0, 0⟩ [("a", .bigint 1)]) = true ∧
      (childFirstShape.widen "a.b" [.named .undefined, .named .null]).accepts
        (.object ⟨0, 0⟩ [("a", .bigint 1)]) = true := by
  have compiled : childFirst.compile .reject = .ok childFirstShape := by cbv
  have accepted : childFirstShape.accepts (.object ⟨0, 0⟩ [("a", .bigint 1)]) = true := by cbv
  exact ⟨compiled, accepted, widened_accepts .reject childFirst childFirstShape compiled "a.b"
    [.named .undefined, .named .null] _ accepted⟩

end Shape

end ObjectShape
