import ObjectShape.Proofs.Shape.Verdict

/-!
# One property changed

A shape in which the property at one path has been changed. The keys are the same, so the verdict can
only change through what the changed property meets, and through what it settles below its path.
-/

namespace ObjectShape.Shape

set_option autoImplicit false

variable {φ : Type}

def adjust (path : String) (change : Property φ → Property φ) (shape : Shape φ) : Shape φ :=
  match shape.property? path with
  | none => shape
  | some property =>
      { shape with properties := Entries.put path (change property) shape.properties }

theorem property_of_adjust (path : String) (change : Property φ → Property φ) (shape : Shape φ)
    (key : String) :
    (shape.adjust path change).property? key =
      if path = key then (shape.property? key).map change else shape.property? key := by
  unfold adjust property?
  cases found : Entries.get? path shape.properties with
  | none =>
      by_cases same : path = key
      · subst same
        simp [found]
      · simp [same]
  | some property =>
      simp only [Entries.get?_put]
      by_cases same : path = key
      · subst same
        simp [found]
      · simp [same]

theorem known_of_adjust (path : String) (change : Property φ → Property φ) (shape : Shape φ)
    (key : String) :
    ((shape.adjust path change).property? key).isSome = (shape.property? key).isSome := by
  rw [property_of_adjust]
  by_cases same : path = key <;> simp [same]

theorem keys_of_adjust (path : String) (change : Property φ → Property φ) (shape : Shape φ) :
    (shape.adjust path change).keys = shape.keys ∧
      (shape.adjust path change).enabled = shape.enabled ∧
      (shape.adjust path change).depth = shape.depth := by
  unfold adjust
  cases shape.property? path <;> exact ⟨rfl, rfl, rfl⟩

/-- Whatever is said of the property at a key holds of the changed one, if the change keeps it at
the path. -/
theorem at_of_adjust {path : String} {change : Property φ → Property φ} {shape : Shape φ}
    {property : Property φ} (found : shape.property? path = some property) {key : String}
    {holds : Property φ → Prop} (kept : path = key → (holds (change property) ↔ holds property)) :
    (∃ there, (shape.adjust path change).property? key = some there ∧ holds there) ↔
      ∃ there, shape.property? key = some there ∧ holds there := by
  rw [property_of_adjust]
  by_cases same : path = key
  · subst same
    simp [found, kept rfl]
  · simp [same]

variable [Host φ]

/-- A change that keeps what the property meets, and what it settles if a key lies below its path,
keeps the verdict on every value, whatever the order of the keys. -/
theorem accepts_of_adjust {path : String} {change : Property φ → Property φ} {shape : Shape φ}
    {property : Property φ} (known : ∀ key ∈ shape.keys, (shape.property? key).isSome = true)
    (found : shape.property? path = some property)
    (meets : ∀ part, (change property).Meets part ↔ property.Meets part)
    (covers : ∀ key ∈ shape.keys, Path.isBelow key path = true →
      ∀ part, (change property).Covers part ↔ property.Covers part) (value : Value φ) :
    (shape.adjust path change).accepts value = shape.accepts value := by
  obtain ⟨keys, enabled, depth⟩ := keys_of_adjust path change shape
  have knownAfter : ∀ key ∈ (shape.adjust path change).keys,
      ((shape.adjust path change).property? key).isSome = true := by
    intro key member
    rw [keys] at member
    rw [known_of_adjust]
    exact known key member
  have settled : ∀ (earlier : List String), ∀ key ∈ shape.keys,
      SettledAmong (shape.adjust path change).properties (value.outline shape.depth) earlier key ↔
        SettledAmong shape.properties (value.outline shape.depth) earlier key := by
    intro earlier key listed
    refine or_congr (exists_congr fun above => and_congr_right fun _ => ?_) ?_
    · refine and_congr_right fun below => at_of_adjust found fun same => ?_
      exact covers key listed (same ▸ below) _
    · exact at_of_adjust found fun _ => meets _
  rw [Bool.eq_iff_iff, accepts_iff_settled_in_turn shape value known,
    accepts_iff_settled_in_turn _ value knownAfter, keys, enabled, depth]
  refine and_congr_right fun _ => and_congr_right fun _ => ?_
  refine forall_congr' fun earlier => forall_congr' fun key => forall_congr' fun later => ?_
  exact imp_congr_right fun split => settled earlier key (by simp [split])

end ObjectShape.Shape
