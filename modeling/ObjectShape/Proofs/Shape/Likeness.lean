import Mathlib.Data.List.Forall2
import ObjectShape.Proofs.Shape.Settling
import ObjectShape.Proofs.Shape.Unmerged

/-!
# Shapes that are told apart by no value

Two choices are alike if they have the same type name and accept the same values; two properties if
they stand at one path and their choices are alike one by one. The verdict on a list of declared
properties sees nothing else of them, and no order either.
-/

namespace ObjectShape

set_option autoImplicit false

variable {φ : Type} [Host φ]

def Shape.AcceptsAlike (left right : Shape φ) : Prop :=
  ∀ value, left.accepts value = right.accepts value

def Choice.Alike (left right : Choice φ) : Prop :=
  left.typeName? = right.typeName? ∧ ∀ value, left.accepts value = right.accepts value

structure Property.Alike (left right : Property φ) : Prop where
  path : left.path = right.path
  required : left.required = right.required
  validators : left.validators = right.validators
  choices : List.Forall₂ Choice.Alike left.choices right.choices

theorem Choice.alike_refl (choice : Choice φ) : choice.Alike choice :=
  ⟨rfl, fun _ => rfl⟩

theorem Choice.alike_nested {left right : Shape φ} (alike : left.AcceptsAlike right) :
    (Choice.nested left).Alike (.nested right) :=
  ⟨rfl, alike⟩

namespace Property

theorem alike_symm {left right : Property φ} (alike : left.Alike right) : right.Alike left := by
  refine ⟨alike.path.symm, alike.required.symm, alike.validators.symm, ?_⟩
  have flipped := alike.choices.flip
  exact flipped.imp fun _ _ same => ⟨same.1.symm, fun value => (same.2 value).symm⟩

theorem type_names_of_alike {left right : List (Choice φ)}
    (alike : List.Forall₂ Choice.Alike left right) :
    left.map Choice.typeName? = right.map Choice.typeName? := by
  induction alike with
  | nil => rfl
  | cons same _ ih => rw [List.map_cons, List.map_cons, same.1, ih]

theorem accepts_undefined_of_alike {left right : Property φ} (alike : left.Alike right) :
    left.acceptsUndefined = right.acceptsUndefined := by
  have names : ∀ property : Property φ, property.acceptsUndefined =
      (property.choices.map Choice.typeName?).any fun name => name == some .undefined := by
    intro property
    simp [acceptsUndefined, List.any_map, Function.comp_def]
  rw [names left, names right, type_names_of_alike alike.choices]

theorem settle_alike {left right : Property φ} (alike : left.Alike right) :
    left.settle.Alike right.settle := by
  have undefined := accepts_undefined_of_alike alike
  refine ⟨alike.path, ?_, alike.validators, ?_⟩
  · rw [settle_required, settle_required, alike.required, undefined]
  · rw [settle_choices, settle_choices, alike.required, undefined]
    split
    · exact List.rel_append alike.choices (.cons (Choice.alike_refl _) .nil)
    · exact alike.choices

theorem found_name_of_alike (validators : List (BasicType × List (Function φ))) (part : Value φ)
    {left right : List (Choice φ)} (alike : List.Forall₂ Choice.Alike left right) :
    (left.find? fun choice =>
        choice.accepts part && isConfirmed validators choice.typeName? part).map Choice.typeName? =
      (right.find? fun choice =>
        choice.accepts part && isConfirmed validators choice.typeName? part).map Choice.typeName? := by
  induction alike with
  | nil => rfl
  | @cons first other _ _ same _ ih =>
      rw [List.find?_cons, List.find?_cons, same.1, same.2 part]
      cases other.accepts part && isConfirmed validators other.typeName? part with
      | true => exact congrArg some same.1
      | false => exact ih

/-- The first match has the same type name on both sides. -/
theorem matching_name_of_alike {left right : Property φ} (alike : left.Alike right)
    (part : Value φ) :
    (left.matching part).map Choice.typeName? = (right.matching part).map Choice.typeName? := by
  rw [matching_eq_find, matching_eq_find, alike.validators]
  exact found_name_of_alike right.validators part alike.choices

theorem meets_of_alike {left right : Property φ} (alike : left.Alike right) {part : Value φ}
    (met : left.Meets part) : right.Meets part := by
  have names := congrArg Option.isSome (matching_name_of_alike alike part)
  rw [Option.isSome_map, Option.isSome_map] at names
  exact ⟨alike.required ▸ met.1, names ▸ met.2⟩

theorem covers_of_alike {left right : Property φ} (alike : left.Alike right) {part : Value φ}
    (covers : left.Covers part) : right.Covers part := by
  obtain ⟨choice, matched, other⟩ := covers
  have names := matching_name_of_alike alike part
  rw [matched, Option.map_some] at names
  obtain ⟨counterpart, found, same⟩ := Option.map_eq_some_iff.mp names.symm
  exact ⟨counterpart, found, same ▸ other⟩

end Property

namespace Shape

structure Likened (left right : List (Property φ)) : Prop where
  forward : ∀ property ∈ left, ∃ other ∈ right, property.Alike other
  backward : ∀ other ∈ right, ∃ property ∈ left, property.Alike other

theorem likened_nil : Likened ([] : List (Property φ)) [] :=
  ⟨by simp, by simp⟩

theorem likened_singleton {property other : Property φ} (alike : property.Alike other) :
    Likened [property] [other] :=
  ⟨by simpa using alike, by simpa using alike⟩

theorem likened_append {left right laterLeft laterRight : List (Property φ)}
    (here : Likened left right) (later : Likened laterLeft laterRight) :
    Likened (left ++ laterLeft) (right ++ laterRight) := by
  constructor
  · intro property member
    rcases List.mem_append.mp member with own | further
    · obtain ⟨other, among, alike⟩ := here.forward property own
      exact ⟨other, List.mem_append_left _ among, alike⟩
    · obtain ⟨other, among, alike⟩ := later.forward property further
      exact ⟨other, List.mem_append_right _ among, alike⟩
  · intro other member
    rcases List.mem_append.mp member with own | further
    · obtain ⟨property, among, alike⟩ := here.backward other own
      exact ⟨property, List.mem_append_left _ among, alike⟩
    · obtain ⟨property, among, alike⟩ := later.backward other further
      exact ⟨property, List.mem_append_right _ among, alike⟩

theorem likened_of_perm {left right moved : List (Property φ)} (likened : Likened left right)
    (same : right.Perm moved) : Likened left moved := by
  constructor
  · intro property member
    obtain ⟨other, among, alike⟩ := likened.forward property member
    exact ⟨other, same.mem_iff.mp among, alike⟩
  · intro other member
    exact likened.backward other (same.mem_iff.mpr member)

theorem likened_symm {left right : List (Property φ)} (likened : Likened left right) :
    Likened right left := by
  constructor
  · intro other member
    obtain ⟨property, among, alike⟩ := likened.backward other member
    exact ⟨property, among, Property.alike_symm alike⟩
  · intro property member
    obtain ⟨other, among, alike⟩ := likened.forward property member
    exact ⟨other, among, Property.alike_symm alike⟩

theorem settled_by_of_likened {left right : List (Property φ)} (likened : Likened left right)
    {outline : List (String × Value φ)} {property other : Property φ} (alike : property.Alike other)
    (settled : SettledBy left outline property) : SettledBy right outline other := by
  rcases settled with shadowed | met
  · obtain ⟨above, among, below, covers⟩ := shadowed
    obtain ⟨counterpart, there, same⟩ := likened.forward above among
    refine .inl ⟨counterpart, there, ?_, ?_⟩
    · rw [← alike.path, ← same.path]
      exact below
    · rw [← same.path]
      exact Property.covers_of_alike (Property.settle_alike same) covers
  · refine .inr ?_
    rw [← alike.path]
    exact Property.meets_of_alike (Property.settle_alike alike) met

theorem depth_le_of_likened (sorted : Bool) {left right : List (Property φ)}
    (leftOrdered : Ordered left) (rightOrdered : Ordered right) (likened : Likened left right) :
    (ofProperties sorted left).depth ≤ (ofProperties sorted right).depth := by
  rw [depth_eq_max sorted left]
  cases deepest : ((Entries.keys (ofProperties sorted left).properties).map Path.depth).max? with
  | none => exact Nat.zero_le _
  | some depth =>
      obtain ⟨key, among, rfl⟩ := List.mem_map.mp (List.max?_mem deepest)
      rw [← (keys_of_properties_perm sorted left).mem_iff,
        (keys_of_ordered sorted leftOrdered).mem_iff] at among
      obtain ⟨property, declared, rfl⟩ := List.mem_map.mp among
      obtain ⟨other, there, alike⟩ := likened.forward property declared
      rw [Option.getD_some, alike.path]
      exact depth_of_path sorted rightOrdered there

/-- Assembled from properties that are alike, in whatever order, shapes accept alike. -/
theorem accepts_alike_of_likened (sorted : Bool) {left right : List (Property φ)}
    (leftOrdered : Ordered left) (rightOrdered : Ordered right) (likened : Likened left right) :
    (ofProperties sorted left).AcceptsAlike (ofProperties sorted right) := by
  intro value
  have backward := likened_symm likened
  have depth : (ofProperties sorted left).depth = (ofProperties sorted right).depth :=
    Nat.le_antisymm (depth_le_of_likened sorted leftOrdered rightOrdered likened)
      (depth_le_of_likened sorted rightOrdered leftOrdered backward)
  rw [Bool.eq_iff_iff, assembled_accepts_iff sorted leftOrdered,
    assembled_accepts_iff sorted rightOrdered, depth]
  apply and_congr_right
  intro _
  constructor
  · intro settled other member
    obtain ⟨property, among, alike⟩ := likened.backward other member
    exact settled_by_of_likened likened alike (settled property among)
  · intro settled property member
    obtain ⟨other, among, alike⟩ := likened.forward property member
    exact settled_by_of_likened backward (Property.alike_symm alike) (settled other among)

end Shape

end ObjectShape
