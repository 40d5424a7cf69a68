import Mathlib.Data.List.TakeWhile
import ObjectShape.Proofs.Shape.Adjusting
import ObjectShape.Proofs.Shape.WellFormed

/-!
# The order of choices

A part is met if any of the choices matches it, so the order of the choices does not matter there.
Whether it is settled depends on the first match, but only on that being the type name `object` or
not: the choices in front of the first `object` settle the part if one of them matches it, and those
behind only if `object` does not.
-/

namespace ObjectShape

set_option autoImplicit false

variable {φ : Type}

namespace Choice

def isObjectName (choice : Choice φ) : Bool :=
  choice.typeName? == some .object

def beforeObject (choices : List (Choice φ)) : List (Choice φ) :=
  choices.takeWhile fun choice => !choice.isObjectName

def fromObject (choices : List (Choice φ)) : List (Choice φ) :=
  choices.dropWhile fun choice => !choice.isObjectName

/-- The same choices stand in front of the first `object`, and the same behind it, in any order. -/
def SameSides (left right : List (Choice φ)) : Prop :=
  (beforeObject left).Perm (beforeObject right) ∧ (fromObject left).Perm (fromObject right)

theorem type_name_eq_object_iff {choice : Choice φ} :
    choice.typeName? = some .object ↔ choice = .named .object := by
  cases choice <;> simp [typeName?]

theorem is_object_name_iff {choice : Choice φ} :
    choice.isObjectName = true ↔ choice = .named .object := by
  rw [isObjectName, beq_iff_eq, type_name_eq_object_iff]

theorem before_object_of_not_mem {choices : List (Choice φ)}
    (absent : .named .object ∉ choices) : beforeObject choices = choices ∧ fromObject choices = [] := by
  have other : ∀ choice ∈ choices, (!choice.isObjectName) = true := by
    intro choice member
    rw [Bool.not_eq_true', ← Bool.not_eq_true, is_object_name_iff]
    exact fun same => absent (same ▸ member)
  exact ⟨List.takeWhile_eq_self_iff.mpr other, List.dropWhile_eq_nil_iff.mpr other⟩

theorem same_sides_of_perm {left right : List (Choice φ)} (permuted : left.Perm right)
    (absent : .named .object ∉ left) : SameSides left right := by
  have absentToo : .named .object ∉ right := fun member => absent (permuted.mem_iff.mpr member)
  obtain ⟨leftBefore, leftFrom⟩ := before_object_of_not_mem absent
  obtain ⟨rightBefore, rightFrom⟩ := before_object_of_not_mem absentToo
  exact ⟨by rw [leftBefore, rightBefore]; exact permuted, by rw [leftFrom, rightFrom]⟩

/-- Whether the first choice that holds is another than `object`. -/
theorem find_other_iff (holds : Choice φ → Bool) (choices : List (Choice φ)) :
    (∃ choice, choices.find? holds = some choice ∧ choice.typeName? ≠ some .object) ↔
      (∃ choice ∈ beforeObject choices, holds choice = true) ∨
        holds (.named .object) = false ∧ ∃ choice ∈ fromObject choices, holds choice = true := by
  induction choices with
  | nil => simp [beforeObject, fromObject]
  | cons first rest ih =>
      cases object : first.isObjectName with
      | true =>
          -- Nothing stands in front of the first `object`, and a match of its own comes first.
          have named := is_object_name_iff.mp object
          have before : beforeObject (first :: rest) = [] := by simp [beforeObject, object]
          have behind : fromObject (first :: rest) = first :: rest := by simp [fromObject, object]
          rw [before, behind, List.find?_cons, named]
          cases matched : holds (.named .object) with
          | true => simp [typeName?]
          | false =>
              have other : ∀ choice, rest.find? holds = some choice →
                  choice.typeName? ≠ some .object := by
                intro choice found same
                rw [type_name_eq_object_iff] at same
                have holding := List.find?_some found
                rw [same, matched] at holding
                exact Bool.false_ne_true holding
              have among : (∃ choice ∈ .named .object :: rest, holds choice = true) ↔
                  (rest.find? holds).isSome = true := by
                simp [matched]
              rw [among, Option.isSome_iff_exists]
              simpa using exists_congr fun choice => and_iff_left_of_imp (other choice)
      | false =>
          have before : beforeObject (first :: rest) = first :: beforeObject rest := by
            simp [beforeObject, object]
          have behind : fromObject (first :: rest) = fromObject rest := by
            simp [fromObject, object]
          have other : first.typeName? ≠ some .object := by simpa [isObjectName] using object
          rw [before, behind, List.find?_cons]
          cases matched : holds first with
          | true => simp [matched, other]
          | false => simpa [matched] using ih

end Choice

namespace Property

def withChoices (choices : List (Choice φ)) (property : Property φ) : Property φ :=
  { property with choices }

variable [Host φ]

/-- The choice accepts the part, and so do the validators registered for it. -/
def Admits (property : Property φ) (part : Value φ) (choice : Choice φ) : Prop :=
  (choice.accepts part && isConfirmed property.validators choice.typeName? part) = true

theorem meets_iff_admits (property : Property φ) (part : Value φ) :
    property.Meets part ↔ (property.required = true → part.isUndefined = false) ∧
      ∃ choice ∈ property.choices, property.Admits part choice := by
  rw [Meets, matching_eq_find, List.find?_isSome]
  rfl

/-- A part is settled by a match in front of the first `object`, or by one behind it if `object`
itself does not match. -/
theorem covers_iff_admits (property : Property φ) (part : Value φ) :
    property.Covers part ↔
      (∃ choice ∈ Choice.beforeObject property.choices, property.Admits part choice) ∨
        ¬ property.Admits part (.named .object) ∧
          ∃ choice ∈ Choice.fromObject property.choices, property.Admits part choice := by
  simp only [Covers, matching_eq_find, Admits, Bool.not_eq_true]
  exact Choice.find_other_iff _ property.choices

theorem meets_of_permuted {choices : List (Choice φ)} {property : Property φ}
    (permuted : choices.Perm property.choices) (part : Value φ) :
    (property.withChoices choices).Meets part ↔ property.Meets part := by
  rw [meets_iff_admits, meets_iff_admits]
  exact and_congr_right fun _ => exists_congr fun choice => and_congr_left fun _ => permuted.mem_iff

theorem covers_of_same_sides {choices : List (Choice φ)} {property : Property φ}
    (sides : Choice.SameSides property.choices choices) (part : Value φ) :
    (property.withChoices choices).Covers part ↔ property.Covers part := by
  obtain ⟨before, behind⟩ := sides
  rw [covers_iff_admits, covers_iff_admits]
  refine or_congr ?_ (and_congr_right fun _ => ?_)
  · exact exists_congr fun choice => and_congr_left fun _ => before.mem_iff.symm
  · exact exists_congr fun choice => and_congr_left fun _ => behind.mem_iff.symm

end Property

namespace Shape

theorem known_of_well_formed {shape : Shape φ} (formed : shape.WellFormed) :
    ∀ key ∈ shape.keys, (shape.property? key).isSome = true := by
  intro key listed
  rcases formed with rfl | assembled
  · exact absurd listed List.not_mem_nil
  · rw [assembled.covering.mem_iff] at listed
    rw [Option.isSome_iff_ne_none, property?]
    exact fun absent => Entries.get?_eq_none_iff.mp absent listed

def rechoose (path : String) (choices : List (Choice φ)) (shape : Shape φ) : Shape φ :=
  shape.adjust path (Property.withChoices choices)

/-- In whatever shape of a compiled declaration the choices of a property change places, the verdict
on every value stays the same: if no key lies below the property, if `object` is not among its
choices, or if every other choice stays on its side of the first `object`. -/
theorem rechosen_accepts [Host φ] (policy : EmptyPolicy) (declaration : Declaration φ)
    (outer shape : Shape φ) (compiled : declaration.compile policy = .ok outer)
    (reached : Relation.ReflTransGen Nests outer shape) (path : String) (property : Property φ)
    (found : shape.property? path = some property) (choices : List (Choice φ))
    (permuted : choices.Perm property.choices)
    (kept : (∀ key ∈ shape.keys, Path.isBelow key path = false) ∨
      .named .object ∉ property.choices ∨ Choice.SameSides property.choices choices)
    (value : Value φ) : (shape.rechoose path choices).accepts value = shape.accepts value := by
  obtain ⟨_, _, _, _, built⟩ := built_of_reached compiled reached
  have known := known_of_well_formed (well_formed_of_build built)
  refine accepts_of_adjust known found (Property.meets_of_permuted permuted) ?_ value
  intro key listed below
  rcases kept with leaf | absent | sides
  · exact absurd (below.symm.trans (leaf key listed)) (by simp)
  · exact Property.covers_of_same_sides (Choice.same_sides_of_perm permuted.symm absent)
  · exact Property.covers_of_same_sides sides

def cornerClass : Class := .root 0 "Corner"

/-- The choices in front of `object` and behind it at `a` may change places, although `a.b` lies
below. -/
def cornered : Declaration Empty :=
  ⟨[("a", .record true [.named .null, .named .array, .named .object, .named .dateLike,
      .named .symbol] [(.object, [⟨0, .guard cornerClass⟩])]),
    ("a.b", .single (.named .string))]⟩

def corneredShape : Shape Empty :=
  { properties :=
      [("a", ⟨"a", true, [.named .null, .named .array, .named .object, .named .dateLike,
          .named .symbol], [(.object, [⟨0, .guard cornerClass⟩])]⟩),
        ("a.b", ⟨"a.b", true, [.named .string], []⟩)]
    keys := ["a", "a.b"]
    enabled := true
    depth := 2 }

def corneredChoices : List (Choice Empty) :=
  [.named .array, .named .null, .named .object, .named .symbol, .named .dateLike]

/-- The date at `a` is an object in the broad sense that the guard turns away, so that a choice
behind `object` settles `a.b`. -/
theorem cornered_rechosen_accepts :
    cornered.compile .reject = .ok corneredShape ∧
      (corneredShape.rechoose "a" corneredChoices).accepts (.object ⟨0, 0⟩ [("a", .date 0)]) =
        corneredShape.accepts (.object ⟨0, 0⟩ [("a", .date 0)]) ∧
      corneredShape.accepts (.object ⟨0, 0⟩ [("a", .date 0)]) = true := by
  have compiled : cornered.compile .reject = .ok corneredShape := by cbv
  have sides : Choice.SameSides (φ := Empty)
      [.named .null, .named .array, .named .object, .named .dateLike, .named .symbol]
      corneredChoices :=
    ⟨.swap _ _ _, .cons _ (.swap _ _ _)⟩
  have permuted : corneredChoices.Perm
      [.named .null, .named .array, .named .object, .named .dateLike, .named .symbol] :=
    .trans (.swap _ _ _) (.cons _ (.cons _ (.cons _ (.swap _ _ _))))
  exact ⟨compiled, rechosen_accepts .reject cornered corneredShape corneredShape compiled .refl "a" _
    rfl corneredChoices permuted (.inr (.inr sides)) _, by cbv⟩

/-- A choice that crosses `object` takes `a.b` out of the check. -/
example : (corneredShape.rechoose "a" [.named .object, .instanceOf cornerClass]).accepts
      (.object ⟨0, 0⟩ [("a", .instanceOf cornerClass [])]) = false ∧
    (corneredShape.rechoose "a" [.instanceOf cornerClass, .named .object]).accepts
      (.object ⟨0, 0⟩ [("a", .instanceOf cornerClass [])]) = true := by
  cbv

end Shape

end ObjectShape
