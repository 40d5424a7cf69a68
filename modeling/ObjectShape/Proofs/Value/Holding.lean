import ObjectShape.Value.Heap

/-!
# What a value holds

A value holds itself and whatever its fields or items hold. The references a value reaches are those
of the objects it holds, so an object lives in a pool of values as long as one of them holds it.
-/

namespace ObjectShape

set_option autoImplicit false

variable {φ : Type}

namespace Value

inductive Holds : Value φ → Value φ → Prop where
  | self (value : Value φ) : Holds value value
  | field {ref : ObjectRef} {fields : List (String × Value φ)} {part : Value φ}
      {entry : String × Value φ} (member : entry ∈ fields) (held : Holds entry.2 part) :
      Holds (.object ref fields) part
  | instanceField {made : Class} {fields : List (String × Value φ)} {part : Value φ}
      {entry : String × Value φ} (member : entry ∈ fields) (held : Holds entry.2 part) :
      Holds (.instanceOf made fields) part
  | item {items : List (Value φ)} {part child : Value φ} (member : child ∈ items)
      (held : Holds child part) : Holds (.array items) part

theorem mem_reached_by_fields {ref : ObjectRef} {fields : List (String × Value φ)} :
    ref ∈ reachedByFields fields ↔ ∃ entry ∈ fields, ref ∈ entry.2.reaches := by
  induction fields with
  | nil => simp [reachedByFields]
  | cons entry rest ih =>
      simp only [reachedByFields, List.mem_append, ih, List.mem_cons, exists_eq_or_imp]

theorem mem_reached_by_items {ref : ObjectRef} {items : List (Value φ)} :
    ref ∈ reachedByItems items ↔ ∃ item ∈ items, ref ∈ item.reaches := by
  induction items with
  | nil => simp [reachedByItems]
  | cons item rest ih =>
      simp only [reachedByItems, List.mem_append, ih, List.mem_cons, exists_eq_or_imp]

theorem reaches_of_holds {value part : Value φ} (held : value.Holds part) {ref : ObjectRef}
    (reached : ref ∈ part.reaches) : ref ∈ value.reaches := by
  induction held with
  | self => exact reached
  | field member _ ih =>
      exact List.mem_cons_of_mem _ (mem_reached_by_fields.mpr ⟨_, member, ih reached⟩)
  | instanceField member _ ih => exact mem_reached_by_fields.mpr ⟨_, member, ih reached⟩
  | item member _ ih => exact mem_reached_by_items.mpr ⟨_, member, ih reached⟩

mutual

theorem holds_of_reaches {ref : ObjectRef} :
    (value : Value φ) → ref ∈ value.reaches → ∃ fields, value.Holds (.object ref fields)
  | .object other fields, reached => by
      rcases List.mem_cons.mp reached with same | below
      · exact ⟨fields, same ▸ .self _⟩
      · obtain ⟨entry, member, inside, held⟩ := held_by_field_of_reached fields below
        exact ⟨inside, .field member held⟩
  | .instanceOf _ fields, reached => by
      obtain ⟨entry, member, inside, held⟩ := held_by_field_of_reached fields reached
      exact ⟨inside, .instanceField member held⟩
  | .array items, reached => by
      obtain ⟨item, member, inside, held⟩ := held_by_item_of_reached items reached
      exact ⟨inside, .item member held⟩
  | .undefined, reached | .null, reached | .bool _, reached | .number _, reached
  | .bigint _, reached | .string _, reached | .symbol _, reached | .date _, reached
  | .function _, reached | .schematic _, reached => nomatch reached
termination_by structural value => value

theorem held_by_field_of_reached {ref : ObjectRef} :
    (fields : List (String × Value φ)) → ref ∈ reachedByFields fields →
      ∃ entry ∈ fields, ∃ inside, entry.2.Holds (.object ref inside)
  | [], reached => nomatch reached
  | (key, child) :: rest, reached => by
      rcases List.mem_append.mp reached with here | later
      · obtain ⟨inside, held⟩ := holds_of_reaches child here
        exact ⟨_, List.mem_cons_self, inside, held⟩
      · obtain ⟨entry, member, found⟩ := held_by_field_of_reached rest later
        exact ⟨entry, List.mem_cons_of_mem _ member, found⟩
termination_by structural fields => fields

theorem held_by_item_of_reached {ref : ObjectRef} :
    (items : List (Value φ)) → ref ∈ reachedByItems items →
      ∃ item ∈ items, ∃ inside, item.Holds (.object ref inside)
  | [], reached => nomatch reached
  | child :: rest, reached => by
      rcases List.mem_append.mp reached with here | later
      · obtain ⟨inside, held⟩ := holds_of_reaches child here
        exact ⟨_, List.mem_cons_self, inside, held⟩
      · obtain ⟨item, member, found⟩ := held_by_item_of_reached rest later
        exact ⟨item, List.mem_cons_of_mem _ member, found⟩
termination_by structural items => items

end

theorem mem_reaches_iff {ref : ObjectRef} {value : Value φ} :
    ref ∈ value.reaches ↔ ∃ fields, value.Holds (.object ref fields) := by
  constructor
  · exact holds_of_reaches value
  · rintro ⟨fields, held⟩
    exact reaches_of_holds held List.mem_cons_self

end Value

/-- Some value of the pool holds the object with this reference and these fields. -/
def Lives (pool : List (Value φ)) (ref : ObjectRef) (fields : List (String × Value φ)) : Prop :=
  ∃ value ∈ pool, value.Holds (.object ref fields)

def MadeOf (pool : List (Value φ)) (value : Value φ) : Prop :=
  ∀ ⦃ref fields⦄, value.Holds (.object ref fields) → Lives pool ref fields

def Outlived (pool larger : List (Value φ)) : Prop :=
  ∀ ⦃ref fields⦄, Lives pool ref fields → Lives larger ref fields

theorem outlived_cons (value : Value φ) (pool : List (Value φ)) : Outlived pool (value :: pool) :=
  fun _ _ ⟨held, member, holds⟩ => ⟨held, List.mem_cons_of_mem _ member, holds⟩

theorem MadeOf.outlived {pool larger : List (Value φ)} {value : Value φ} (made : MadeOf pool value)
    (outlived : Outlived pool larger) : MadeOf larger value :=
  fun _ _ held => outlived (made held)

theorem made_of_array {pool items : List (Value φ)} (made : ∀ item ∈ items, MadeOf pool item) :
    MadeOf pool (.array items) := by
  intro ref fields held
  cases held with
  | item member held => exact made _ member held

theorem made_of_member {pool : List (Value φ)} {value : Value φ} (member : value ∈ pool) :
    MadeOf pool value :=
  fun _ _ held => ⟨value, member, held⟩

theorem lives_of_object_cons {pool : List (Value φ)} {ref other : ObjectRef}
    {fields inside : List (String × Value φ)} (made : ∀ entry ∈ fields, MadeOf pool entry.2)
    (lives : Lives (.object ref fields :: pool) other inside) :
    (other = ref ∧ inside = fields) ∨ Lives pool other inside := by
  obtain ⟨value, member, held⟩ := lives
  rcases List.mem_cons.mp member with rfl | old
  · cases held with
    | self => exact .inl ⟨rfl, rfl⟩
    | field within held => exact .inr (made _ within held)
  · exact .inr ⟨value, old, held⟩

end ObjectShape
