import ObjectShape.Value.Basic

/-!
# The levels of a value

Objects and instances have keys of their own at every level of a value; every other value has none.
-/

namespace ObjectShape.Value

set_option autoImplicit false

variable {φ : Type}

def fields : Value φ → List (String × Value φ)
  | .object _ fields => fields
  | .instanceOf _ fields => fields
  | _ => []

/-- What is said of the keys holds of the object and instance fields at every level of a value. -/
inductive EveryLevel (holds : List String → Prop) : Value φ → Prop where
  | of {value : Value φ} (here : holds (Entries.keys value.fields))
      (parts : ∀ entry ∈ value.children, EveryLevel holds entry.2) : EveryLevel holds value

theorem EveryLevel.imp {strong weak : List String → Prop} (weaker : ∀ keys, strong keys → weak keys)
    {value : Value φ} (level : EveryLevel strong value) : EveryLevel weak value := by
  induction level with
  | of here _ ih => exact .of (weaker _ here) ih

theorem every_level_iff_children {holds : List String → Prop} {value : Value φ} :
    EveryLevel holds value ↔
      holds (Entries.keys value.fields) ∧ ∀ entry ∈ value.children, EveryLevel holds entry.2 := by
  constructor
  · rintro ⟨here, parts⟩
    exact ⟨here, parts⟩
  · exact fun both => .of both.1 both.2

theorem EveryLevel.here {holds : List String → Prop} {value : Value φ}
    (level : EveryLevel holds value) : holds (Entries.keys value.fields) :=
  (every_level_iff_children.mp level).1

theorem EveryLevel.parts {holds : List String → Prop} {value : Value φ}
    (level : EveryLevel holds value) : ∀ entry ∈ value.children, EveryLevel holds entry.2 :=
  (every_level_iff_children.mp level).2

theorem every_level_of_no_children {holds : List String → Prop} {value : Value φ} (bare : holds [])
    (empty : value.children = []) : EveryLevel holds value := by
  have fields : value.fields = [] := by
    cases value with
    | object ref fields => exact empty
    | instanceOf made fields => exact empty
    | _ => rfl
  refine .of ?_ ?_
  · rw [fields]
    exact bare
  · simp [empty]

theorem forall_mem_children_array {holds : Value φ → Prop} {items : List (Value φ)} :
    (∀ entry ∈ (Value.array items).children, holds entry.2) ↔ ∀ item ∈ items, holds item := by
  have parts : (Value.array items).children.map Prod.snd = items := by
    rw [children, List.map_map]
    exact List.zipIdx_map_fst 0 items
  rw [← parts, List.forall_mem_map, parts]

mutual

def levels : Value φ → List (List (String × Value φ))
  | .object _ fields => fields :: levelsOfFields fields
  | .instanceOf _ fields => fields :: levelsOfFields fields
  | .array items => [] :: levelsOfItems items
  | _ => [[]]
termination_by structural value => value

def levelsOfFields : List (String × Value φ) → List (List (String × Value φ))
  | [] => []
  | (_, part) :: rest => part.levels ++ levelsOfFields rest
termination_by structural fields => fields

def levelsOfItems : List (Value φ) → List (List (String × Value φ))
  | [] => []
  | item :: rest => item.levels ++ levelsOfItems rest
termination_by structural items => items

end

section Levels

variable {holds : List String → Prop}

mutual

theorem every_level_iff : (value : Value φ) →
    (EveryLevel holds value ↔ ∀ level ∈ value.levels, holds (Entries.keys level))
  | .object _ fields => by
      rw [levels, List.forall_mem_cons, ← every_level_fields_iff fields, every_level_iff_children]
      rfl
  | .instanceOf _ fields => by
      rw [levels, List.forall_mem_cons, ← every_level_fields_iff fields, every_level_iff_children]
      rfl
  | .array items => by
      rw [levels, List.forall_mem_cons, ← every_level_items_iff items, every_level_iff_children,
        forall_mem_children_array]
      rfl
  | .undefined | .null | .bool _ | .number _ | .bigint _ | .string _ | .symbol _ | .date _
  | .function _ | .schematic _ => by
      rw [every_level_iff_children]
      simp [levels, fields, children]
termination_by structural value => value

theorem every_level_fields_iff : (fields : List (String × Value φ)) →
    ((∀ entry ∈ fields, EveryLevel holds entry.2) ↔
      ∀ level ∈ levelsOfFields fields, holds (Entries.keys level))
  | [] => by simp [levelsOfFields]
  | (_, part) :: rest => by
      rw [levelsOfFields, List.forall_mem_append, List.forall_mem_cons, every_level_iff part,
        every_level_fields_iff rest]
termination_by structural fields => fields

theorem every_level_items_iff : (items : List (Value φ)) →
    ((∀ item ∈ items, EveryLevel holds item) ↔
      ∀ level ∈ levelsOfItems items, holds (Entries.keys level))
  | [] => by simp [levelsOfItems]
  | item :: rest => by
      rw [levelsOfItems, List.forall_mem_append, List.forall_mem_cons, every_level_iff item,
        every_level_items_iff rest]
termination_by structural items => items

end

instance [DecidablePred holds] (value : Value φ) : Decidable (EveryLevel holds value) :=
  decidable_of_iff _ (every_level_iff value).symm

end Levels

/-- A value in which no object or instance, at any level, has two fields under one key. -/
structure Indexed (φ : Type) where
  value : Value φ
  distinct : value.EveryLevel List.Nodup

end ObjectShape.Value
