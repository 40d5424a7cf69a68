import ObjectShape.Json.Basic
import ObjectShape.Proofs.Workspace.History

/-!
# Building the values of JSON data

The value of JSON data is built of what is at hand: the parts of an object are built before it, each of
new objects. So such a value may be named in a workspace whenever it was built on the heap of that
workspace.
-/

namespace ObjectShape

set_option autoImplicit false

variable {φ : Type}

namespace Json

variable {heap : Heap} {pool : List (Value φ)}

mutual

theorem making_of_to_value {now : Heap} {atHand : List (Value φ)}
    (making : Making heap pool now atHand) : (json : Json) →
      ∃ later, Making heap pool (json.toValue.run now : Value φ × Heap).2 later ∧
        Outlived atHand later ∧ MadeOf later (json.toValue.run now).1
  | .null | .bool _ | .integer _ | .float _ | .string _ =>
      ⟨atHand, making, fun _ _ lives => lives, fun _ _ held => nomatch held⟩
  | .array items => by
      obtain ⟨later, made, outlived, parts⟩ := making_of_to_items making items
      exact ⟨later, made, outlived, made_of_array parts⟩
  | .object fields => by
      obtain ⟨later, made, outlived, parts⟩ := making_of_to_fields making fields
      refine ⟨_, .object made parts rfl, ?_, made_of_member List.mem_cons_self⟩
      exact fun _ _ lives => outlived_cons _ later (outlived lives)
termination_by structural json => json

theorem making_of_to_items {now : Heap} {atHand : List (Value φ)}
    (making : Making heap pool now atHand) : (items : List Json) →
      ∃ later, Making heap pool ((toItems items).run now : List (Value φ) × Heap).2 later ∧
        Outlived atHand later ∧ ∀ item ∈ ((toItems items).run now).1, MadeOf later item
  | [] => ⟨atHand, making, fun _ _ lives => lives, fun _ member => nomatch member⟩
  | item :: rest => by
      obtain ⟨between, made, first, here⟩ := making_of_to_value making item
      obtain ⟨later, made, second, parts⟩ := making_of_to_items made rest
      refine ⟨later, made, fun _ _ lives => second (first lives), ?_⟩
      intro other member
      rcases List.mem_cons.mp member with rfl | below
      · exact here.outlived second
      · exact parts other below
termination_by structural items => items

theorem making_of_to_fields {now : Heap} {atHand : List (Value φ)}
    (making : Making heap pool now atHand) : (fields : List (String × Json)) →
      ∃ later, Making heap pool ((toFields fields).run now : List (String × Value φ) × Heap).2 later ∧
        Outlived atHand later ∧ ∀ entry ∈ ((toFields fields).run now).1, MadeOf later entry.2
  | [] => ⟨atHand, making, fun _ _ lives => lives, fun _ member => nomatch member⟩
  | (key, item) :: rest => by
      obtain ⟨between, made, first, here⟩ := making_of_to_value making item
      obtain ⟨later, made, second, parts⟩ := making_of_to_fields made rest
      refine ⟨later, made, fun _ _ lives => second (first lives), ?_⟩
      intro other member
      rcases List.mem_cons.mp member with rfl | below
      · exact here.outlived second
      · exact parts other below
termination_by structural fields => fields

end

theorem allows_bind (workspace : Workspace φ) (name : String) (json : Json) :
    workspace.Allows (.bind name (json.toValue.run workspace.heap).1
      (json.toValue.run workspace.heap : Value φ × Heap).2) := by
  have begun : Making workspace.heap workspace.pool workspace.heap workspace.pool := .start
  obtain ⟨later, made, _, built⟩ := making_of_to_value begun json
  exact ⟨later, made, built⟩

end Json

end ObjectShape
