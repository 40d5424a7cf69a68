import ObjectShape.Fault
import ObjectShape.Json.Reader
import ObjectShape.Proofs.Value.Levels

/-!
# The keys of what is read

A JSON text may name a field twice, but the data that is read from it has the field once. So no
value of a document has two fields under one key.
-/

namespace ObjectShape.Json

set_option autoImplicit false

variable {φ : Type}

/-- On every heap the data becomes a value with distinct keys. -/
structure IsDistinct (φ : Type) (json : Json) : Prop where
  distinct (heap : Heap) :
    ((json.toValue : StateM Heap (Value φ)).run heap).1.EveryLevel List.Nodup

def IsScalar (json : Json) : Prop :=
  json.array? = none ∧ json.object? = none

theorem is_distinct_of_scalar {json : Json} (scalar : json.IsScalar) : json.IsDistinct φ := by
  refine ⟨fun heap => ?_⟩
  cases json with
  | array => exact absurd scalar.1 (by simp [array?])
  | object => exact absurd scalar.2 (by simp [object?])
  | _ => exact Value.every_level_of_no_children List.nodup_nil rfl

theorem forall_mem_to_items {items : List Json} (each : ∀ item ∈ items, item.IsDistinct φ)
    (heap : Heap) :
    ∀ item ∈ ((toItems items : StateM Heap (List (Value φ))).run heap).1,
      item.EveryLevel List.Nodup := by
  induction items generalizing heap with
  | nil => exact fun _ member => nomatch member
  | cons item rest ih =>
      obtain ⟨here, later⟩ := List.forall_mem_cons.mp each
      exact List.forall_mem_cons.mpr ⟨here.distinct heap, ih later _⟩

theorem keys_of_to_fields (fields : List (String × Json)) (heap : Heap) :
    Entries.keys ((toFields fields : StateM Heap (List (String × Value φ))).run heap).1 =
      Entries.keys fields := by
  induction fields generalizing heap with
  | nil => rfl
  | cons field rest ih => exact congrArg (field.1 :: ·) (ih _)

theorem forall_mem_to_fields {fields : List (String × Json)}
    (each : ∀ entry ∈ fields, entry.2.IsDistinct φ) (heap : Heap) :
    ∀ entry ∈ ((toFields fields : StateM Heap (List (String × Value φ))).run heap).1,
      entry.2.EveryLevel List.Nodup := by
  induction fields generalizing heap with
  | nil => exact fun _ member => nomatch member
  | cons field rest ih =>
      obtain ⟨here, later⟩ := List.forall_mem_cons.mp each
      exact List.forall_mem_cons.mpr ⟨here.distinct heap, ih later _⟩

theorem is_distinct_array {items : List Json} (each : ∀ item ∈ items, item.IsDistinct φ) :
    (Json.array items).IsDistinct φ := by
  refine ⟨fun heap => ?_⟩
  have parts := forall_mem_to_items each heap
  exact .of List.nodup_nil (Value.forall_mem_children_array.mpr parts)

theorem is_distinct_object {fields : List (String × Json)} (distinct : (Entries.keys fields).Nodup)
    (each : ∀ entry ∈ fields, entry.2.IsDistinct φ) : (Json.object fields).IsDistinct φ := by
  refine ⟨fun heap => ?_⟩
  have keys := keys_of_to_fields (φ := φ) fields heap
  exact .of (keys ▸ distinct) (forall_mem_to_fields each heap)

/-- Fields written one after the other have distinct keys, and hold nothing but what was written. -/
theorem is_distinct_of_list {fields : List (String × Json)}
    (each : ∀ entry ∈ fields, entry.2.IsDistinct φ) :
    (Json.object (Entries.ofList fields)).IsDistinct φ := by
  have written : ∀ known : List (String × Json), (Entries.keys known).Nodup →
      (∀ entry ∈ known, entry.2.IsDistinct φ) →
        (Json.object (fields.foldl (fun entries pair => Entries.put pair.1 pair.2 entries)
          known)).IsDistinct φ := by
    induction fields with
    | nil => exact fun _ => is_distinct_object
    | cons field rest ih =>
        obtain ⟨here, later⟩ := List.forall_mem_cons.mp each
        intro known distinct parts
        refine ih later _ (Entries.nodup_keys_upsert _ _ distinct) fun entry member => ?_
        rcases Entries.mem_of_mem_put member with rfl | present
        · exact here
        · exact parts entry present
  exact written [] List.nodup_nil fun _ member => nomatch member

theorem is_scalar_of_read_exponent {negative : Bool} {significand : Nat} {start : Int}
    {chars rest : List Char} {json : Json}
    (read : readExponent negative significand start chars = .ok (json, rest)) : json.IsScalar := by
  unfold readExponent at read
  dsimp only at read
  repeat' split at read
  all_goals cases read <;> exact ⟨rfl, rfl⟩

theorem is_scalar_of_finish_float {negative : Bool} {significand : Nat} {exponent : Int}
    {chars rest : List Char} {json : Json}
    (read : finishFloat negative significand exponent chars = .ok (json, rest)) :
    json.IsScalar := by
  unfold finishFloat at read
  split at read
  · exact is_scalar_of_read_exponent read
  · exact is_scalar_of_read_exponent read
  · split at read
    all_goals cases read <;> exact ⟨rfl, rfl⟩

theorem is_scalar_whole_number (negative : Bool) (significand : Nat) :
    (wholeNumber negative significand).IsScalar := by
  unfold wholeNumber
  repeat' split
  all_goals exact ⟨rfl, rfl⟩

theorem is_scalar_of_read_number {negative : Bool} {chars rest : List Char} {json : Json}
    (read : readNumber negative chars = .ok (json, rest)) : json.IsScalar := by
  unfold readNumber at read
  dsimp only at read
  repeat' split at read
  all_goals first
    | exact is_scalar_of_read_exponent read
    | exact is_scalar_of_finish_float read
    | (cases read <;> exact is_scalar_whole_number _ _)

theorem is_distinct_of_read_word {word chars rest : List Char} {scalar json : Json}
    (plain : scalar.IsScalar)
    (read : (do return (scalar, ← readWord word chars)) =
      (Except.ok (json, rest) : Except ReadFault (Json × List Char))) : json.IsDistinct φ := by
  obtain ⟨_, _, read⟩ := bind_eq_ok_iff.mp read
  cases read
  exact is_distinct_of_scalar plain

mutual

theorem is_distinct_of_read_value : (fuel : Nat) → ∀ (depth : Nat) (chars rest : List Char)
    (json : Json), readValue fuel depth chars = .ok (json, rest) → json.IsDistinct φ
  | 0, _, _, _, _, read => nomatch read
  | fuel + 1, depth, chars, rest, json, read => by
      rw [readValue] at read
      split at read
      · exact nomatch read
      · exact is_distinct_of_read_word ⟨rfl, rfl⟩ read
      · exact is_distinct_of_read_word ⟨rfl, rfl⟩ read
      · exact is_distinct_of_read_word ⟨rfl, rfl⟩ read
      · obtain ⟨⟨text, _⟩, _, read⟩ := bind_eq_ok_iff.mp read
        cases read
        exact is_distinct_of_scalar ⟨rfl, rfl⟩
      · exact is_distinct_of_scalar (is_scalar_of_read_number read)
      -- behind a bracket: it is closed at once or not, and the depth is used up or not
      · split at read <;> dsimp only at read <;> split at read
        · exact nomatch read
        · cases read
          exact is_distinct_array fun _ member => nomatch member
        · exact nomatch read
        · obtain ⟨⟨items, _⟩, inside, read⟩ := bind_eq_ok_iff.mp read
          cases read
          exact is_distinct_array (is_distinct_of_read_items fuel _ _ _ _ inside)
      · split at read <;> dsimp only at read <;> split at read
        · exact nomatch read
        · cases read
          exact is_distinct_object List.nodup_nil fun _ member => nomatch member
        · exact nomatch read
        · obtain ⟨⟨fields, _⟩, inside, read⟩ := bind_eq_ok_iff.mp read
          cases read
          exact is_distinct_of_list (is_distinct_of_read_fields fuel _ _ _ _ inside)
      · split at read
        · exact is_distinct_of_scalar (is_scalar_of_read_number read)
        · exact nomatch read
termination_by structural fuel => fuel

theorem is_distinct_of_read_items : (fuel : Nat) → ∀ (depth : Nat) (chars rest : List Char)
    (items : List Json), readItems fuel depth chars = .ok (items, rest) →
      ∀ item ∈ items, item.IsDistinct φ
  | 0, _, _, _, _, read => nomatch read
  | fuel + 1, depth, chars, rest, items, read => by
      rw [readItems, bind_eq_ok_iff] at read
      obtain ⟨⟨first, left⟩, here, read⟩ := read
      have own := is_distinct_of_read_value fuel _ _ _ _ here
      dsimp only at read
      split at read
      · exact nomatch read
      · cases read
        exact List.forall_mem_singleton.mpr own
      · obtain ⟨⟨later, _⟩, further, read⟩ := bind_eq_ok_iff.mp read
        cases read
        exact List.forall_mem_cons.mpr ⟨own, is_distinct_of_read_items fuel _ _ _ _ further⟩
      · exact nomatch read
termination_by structural fuel => fuel

theorem is_distinct_of_read_fields : (fuel : Nat) → ∀ (depth : Nat) (chars rest : List Char)
    (fields : List (String × Json)), readFields fuel depth chars = .ok (fields, rest) →
      ∀ entry ∈ fields, entry.2.IsDistinct φ
  | 0, _, _, _, _, read => nomatch read
  | fuel + 1, depth, chars, rest, fields, read => by
      rw [readFields, bind_eq_ok_iff] at read
      obtain ⟨⟨key, left⟩, _, read⟩ := read
      obtain ⟨⟨first, left⟩, here, read⟩ := bind_eq_ok_iff.mp read
      have own := is_distinct_of_read_value fuel _ _ _ _ here
      dsimp only at read
      split at read
      · exact nomatch read
      · cases read
        exact List.forall_mem_singleton.mpr own
      · obtain ⟨⟨later, _⟩, further, read⟩ := bind_eq_ok_iff.mp read
        cases read
        exact List.forall_mem_cons.mpr ⟨own, is_distinct_of_read_fields fuel _ _ _ _ further⟩
      · exact nomatch read
termination_by structural fuel => fuel

end

theorem is_distinct_of_read {text : String} {json : Json} (read : Json.read text = .ok json) :
    json.IsDistinct φ := by
  obtain ⟨⟨whole, _⟩, first, read⟩ := bind_eq_ok_iff.mp read
  dsimp only at read
  split at read
  · cases read
    exact is_distinct_of_read_value _ _ _ _ _ first
  · exact nomatch read

end ObjectShape.Json
