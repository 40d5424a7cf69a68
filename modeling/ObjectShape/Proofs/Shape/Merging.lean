import ObjectShape.Proofs.Shape.Assembly
import ObjectShape.Proofs.Shape.Settling

/-!
# Merged properties

The table of an assembled shape has one property for each declared path: the first declaration of
the path, with the later ones merged into it in their order, settled at the end. Merging keeps the
choices that are there and adds some of the later ones behind them.
-/

namespace ObjectShape

set_option autoImplicit false

variable {φ : Type}

namespace Property

theorem add_choice_cases (known : List (Choice φ)) (choice : Choice φ) :
    addChoice known choice = known ∨ addChoice known choice = known ++ [choice] := by
  rw [addChoice]
  cases choice.typeName? with
  | none => exact .inr rfl
  | some type =>
      dsimp only
      split
      · exact .inl rfl
      · exact .inr rfl

theorem add_choices_eq (known added : List (Choice φ)) :
    ∃ kept, kept.Sublist added ∧ added.foldl addChoice known = known ++ kept := by
  induction added generalizing known with
  | nil => exact ⟨[], .slnil, by simp⟩
  | cons choice rest ih =>
      rw [List.foldl_cons]
      rcases add_choice_cases known choice with present | appended
      · obtain ⟨kept, among, same⟩ := ih known
        exact ⟨kept, among.cons choice, by rw [present, same]⟩
      · obtain ⟨kept, among, same⟩ := ih (known ++ [choice])
        exact ⟨choice :: kept, among.cons_cons choice, by rw [appended, same]; simp⟩

theorem path_of_merged (first : Property φ) (later : List (Property φ)) :
    (later.foldl merge first).path = first.path := by
  induction later generalizing first with
  | nil => rfl
  | cons next rest ih => exact ih (first.merge next)

theorem choices_of_merged (first : Property φ) (later : List (Property φ)) :
    ∃ kept, (later.foldl merge first).choices = first.choices ++ kept ∧
      ∀ choice ∈ kept, ∃ property ∈ later, choice ∈ property.choices := by
  induction later generalizing first with
  | nil => exact ⟨[], by simp⟩
  | cons next rest ih =>
      obtain ⟨here, among, added⟩ := add_choices_eq first.choices next.choices
      obtain ⟨further, same, declared⟩ := ih (first.merge next)
      refine ⟨here ++ further, ?_, ?_⟩
      · rw [List.foldl_cons, same, merge, added, List.append_assoc]
      · intro choice member
        rcases List.mem_append.mp member with own | other
        · exact ⟨next, List.mem_cons_self, among.subset own⟩
        · obtain ⟨property, listed, chosen⟩ := declared choice other
          exact ⟨property, List.mem_cons_of_mem next listed, chosen⟩

end Property

namespace Shape

def declaredAt (path : String) (declared : List (Property φ)) : List (Property φ) :=
  declared.filter fun property => decide (property.path = path)

def mergedAt (path : String) (declared : List (Property φ)) : Option (Property φ) :=
  match declaredAt path declared with
  | [] => none
  | first :: later => some (later.foldl Property.merge first)

theorem mem_declared_at {path : String} {declared : List (Property φ)} {property : Property φ} :
    property ∈ declaredAt path declared ↔ property ∈ declared ∧ property.path = path := by
  simp [declaredAt]

theorem collected_onto {path : String} {earlier : Property φ} {table : List (String × Property φ)}
    (present : Entries.get? path table = some earlier) (declared : List (Property φ)) :
    Entries.get? path (declared.foldl collect table) =
      some ((declaredAt path declared).foldl Property.merge earlier) := by
  induction declared generalizing table earlier with
  | nil => exact present
  | cons property rest ih =>
      rw [List.foldl_cons, declaredAt, List.filter_cons]
      by_cases same : property.path = path
      · have merged : Entries.get? path (collect table property) = some (earlier.merge property) := by
          rw [collect, Entries.get?_upsert, if_pos same, same, present]
        rw [if_pos (decide_eq_true same), List.foldl_cons]
        exact ih merged
      · have kept : Entries.get? path (collect table property) = some earlier := by
          rw [collect, Entries.get?_upsert, if_neg same, present]
        rw [if_neg (by simpa using same)]
        exact ih kept

theorem collected_at {path : String} {table : List (String × Property φ)}
    (absent : Entries.get? path table = none) (declared : List (Property φ)) :
    Entries.get? path (declared.foldl collect table) = mergedAt path declared := by
  induction declared generalizing table with
  | nil => exact absent
  | cons property rest ih =>
      rw [List.foldl_cons, mergedAt, declaredAt, List.filter_cons]
      by_cases same : property.path = path
      · have placed : Entries.get? path (collect table property) = some property := by
          rw [collect, Entries.get?_upsert, if_pos same, same, absent]
        rw [if_pos (decide_eq_true same)]
        exact collected_onto placed rest
      · have missing : Entries.get? path (collect table property) = none := by
          rw [collect, Entries.get?_upsert, if_neg same, absent]
        rw [if_neg (by simpa using same)]
        exact ih missing

/-- What an assembled shape has at a path. -/
theorem property_at (sorted : Bool) (declared : List (Property φ)) (path : String) :
    (ofProperties sorted declared).property? path =
      (mergedAt path declared).map Property.settle := by
  rw [property?, ofProperties, Entries.get?_map, collected_at rfl]

theorem entry_of_properties {sorted : Bool} {declared : List (Property φ)}
    {entry : String × Property φ} (member : entry ∈ (ofProperties sorted declared).properties) :
    ∃ first later, declaredAt entry.1 declared = first :: later ∧
      entry.2 = (later.foldl Property.merge first).settle := by
  have distinct := (keys_of_properties_perm sorted declared).nodup_iff.mp
    (keys_of_properties_nodup sorted declared)
  have found : (ofProperties sorted declared).property? entry.1 = some entry.2 :=
    (Entries.get?_eq_some_iff_mem distinct).mpr member
  rw [property_at, mergedAt] at found
  cases listed : declaredAt entry.1 declared with
  | nil => simp [listed] at found
  | cons first later =>
      rw [listed] at found
      exact ⟨first, later, rfl, (Option.some.inj found).symm⟩

theorem mem_keys_of_properties_iff {sorted : Bool} {declared : List (Property φ)} {key : String} :
    key ∈ (ofProperties sorted declared).keys ↔ ∃ property ∈ declared, property.path = key := by
  rw [(keys_of_properties_perm sorted declared).mem_iff, ← not_iff_not,
    ← Entries.get?_eq_none_iff, ← property?, property_at, Option.map_eq_none_iff, mergedAt]
  have absent : declaredAt key declared = [] ↔ ¬∃ property ∈ declared, property.path = key := by
    simp [declaredAt]
  rw [← absent]
  cases declaredAt key declared <;> simp

theorem path_of_entry {sorted : Bool} {declared : List (Property φ)} {entry : String × Property φ}
    (member : entry ∈ (ofProperties sorted declared).properties) : entry.2.path = entry.1 := by
  obtain ⟨first, later, listed, same⟩ := entry_of_properties member
  have here : first ∈ declaredAt entry.1 declared := listed ▸ List.mem_cons_self
  rw [same]
  exact (Property.path_of_merged first later).trans (mem_declared_at.mp here).2

/-- Every choice of an entry is declared at its path, or `undefined`. -/
theorem choice_of_entry {sorted : Bool} {declared : List (Property φ)}
    {entry : String × Property φ} (member : entry ∈ (ofProperties sorted declared).properties)
    {choice : Choice φ} (chosen : choice ∈ entry.2.choices) :
    choice = .named .undefined ∨
      ∃ property ∈ declared, property.path = entry.1 ∧ choice ∈ property.choices := by
  obtain ⟨first, later, listed, same⟩ := entry_of_properties member
  have declaredHere : ∀ property ∈ first :: later, property ∈ declared ∧ property.path = entry.1 :=
    fun property among => mem_declared_at.mp (listed ▸ among)
  obtain ⟨kept, merged, added⟩ := Property.choices_of_merged first later
  rw [same] at chosen
  rcases Property.mem_settle_choices chosen with undefined | chosen
  · exact .inl undefined
  · rw [merged] at chosen
    rcases List.mem_append.mp chosen with own | other
    · obtain ⟨among, here⟩ := declaredHere first List.mem_cons_self
      exact .inr ⟨first, among, here, own⟩
    · obtain ⟨property, among, there⟩ := added choice other
      obtain ⟨among, here⟩ := declaredHere property (List.mem_cons_of_mem first among)
      exact .inr ⟨property, among, here, there⟩

theorem choices_of_entry_ne_nil {sorted : Bool} {declared : List (Property φ)}
    (filled : ∀ property ∈ declared, property.choices ≠ []) {entry : String × Property φ}
    (member : entry ∈ (ofProperties sorted declared).properties) : entry.2.choices ≠ [] := by
  obtain ⟨first, later, listed, same⟩ := entry_of_properties member
  have here : first ∈ declaredAt entry.1 declared := listed ▸ List.mem_cons_self
  have chosen := filled first (mem_declared_at.mp here).1
  obtain ⟨kept, merged, _⟩ := Property.choices_of_merged first later
  rw [same]
  apply Property.settle_choices_ne_nil
  rw [merged]
  exact List.append_ne_nil_of_left_ne_nil chosen kept

end Shape

end ObjectShape
